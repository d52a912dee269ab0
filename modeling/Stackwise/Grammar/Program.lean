import Stackwise.Diagnostic
import Stackwise.Grammar.Productions

/-! Whole programs. The tokens up to the first end-of-input token are read as a list
of statements, and those behind it are never looked at. -/

namespace Stackwise

/-- A mismatch reports the text and place of its token. -/
def Mismatch.diagnostic (mismatch : Mismatch) : Diagnostic :=
  .unexpected mismatch.expected.text mismatch.token.kind.text mismatch.token.offset

namespace Grammar

/-- The statements at the front of the tokens, and the tokens from the first one on
that begins no statement. -/
def program (ending : Token) (tokens : List Token) :
    Except Mismatch (List Term × List Token) := do
  if atStatement tokens then
    let ⟨first, afterFirst, _⟩ ← statement ending tokens
    let (others, rest) ← program ending afterFirst
    return (first :: others, rest)
  else return ([], tokens)
termination_by tokens.length

/-- Close a list of tokens with an end-of-input token, unless its last token is one. -/
def closed (tokens : List Token) : List Token :=
  match tokens.getLast? with
  | none => [Token.ending 0]
  | some last => if last.isEnding then tokens else tokens ++ [last.closing]

end Grammar

/-- Read a program from its tokens. Tokens that belong to no statement are reported
together with everything behind them. -/
def parse (tokens : List Token) : Except Diagnostic (List Term) :=
  let code := (Grammar.closed tokens).takeWhile (!·.isEnding)
  let beyond := (Grammar.closed tokens).dropWhile (!·.isEnding)
  match Grammar.program (beyond.headD (Token.ending 0)) code with
  | .error mismatch => .error mismatch.diagnostic
  | .ok (read, []) => .ok read
  | .ok (read, left) => .error (.leftover read (left ++ beyond))

end Stackwise
