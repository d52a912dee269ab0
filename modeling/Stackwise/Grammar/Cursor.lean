import Stackwise.Grammar.Mismatch

/-! Reading from a list of tokens. What is read comes with the tokens that are left
and the fact that they are fewer, which is why the productions terminate. The end
of the input is no member of the list: it is the token shown where the list is
used up. -/

namespace Stackwise.Grammar

/-- The tokens left after at least one of `tokens` was used. -/
abbrev Shorter (tokens : List Token) := { rest : List Token // rest.length < tokens.length }

/-- A value that was read, and the tokens left, fewer than `bound`. -/
structure Parsed (α : Type) (bound : Nat) where
  value : α
  rest : List Token
  shorter : rest.length < bound

/-- Give up at the next token. -/
def refuse (ending : Token) (expected : Expected) (tokens : List Token) : Except Mismatch α :=
  .error ⟨expected, tokens.headD ending⟩

/-- Use the next token, whatever it is. -/
def next? : (tokens : List Token) → Option (Token × Shorter tokens)
  | [] => none
  | token :: rest => some (token, ⟨rest, Nat.lt_succ_self _⟩)

/-- Use the next token if it is of the given kind. -/
def acceptKind? (kind : TokenKind) : (tokens : List Token) → Option (Shorter tokens)
  | [] => none
  | token :: rest => if token.kind = kind then some ⟨rest, Nat.lt_succ_self _⟩ else none

theorem acceptKind?_eq_some_iff {kind : TokenKind} {tokens : List Token} {rest : Shorter tokens} :
    acceptKind? kind tokens = some rest ↔ ∃ token, token.kind = kind ∧ tokens = token :: rest.1 := by
  cases tokens with
  | nil => simp [acceptKind?]
  | cons token others =>
    by_cases same : token.kind = kind
    · simp only [acceptKind?, same, if_true, Option.some.injEq, List.cons.injEq]
      constructor
      · intro equal
        exact ⟨token, same, rfl, congrArg Subtype.val equal⟩
      · rintro ⟨_, _, _, equal⟩
        exact Subtype.ext equal
    · simp only [acceptKind?, same, if_false, List.cons.injEq, reduceCtorEq, false_iff]
      rintro ⟨_, kindEqual, rfl, _⟩
      exact same kindEqual

/-- Use the next token if it is the given symbol. -/
def accept? (symbol : String) (tokens : List Token) : Option (Shorter tokens) :=
  acceptKind? (.symbol symbol) tokens

/-- Use the next token, which has to be the given symbol. -/
def expect (ending : Token) (symbol : String) (tokens : List Token) :
    Except Mismatch (Shorter tokens) :=
  match accept? symbol tokens with
  | some rest => .ok rest
  | none => refuse ending (.symbol symbol) tokens

/-- Use the next token, which has to be a name. The token is kept for diagnostics. -/
def identifier (ending : Token) (tokens : List Token) :
    Except Mismatch (Parsed (String × Token) tokens.length) :=
  match next? tokens with
  | some (⟨.name text, offset, size⟩, ⟨rest, shorter⟩) =>
    .ok ⟨(text, ⟨.name text, offset, size⟩), rest, shorter⟩
  | _ => refuse ending .identifier tokens

/-- Drop the next token if it is the given symbol. -/
def skip (symbol : String) (tokens : List Token) : List Token :=
  match accept? symbol tokens with
  | some rest => rest
  | none => tokens

theorem length_skip_le (symbol : String) (tokens : List Token) :
    (skip symbol tokens).length ≤ tokens.length := by
  unfold skip
  split
  · next rest _ => exact Nat.le_of_lt rest.2
  · exact Nat.le_refl _

/-- Whether an expression begins at the next token. -/
def atExpression (tokens : List Token) : Bool := tokens.head?.any Token.opensExpression

/-- Whether a statement begins at the next token. -/
def atStatement (tokens : List Token) : Bool := tokens.head?.any Token.opensStatement

end Stackwise.Grammar
