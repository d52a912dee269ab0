import Stackwise.Grammar.Program

/-! Reading with a cursor. The tokens stay where they are, and a position among them moves on as they are
used. Nothing keeps it from the tokens behind an end-of-input token but the productions themselves, and
nothing but their progress ends them. So the cursor is watched: to look where no token is, to pass the first
end-of-input token and to call productions inside one another too often are faults of their own, apart from
the refusal of a program. -/

namespace Stackwise.Proofs.TokenCursor
open Grammar

/-- What stops a reading. -/
inductive Halt where
  | refused (diagnostic : Diagnostic)
  | outOfBounds
  | overrun
  | exhausted

abbrev Reader := StateT Nat (Except Halt)

def firstEnding (tokens : List Token) : Nat := tokens.findIdx Token.isEnding

def report {α : Type} (mismatch : Mismatch) : Reader α := throw (.refused mismatch.diagnostic)

section Cursor

variable (tokens : List Token)

def peek : Reader Token := fun position =>
  match tokens[position]? with
  | some token => .ok (token, position)
  | none => .error .outOfBounds

/-- Move on by one token, but not from an end-of-input token. -/
def advance : Reader Unit := do
  if (← peek tokens).isEnding then return
  else if firstEnding tokens ≤ (← get) then throw .overrun
  else modify (· + 1)

def unexpected {α : Type} (expected : Expected) : Reader α := do
  report ⟨expected, ← peek tokens⟩

/-- Use the token at the cursor if it is the given symbol. -/
def accepts (symbol : String) : Reader Bool := do
  if (← peek tokens).is symbol then
    advance tokens
    return true
  else return false

def requires (symbol : String) : Reader Unit := do
  if ← accepts tokens symbol then return
  else unexpected tokens (.symbol symbol)

def readName : Reader (String × Token) := do
  let token ← peek tokens
  match token.kind with
  | .name text =>
    advance tokens
    return (text, token)
  | _ => unexpected tokens .identifier

end Cursor

section Productions

variable (tokens : List Token)

def readParameterList (earlier : List String) : Nat → Reader (List String)
  | 0 => throw .exhausted
  | fuel + 1 => do
    let (name, token) ← readName tokens
    if maxArguments ≤ earlier.length then report ⟨.fewerParameters, token⟩
    else if name ∈ earlier then report ⟨.freshParameter, token⟩
    else if ← accepts tokens "," then return name :: (← readParameterList (earlier ++ [name]) fuel)
    else
      requires tokens ")"
      return [name]

def readParameters (fuel : Nat) : Reader (List String) := do
  if ← accepts tokens ")" then return []
  else readParameterList tokens [] fuel

mutual

def readStatement : Nat → Reader Term
  | 0 => throw .exhausted
  | fuel + 1 => do
    if ← accepts tokens "if" then readConditional fuel
    else if ← accepts tokens "\x7b" then return .block (← readBody fuel)
    else if ← accepts tokens "def" then readDefinition fuel
    else
      let term ← readExpression fuel
      let _ ← accepts tokens ";"
      return term

def readConditional : Nat → Reader Term
  | 0 => throw .exhausted
  | fuel + 1 => do
    requires tokens "("
    let test ← readExpression fuel
    requires tokens ")"
    let accepted ← readStatement fuel
    if ← accepts tokens "else" then return .branch test accepted (some (← readStatement fuel))
    else return .branch test accepted none

def readBody : Nat → Reader (List Term)
  | 0 => throw .exhausted
  | fuel + 1 => do
    if ← accepts tokens "\x7d" then return []
    else if (← peek tokens).isEnding then unexpected tokens (.symbol "\x7d")
    else
      let first ← readStatement fuel
      return first :: (← readBody fuel)

def readDefinition : Nat → Reader Term
  | 0 => throw .exhausted
  | fuel + 1 => do
    let (name, token) ← readName tokens
    if Assembly.isReserved name then report ⟨.functionName, token⟩
    else
      requires tokens "("
      let names ← readParameters tokens fuel
      requires tokens "\x7b"
      return .function name names (← readBody fuel)

def readExpression : Nat → Reader Term
  | 0 => throw .exhausted
  | fuel + 1 => do
    if (← peek tokens).kind = .returnWord then
      advance tokens
      if (← peek tokens).opensExpression then return .leave (some (← readAssignment fuel))
      else return .leave none
    else readAssignment fuel

def readAssignment : Nat → Reader Term
  | 0 => throw .exhausted
  | fuel + 1 => do
    let start ← peek tokens
    let target ← readChain .equality fuel
    if ← accepts tokens "=" then
      match target with
      | .var name =>
        if ← accepts tokens "\x7b" then return .assign name (.block (← readBody fuel))
        else return .assign name (← readAssignment fuel)
      | _ => report ⟨.assignable, start⟩
    else return target

def readChain (tier : Tier) : Nat → Reader Term
  | 0 => throw .exhausted
  | fuel + 1 => do
    let first ← readOperand tier fuel
    readLinks tier first fuel

def readLinks (tier : Tier) (left : Term) : Nat → Reader Term
  | 0 => throw .exhausted
  | fuel + 1 => do
    match tier.link? (← peek tokens).kind with
    | none => return left
    | some link =>
      advance tokens
      let right ← readOperand tier fuel
      readLinks tier (link.join left right) fuel

def readOperand (tier : Tier) : Nat → Reader Term
  | 0 => throw .exhausted
  | fuel + 1 =>
    match tier with
    | .equality => readChain .comparison fuel
    | .comparison => readChain .sum fuel
    | .sum => readChain .product fuel
    | .product => readUnary fuel

def readUnary : Nat → Reader Term
  | 0 => throw .exhausted
  | fuel + 1 => do
    if ← accepts tokens "+" then readPrimary fuel
    else if ← accepts tokens "-" then return .apply .minus (.literal 0) (← readPrimary fuel)
    else readPrimary fuel

def readPrimary : Nat → Reader Term
  | 0 => throw .exhausted
  | fuel + 1 => do
    if ← accepts tokens "(" then
      let term ← readExpression fuel
      requires tokens ")"
      return term
    else
      let token ← peek tokens
      match token.kind with
      | .name name =>
        advance tokens
        if ← accepts tokens "(" then
          if Assembly.isReserved name then report ⟨.functionName, token⟩
          else return .invoke name (← readArguments fuel)
        else return .var name
      | .number value =>
        advance tokens
        return .literal value
      | _ => unexpected tokens .expression

def readArguments : Nat → Reader (List Term)
  | 0 => throw .exhausted
  | fuel + 1 => do
    if ← accepts tokens ")" then return []
    else readArgumentList 0 fuel

def readArgumentList (count : Nat) : Nat → Reader (List Term)
  | 0 => throw .exhausted
  | fuel + 1 => do
    if count = maxArguments then unexpected tokens .fewerArguments
    else
      let value ← readAssignment fuel
      if ← accepts tokens "," then return value :: (← readArgumentList (count + 1) fuel)
      else
        requires tokens ")"
        return [value]

end

def readProgram : Nat → Reader (List Term)
  | 0 => throw .exhausted
  | fuel + 1 => do
    if (← peek tokens).opensStatement then
      let first ← readStatement tokens fuel
      return first :: (← readProgram fuel)
    else return []

end Productions

/-- Read a program with a cursor, which starts at the first of the closed tokens. What it has not used when
the statements end is left over, unless it is at an end-of-input token. -/
def run (fuel : Nat) (tokens : List Token) : Except Halt (List Term) := do
  let (read, position) ← readProgram (closed tokens) fuel 0
  let (token, _) ← peek (closed tokens) position
  if token.isEnding then return read
  else throw (.refused (.leftover read ((closed tokens).drop position)))

end Stackwise.Proofs.TokenCursor
