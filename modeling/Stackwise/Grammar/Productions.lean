import Stackwise.Assembly.Reserved
import Stackwise.Grammar.Tier

/-! The productions of the grammar, one function each, decided by the next token and
never undone.

    statement  = "if" "(" expression ")" statement ("else" statement)?
               | block | definition | expression ";"?
    block      = "{" statement* "}"
    definition = "def" name "(" (name ("," name)*)? ")" block
    expression = "return" assignment? | assignment
    assignment = chain ("=" (assignment | block))?
    chain      = four tiers of binary operators over unary
    unary      = ("+" | "-")? primary
    primary    = number | name ("(" (assignment ("," assignment)*)? ")")? | "(" expression ")"

Each call is on fewer tokens, or on the same tokens one production further in, so a
single number decreases. -/

namespace Stackwise.Grammar

/-- A function name has to be callable by its bare name. -/
def checkCallable (name : String) (token : Token) : Except Mismatch Unit :=
  if Assembly.isReserved name then .error ⟨.functionName, token⟩ else .ok ()

/-- One or more parameters up to the closing parenthesis, after the `earlier` ones. -/
def parameterList (ending : Token) (earlier : List String) (tokens : List Token) :
    Except Mismatch (Parsed (List String) tokens.length) := do
  let ⟨(name, token), afterName, _⟩ ← identifier ending tokens
  if maxArguments ≤ earlier.length then throw ⟨.fewerParameters, token⟩
  else if name ∈ earlier then throw ⟨.freshParameter, token⟩
  else
    match accept? "," afterName with
    | some ⟨afterComma, _⟩ =>
      let ⟨others, rest, _⟩ ← parameterList ending (earlier ++ [name]) afterComma
      return ⟨name :: others, rest, by omega⟩
    | none =>
      let ⟨rest, _⟩ ← expect ending ")" afterName
      return ⟨[name], rest, by omega⟩
termination_by tokens.length

/-- The parameters of a definition, from behind its opening parenthesis. -/
def parameters (ending : Token) (tokens : List Token) :
    Except Mismatch (Parsed (List String) tokens.length) :=
  match accept? ")" tokens with
  | some ⟨rest, _⟩ => return ⟨[], rest, by omega⟩
  | none => parameterList ending [] tokens

mutual

def statement (ending : Token) (tokens : List Token) :
    Except Mismatch (Parsed Term tokens.length) := do
  match accept? "if" tokens with
  | some ⟨afterIf, _⟩ =>
    let ⟨term, rest, _⟩ ← conditional ending afterIf
    return ⟨term, rest, by omega⟩
  | none =>
  match accept? "\x7b" tokens with
  | some ⟨afterBrace, _⟩ =>
    let ⟨body, rest, _⟩ ← blockBody ending afterBrace
    return ⟨.block body, rest, by omega⟩
  | none =>
  match accept? "def" tokens with
  | some ⟨afterDef, _⟩ =>
    let ⟨term, rest, _⟩ ← definition ending afterDef
    return ⟨term, rest, by omega⟩
  | none =>
    let ⟨term, rest, _⟩ ← expression ending tokens
    have := length_skip_le ";" rest
    return ⟨term, skip ";" rest, by omega⟩
termination_by 16 * tokens.length + 12

/-- A conditional, from behind its first word. -/
def conditional (ending : Token) (tokens : List Token) :
    Except Mismatch (Parsed Term tokens.length) := do
  let ⟨afterOpen, _⟩ ← expect ending "(" tokens
  let ⟨test, afterTest, _⟩ ← expression ending afterOpen
  let ⟨afterClose, _⟩ ← expect ending ")" afterTest
  let ⟨accepted, afterAccepted, _⟩ ← statement ending afterClose
  match accept? "else" afterAccepted with
  | some ⟨afterElse, _⟩ =>
    let ⟨otherwise, rest, _⟩ ← statement ending afterElse
    return ⟨.branch test accepted (some otherwise), rest, by omega⟩
  | none => return ⟨.branch test accepted none, afterAccepted, by omega⟩
termination_by 16 * tokens.length

/-- The statements of a block and its closing brace, from behind its opening brace. -/
def blockBody (ending : Token) (tokens : List Token) :
    Except Mismatch (Parsed (List Term) tokens.length) := do
  match accept? "\x7d" tokens with
  | some ⟨rest, _⟩ => return ⟨[], rest, by omega⟩
  | none =>
    if tokens.isEmpty then refuse ending (.symbol "\x7d") tokens
    else
      let ⟨first, afterFirst, _⟩ ← statement ending tokens
      let ⟨others, rest, _⟩ ← blockBody ending afterFirst
      return ⟨first :: others, rest, by omega⟩
termination_by 16 * tokens.length + 13

/-- A function definition, from behind its first word. -/
def definition (ending : Token) (tokens : List Token) :
    Except Mismatch (Parsed Term tokens.length) := do
  let ⟨(name, token), afterName, _⟩ ← identifier ending tokens
  checkCallable name token
  let ⟨afterOpen, _⟩ ← expect ending "(" afterName
  let ⟨names, afterNames, _⟩ ← parameters ending afterOpen
  let ⟨afterBrace, _⟩ ← expect ending "\x7b" afterNames
  let ⟨body, rest, _⟩ ← blockBody ending afterBrace
  return ⟨.function name names body, rest, by omega⟩
termination_by 16 * tokens.length

def expression (ending : Token) (tokens : List Token) :
    Except Mismatch (Parsed Term tokens.length) := do
  match acceptKind? .returnWord tokens with
  | some ⟨afterReturn, _⟩ =>
    if atExpression afterReturn then
      let ⟨value, rest, _⟩ ← assignment ending afterReturn
      return ⟨.leave (some value), rest, by omega⟩
    else return ⟨.leave none, afterReturn, by omega⟩
  | none => assignment ending tokens
termination_by 16 * tokens.length + 11

def assignment (ending : Token) (tokens : List Token) :
    Except Mismatch (Parsed Term tokens.length) := do
  let ⟨target, afterTarget, _⟩ ← chain ending .equality tokens
  match accept? "=" afterTarget with
  | none => return ⟨target, afterTarget, by omega⟩
  | some ⟨afterEquals, _⟩ =>
    let .var name := target | refuse ending .assignable tokens
    match accept? "\x7b" afterEquals with
    | some ⟨afterBrace, _⟩ =>
      let ⟨body, rest, _⟩ ← blockBody ending afterBrace
      return ⟨.assign name (.block body), rest, by omega⟩
    | none =>
      let ⟨value, rest, _⟩ ← assignment ending afterEquals
      return ⟨.assign name value, rest, by omega⟩
termination_by 16 * tokens.length + 10
decreasing_by all_goals have := Tier.height_le .equality; omega

/-- A chain of the operators of a tier. -/
def chain (ending : Token) (tier : Tier) (tokens : List Token) :
    Except Mismatch (Parsed Term tokens.length) := do
  let ⟨first, afterFirst, _⟩ ← operand ending tier tokens
  let ⟨term, rest, _⟩ ← chainFrom ending tier first afterFirst
  return ⟨term, rest, by omega⟩
termination_by 16 * tokens.length + 2 * tier.height + 1

/-- The links that follow the operand `left`. -/
def chainFrom (ending : Token) (tier : Tier) (left : Term) (tokens : List Token) :
    Except Mismatch (Parsed Term (tokens.length + 1)) := do
  match tier.acceptLink? tokens with
  | none => return ⟨left, tokens, by omega⟩
  | some (link, ⟨afterLink, _⟩) =>
    let ⟨right, afterRight, _⟩ ← operand ending tier afterLink
    let ⟨term, rest, _⟩ ← chainFrom ending tier (link.join left right) afterRight
    return ⟨term, rest, by omega⟩
termination_by 16 * tokens.length
decreasing_by all_goals have := tier.height_le; omega

/-- An operand of a tier: a chain of the next tighter one, or a unary expression. -/
def operand (ending : Token) (tier : Tier) (tokens : List Token) :
    Except Mismatch (Parsed Term tokens.length) :=
  match tier with
  | .equality => chain ending .comparison tokens
  | .comparison => chain ending .sum tokens
  | .sum => chain ending .product tokens
  | .product => unary ending tokens
termination_by 16 * tokens.length + 2 * tier.height
decreasing_by all_goals simp [Tier.height]

def unary (ending : Token) (tokens : List Token) :
    Except Mismatch (Parsed Term tokens.length) := do
  match accept? "+" tokens with
  | some ⟨afterSign, _⟩ =>
    let ⟨term, rest, _⟩ ← primary ending afterSign
    return ⟨term, rest, by omega⟩
  | none =>
  match accept? "-" tokens with
  | some ⟨afterSign, _⟩ =>
    let ⟨term, rest, _⟩ ← primary ending afterSign
    return ⟨.apply .minus (.literal 0) term, rest, by omega⟩
  | none => primary ending tokens
termination_by 16 * tokens.length + 1

def primary (ending : Token) (tokens : List Token) :
    Except Mismatch (Parsed Term tokens.length) := do
  match accept? "(" tokens with
  | some ⟨afterOpen, _⟩ =>
    let ⟨term, afterTerm, _⟩ ← expression ending afterOpen
    let ⟨rest, _⟩ ← expect ending ")" afterTerm
    return ⟨term, rest, by omega⟩
  | none =>
  match next? tokens with
  | none => refuse ending .expression tokens
  | some (token, ⟨rest, _⟩) =>
    match token.kind with
    | .name name =>
      match accept? "(" rest with
      | some ⟨afterOpen, _⟩ =>
        checkCallable name token
        let ⟨values, rest, _⟩ ← arguments ending afterOpen
        return ⟨.invoke name values, rest, by omega⟩
      | none => return ⟨.var name, rest, by omega⟩
    | .number value => return ⟨.literal value, rest, by omega⟩
    | _ => refuse ending .expression tokens
termination_by 16 * tokens.length

/-- The arguments of a call, from behind its opening parenthesis. -/
def arguments (ending : Token) (tokens : List Token) :
    Except Mismatch (Parsed (List Term) tokens.length) :=
  match accept? ")" tokens with
  | some ⟨rest, _⟩ => return ⟨[], rest, by omega⟩
  | none => argumentList ending 0 tokens
termination_by 16 * tokens.length + 15

/-- One or more arguments up to the closing parenthesis, after `count` earlier ones. -/
def argumentList (ending : Token) (count : Nat) (tokens : List Token) :
    Except Mismatch (Parsed (List Term) tokens.length) := do
  if count = maxArguments then refuse ending .fewerArguments tokens
  else
    let ⟨value, afterValue, _⟩ ← assignment ending tokens
    match accept? "," afterValue with
    | some ⟨afterComma, _⟩ =>
      let ⟨others, rest, _⟩ ← argumentList ending (count + 1) afterComma
      return ⟨value :: others, rest, by omega⟩
    | none =>
      let ⟨rest, _⟩ ← expect ending ")" afterValue
      return ⟨[value], rest, by omega⟩
termination_by 16 * tokens.length + 14

end

end Stackwise.Grammar
