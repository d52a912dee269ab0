import Stackwise.Term
import Stackwise.Token

/-! Mismatches between the tokens and the grammar: what was expected, and the token
that stands there instead. -/

namespace Stackwise

/-- What the grammar asks for at a token. -/
inductive Expected where
  | symbol (text : String)
  | identifier
  | expression
  | assignable
  | functionName
  | fewerParameters
  | freshParameter
  | fewerArguments
  deriving DecidableEq

def Expected.text : Expected → String
  | .symbol text => "\"" ++ text ++ "\""
  | .identifier => "an identifier"
  | .expression => "an expression"
  | .assignable => "a variable on the left of \"=\""
  | .functionName => "a function name that is not an assembler keyword"
  | .fewerParameters => "at most " ++ toString maxArguments ++ " parameters"
  | .freshParameter => "a distinct parameter name"
  | .fewerArguments => "at most " ++ toString maxArguments ++ " arguments"

/-- A token that the grammar cannot accept where it stands. -/
structure Mismatch where
  expected : Expected
  token : Token
  deriving DecidableEq

end Stackwise
