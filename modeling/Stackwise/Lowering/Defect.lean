/-! Defects: terms that cannot be lowered, though no source text denotes them. -/

namespace Stackwise.Lowering

inductive Defect where
  | reservedName (function : String)
  | noRegister (position : Nat) (callee : String)
  | parameterCount (function : String) (count : Nat)
  | unbalanced (function : String) (count : Nat)
  deriving DecidableEq

def Defect.description : Defect → String
  | .reservedName function => "function name '" ++ function ++ "' collides with an assembler keyword"
  | .noRegister position callee =>
    "argument index " ++ toString position ++ " of '" ++ callee ++ "' has no register"
  | .parameterCount function count => "'" ++ function ++ "' has " ++ toString count ++ " parameters"
  | .unbalanced function count =>
    toString count ++ " value(s) left on the stack in '" ++ function ++ "'"

end Stackwise.Lowering
