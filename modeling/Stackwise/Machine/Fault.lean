import Stackwise.Assembly.Reader
import Stackwise.Text.Quoted

/-! Faults: the ways in which the run of a listing can end without a result. -/

namespace Stackwise.Machine
open Assembly

inductive Fault where
  | duplicateLabel (name : String)
  | undefinedLabel (name : String)
  | noInstruction (address : Nat)
  | unreadable (fault : ReadFault)
  | divisionByZero
  | misalignedCall (label : String)
  | negativeReturn
  | stepLimit
  deriving DecidableEq

def Fault.message : Fault → String
  | .duplicateLabel name => "duplicate label " ++ name
  | .undefinedLabel name => "undefined label " ++ name
  | .noInstruction address => "fell off the end at " ++ toString address
  | .unreadable (.offset flaw) => flaw.message
  | .unreadable (.missingOperand line) => "missing operand in " ++ Text.quoted line
  | .unreadable (.unknown line) => "unknown instruction " ++ Text.quoted line
  | .unreadable .immediateTarget => "cannot write to an immediate"
  | .divisionByZero => "division by zero"
  | .misalignedCall label => "misaligned stack at call " ++ label
  | .negativeReturn => Text.Numeral.Flaw.tooSmall.message
  | .stepLimit => "step limit exceeded"

end Stackwise.Machine
