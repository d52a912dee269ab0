import Stackwise.Assembly.Operand

/-! The instructions that listings are made of, and their text. -/

namespace Stackwise.Assembly

inductive Arithmetic where
  | add
  | sub
  | imul
  deriving DecidableEq

def Arithmetic.mnemonic : Arithmetic → String
  | .add => "add"
  | .sub => "sub"
  | .imul => "imul"

/-- A relation between the two values that were compared last. -/
inductive Condition where
  | equal
  | unequal
  | less
  | atMost
  deriving DecidableEq

def Condition.mnemonic : Condition → String
  | .equal => "sete"
  | .unequal => "setne"
  | .less => "setl"
  | .atMost => "setle"

inductive Instruction where
  | push (source : Operand)
  | pop (target : Place)
  | mov (target : Place) (source : Operand)
  | movzb (target : Place) (source : Operand)
  | arithmetic (operation : Arithmetic) (target : Place) (source : Operand)
  | cqo
  | idiv (divisor : Operand)
  | cmp (left right : Operand)
  | set (condition : Condition) (target : Place)
  | je (label : String)
  | jmp (label : String)
  | call (label : String)
  | ret
  deriving DecidableEq

def Instruction.text : Instruction → String
  | .push source => "push " ++ source.text
  | .pop target => "pop " ++ target.text
  | .mov target source => "mov " ++ target.text ++ ", " ++ source.text
  | .movzb target source => "movzb " ++ target.text ++ ", " ++ source.text
  | .arithmetic operation target source =>
    operation.mnemonic ++ " " ++ target.text ++ ", " ++ source.text
  | .cqo => "cqo"
  | .idiv divisor => "idiv " ++ divisor.text
  | .cmp left right => "cmp " ++ left.text ++ ", " ++ right.text
  | .set condition target => condition.mnemonic ++ " " ++ target.text
  | .je label => "je " ++ label
  | .jmp label => "jmp " ++ label
  | .call label => "call " ++ label
  | .ret => "ret"

end Stackwise.Assembly
