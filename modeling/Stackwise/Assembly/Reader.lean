import Stackwise.Assembly.Instruction
import Stackwise.Text.Numeral
import Stackwise.Text.Pieces

/-! Reading one line of a listing as an instruction. The operands are read before the
mnemonic is looked at. The label of a jump or call is everything behind the
mnemonic. -/

namespace Stackwise.Assembly

/-- Why a line is no instruction. -/
inductive ReadFault where
  | offset (flaw : Text.Numeral.Flaw)
  | missingOperand (line : List Char)
  | unknown (line : List Char)
  | immediateTarget
  deriving DecidableEq

/-- Brackets enclose a base register and, after a minus sign, a distance. A text that
is neither bracketed nor a number names a register. -/
def Operand.read (text : List Char) : Except ReadFault Operand :=
  match Text.enclosed? '[' ']' text with
  | some inner =>
    let base : Register := ⟨String.ofList (Text.before '-' inner)⟩
    match Text.after? '-' inner with
    | none => .ok (.place (.memory base 0))
    | some distance =>
      match Text.Numeral.read distance with
      | .ok below => .ok (.place (.memory base below))
      | .error flaw => .error (.offset flaw)
  | none =>
    match Text.Numeral.read text with
    | .ok value => .ok (.immediate value)
    | .error _ => .ok (.place (.register ⟨String.ofList text⟩))

namespace Instruction

/-- The operand at a position. -/
def operandAt (line : List Char) (operands : List Operand) (position : Nat) :
    Except ReadFault Operand :=
  match operands[position]? with
  | some operand => .ok operand
  | none => .error (.missingOperand line)

/-- The first operand as a place to write to. -/
def target (line : List Char) (operands : List Operand) : Except ReadFault Place := do
  match ← operandAt line operands 0 with
  | .place place => return place
  | .immediate _ => throw .immediateTarget

/-- The place to write to and the value to write, which is asked for first. -/
def targetAndSource (line : List Char) (operands : List Operand) :
    Except ReadFault (Place × Operand) := do
  let source ← operandAt line operands 1
  let place ← target line operands
  return (place, source)

/-- Read a line that holds no label, comment or blanks at its ends. -/
def read (line : List Char) : Except ReadFault Instruction := do
  let rest := (Text.after? ' ' line).getD []
  let label := String.ofList rest
  let operands ← if rest.isEmpty then pure [] else (Text.commaSeparated rest).mapM Operand.read
  let arithmetic (operation : Arithmetic) : Except ReadFault Instruction := do
    let (place, source) ← targetAndSource line operands
    return .arithmetic operation place source
  let set (condition : Condition) : Except ReadFault Instruction := do
    return .set condition (← target line operands)
  match String.ofList (Text.before ' ' line) with
  | "push" => return .push (← operandAt line operands 0)
  | "pop" => return .pop (← target line operands)
  | "mov" => do
    let (place, source) ← targetAndSource line operands
    return .mov place source
  | "movzb" => do
    let (place, source) ← targetAndSource line operands
    return .movzb place source
  | "add" => arithmetic .add
  | "sub" => arithmetic .sub
  | "imul" => arithmetic .imul
  | "cqo" => return .cqo
  | "idiv" => return .idiv (← operandAt line operands 0)
  | "cmp" => return .cmp (← operandAt line operands 0) (← operandAt line operands 1)
  | "sete" => set .equal
  | "setne" => set .unequal
  | "setl" => set .less
  | "setle" => set .atMost
  | "je" => return .je label
  | "jmp" => return .jmp label
  | "call" => return .call label
  | "ret" => return .ret
  | _ => throw (.unknown line)

end Instruction

end Stackwise.Assembly
