import Stackwise.Machine.Program
import Stackwise.Machine.State

/-! One step of the machine. -/

namespace Stackwise.Machine
open Assembly

/-- The result of a run: the value of `rax` and the number of calls made. -/
structure Outcome where
  value : Word
  calls : Nat
  deriving DecidableEq

/-- The return address of the entry function, at which the machine halts. -/
def haltAddress : Word := -1

/-- Where a step leads. -/
inductive Transition where
  | next (state : State)
  | halt (outcome : Outcome)

def arithmetic : Arithmetic → Word → Word → Word
  | .add, left, right => left + right
  | .sub, left, right => left - right
  | .imul, left, right => left * right

def holds (condition : Condition) (compared : Word × Word) : Bool :=
  match condition with
  | .equal => compared.1 = compared.2
  | .unequal => compared.1 ≠ compared.2
  | .less => compared.1 < compared.2
  | .atMost => compared.1 ≤ compared.2

/-- Go on at a label. -/
def jump (program : Program) (state : State) (label : String) : Except Fault Transition :=
  match program.target label with
  | .ok address => .ok (.next { state with address := address })
  | .error fault => .error fault

/-- Divide `rax`, rounding toward zero, with the remainder in `rdx`. -/
def divide (state : State) (divisor : Word) : Except Fault Transition :=
  if divisor = 0 then .error .divisionByZero
  else
    let dividend := state.registers.read Register.rax
    let registers := state.registers.write Register.rax (dividend / divisor)
    .ok (.next { state with registers := registers.write Register.rdx (dividend % divisor) })

/-- Call a function. The return address is that of the next instruction. -/
def enter (program : Program) (state : State) (label : String) : Except Fault Transition :=
  if state.registers.read Register.rsp % 16 = 0 then
    jump program ({ state with calls := state.calls + 1 }.push (Int64.ofNat state.address)) label
  else .error (.misalignedCall label)

/-- Return to the address on top of the stack. -/
def leave (state : State) : Except Fault Transition :=
  let destination := state.top
  if destination = haltAddress then
    .ok (.halt ⟨state.drop.registers.read Register.rax, state.calls⟩)
  else if destination < 0 then .error .negativeReturn
  else .ok (.next { state.drop with address := destination.toNatClampNeg })

/-- Execute an instruction in a state that already points at the one after it. -/
def execute (program : Program) (state : State) : Instruction → Except Fault Transition
  | .push source => .ok (.next (state.push (state.read source)))
  | .pop target => .ok (.next (state.drop.write target state.top))
  | .mov target source => .ok (.next (state.write target (state.read source)))
  | .movzb target source => .ok (.next (state.write target (lowByte (state.read source))))
  | .arithmetic operation target source =>
    .ok (.next (state.write target
      (arithmetic operation (state.read (.place target)) (state.read source))))
  | .cqo =>
    let sign : Word := if state.registers.read Register.rax < 0 then -1 else 0
    .ok (.next (state.write Register.rdx sign))
  | .idiv divisor => divide state (state.read divisor)
  | .cmp left right => .ok (.next { state with compared := (state.read left, state.read right) })
  | .set condition target =>
    .ok (.next (state.write target (if holds condition state.compared then 1 else 0)))
  | .je label =>
    if holds .equal state.compared then jump program state label else .ok (.next state)
  | .jmp label => jump program state label
  | .call label => enter program state label
  | .ret => leave state

/-- Fetch the next instruction and execute it. -/
def step (program : Program) (state : State) : Except Fault Transition :=
  match program.code[state.address]? with
  | none => .error (.noInstruction state.address)
  | some (.error fault) => .error (.unreadable fault)
  | some (.ok instruction) =>
    execute program { state with address := state.address + 1 } instruction

end Stackwise.Machine
