import Stackwise.Machine.Store

/-! States of the machine, and the reading and writing of operands. -/

namespace Stackwise.Machine
open Assembly

/-- A state in the middle of a run. `address` is that of the next instruction, and
`compared` holds the two values that were compared last. -/
structure State where
  registers : Registers
  memory : Memory
  compared : Word × Word
  calls : Nat
  address : Nat

namespace State

/-- The address of a word of memory. -/
def wordAddress (state : State) (base : Register) (below : Int) : Word :=
  state.registers.read base - Int64.ofInt below

def read (state : State) : Operand → Word
  | .place (.register register) => state.registers.read register
  | .place (.memory base below) => state.memory.read (state.wordAddress base below)
  | .immediate value => Int64.ofInt value

def write (state : State) (place : Place) (value : Word) : State :=
  match place with
  | .register register => { state with registers := state.registers.write register value }
  | .memory base below =>
    { state with memory := state.memory.write (state.wordAddress base below) value }

/-- Put a word on the stack, which grows downwards. -/
def push (state : State) (value : Word) : State :=
  let top := state.registers.read Register.rsp - 8
  { state with
    registers := state.registers.write Register.rsp top
    memory := state.memory.write top value }

/-- The word on top of the stack. -/
def top (state : State) : Word := state.memory.read (state.registers.read Register.rsp)

@[simp] theorem top_push (state : State) (value : Word) : (state.push value).top = value := by
  simp [top, push, Registers.read_write_same _ _ (show Register.rsp ≠ Register.al by decide)]

/-- Take the topmost word off the stack. -/
def drop (state : State) : State :=
  { state with
    registers := state.registers.write Register.rsp (state.registers.read Register.rsp + 8) }

end State

end Stackwise.Machine
