import Stackwise.Machine.Step

/-! Running a listing from its entry until it halts, fails or uses up its steps. -/

namespace Stackwise.Machine
open Assembly

/-- The stack pointer before the first word is pushed. -/
def initialStackPointer : Word := 0x7fff0000

/-- The number of steps after which a run is given up. -/
def maxSteps : Nat := 1000000

/-- The registers that a run starts with. What `rax` holds is left over from before. -/
def initialRegisters : Registers :=
  (Registers.empty.write Register.rsp initialStackPointer).write Register.rax 0x5eed

/-- The state at an address with the halt address as the only word on the stack. -/
def startState (registers : Registers) (compared : Word × Word) (address : Nat) : State :=
  State.push ⟨registers, Memory.empty, compared, 0, address⟩ haltAddress

/-- Run for at most a number of steps. -/
def runFor (program : Program) : Nat → State → Except Fault Outcome
  | 0, _ => .error .stepLimit
  | steps + 1, state =>
    match step program state with
    | .ok (.next state) => runFor program steps state
    | .ok (.halt outcome) => .ok outcome
    | .error fault => .error fault

/-- Run a loaded program from its entry with the given registers and compared values. -/
def runFrom (program : Program) (registers : Registers) (compared : Word × Word) :
    Except Fault Outcome :=
  match program.target "main" with
  | .ok address => runFor program maxSteps (startState registers compared address)
  | .error fault => .error fault

/-- Load and run the text of a listing. -/
def run (listing : String) : Except Fault Outcome :=
  match Program.load listing with
  | .ok program => runFrom program initialRegisters (0, 0)
  | .error fault => .error fault

end Stackwise.Machine
