import Stackwise.Machine.Run
import Stackwise.Proofs.Loading

/-! Room for the stack. The machine's addresses are words, and words wrap. A run stays clear of
that while the stack pointer is never moved below the least word. -/

namespace Stackwise.Proofs.StackRoom
open Assembly Machine Loading

def descent : Instruction → Int
  | .push _ | .call _ => 8
  | .arithmetic .sub (.register moved) (.immediate size) => if moved = Register.rsp then size else 0
  | _ => 0

/-- No instruction of the lines moves the stack pointer further than a word can say. -/
def Worded (lines : Listing) : Prop :=
  ∀ instruction ∈ instructions lines, descent instruction < 0x8000000000000000

theorem worded_append {front back : Listing} : Worded (front ++ back) ↔ Worded front ∧ Worded back := by
  have split : instructions (front ++ back) = instructions front ++ instructions back := by
    simp [instructions]
  rw [Worded, split]
  exact List.forall_mem_append

def depthOf (state : State) : Int := (state.registers.read Register.rsp).toInt

/-- The next step does not move the stack pointer below the least word. -/
def Fits (program : Program) (state : State) : Prop :=
  ∀ instruction, program.code[state.address]? = some (.ok instruction) →
    -0x8000000000000000 ≤ depthOf state - descent instruction

/-- A number of steps fit, or as many of them as the run has. -/
def FitsFor (program : Program) : Nat → State → Prop
  | 0, _ => True
  | steps + 1, state =>
    Fits program state ∧ ∀ next, step program state = .ok (.next next) → FitsFor program steps next

/-- The address arithmetic of a run does not overflow: sizes of frames and addresses of
instructions are words, and the stack has room for as many steps as a run may take. -/
structure NoOverflow (listing : Listing) : Prop where
  sizes : Worded listing
  addresses : span listing < 0x8000000000000000
  stack : ∀ program address, Program.load (Listing.text listing) = .ok program →
    program.target "main" = .ok address →
    FitsFor program maxSteps (startState initialRegisters (0, 0) address)

end Stackwise.Proofs.StackRoom
