import Stackwise.Assembly.Listing
import Stackwise.Lowering.Defect

/-! Emissions: pieces of a listing that depend on what was allocated before them.
They are put together by appending, which hands the allocation on from left to
right. -/

namespace Stackwise.Lowering
open Assembly

/-- What has been allocated so far: the variables that own a slot of the frame, the
number of labels in use, and the number of values on the evaluation stack. -/
structure Allocation where
  slots : List String
  labels : Nat
  depth : Nat
  deriving DecidableEq

namespace Allocation

def empty : Allocation := ⟨[], 0, 0⟩

/-- Give a variable a slot, unless it owns one. -/
def claim (allocation : Allocation) (name : String) : Allocation :=
  if name ∈ allocation.slots then allocation
  else { allocation with slots := allocation.slots ++ [name] }

@[simp] theorem mem_slots_claim (allocation : Allocation) (name : String) :
    name ∈ (allocation.claim name).slots := by
  unfold claim
  split <;> simp_all

/-- How far below the base of the frame the slot of a variable lies. -/
def distance (allocation : Allocation) (name : String) : Nat :=
  8 * (allocation.slots.idxOf name + 1)

/-- The size of a frame that holds every slot, rounded up to keep calls aligned. -/
def frameSize (allocation : Allocation) : Nat := (8 * allocation.slots.length + 15) / 16 * 16

end Allocation

/-- The lines that are emitted from an allocation, and the allocation after them. -/
def Emission := Allocation → Except Defect (Listing × Allocation)

instance : Append Emission where
  append first second := fun allocation => do
    let (front, between) ← first allocation
    let (back, final) ← second between
    return (front ++ back, final)

namespace Emission

/-- Two emissions in a row succeed when each does, the second from where the first
one left off. -/
theorem append_eq_ok_iff {first second : Emission} {allocation final : Allocation}
    {lines : Listing} :
    (first ++ second) allocation = .ok (lines, final) ↔
      ∃ front between back, first allocation = .ok (front, between) ∧
        second between = .ok (back, final) ∧ lines = front ++ back := by
  show (first allocation >>= fun (front, between) =>
    second between >>= fun (back, final) => pure (front ++ back, final)) = _ ↔ _
  cases begun : first allocation with
  | error defect => simp [bind, Except.bind]
  | ok reached =>
    obtain ⟨front, between⟩ := reached
    cases ended : second between with
    | error defect => simp [bind, Except.bind, ended]
    | ok finished =>
      obtain ⟨back, last⟩ := finished
      simp only [bind, Except.bind, pure, Except.pure, ended, Except.ok.injEq, Prod.mk.injEq]
      constructor
      · rintro ⟨rfl, rfl⟩
        exact ⟨front, between, back, ⟨rfl, rfl⟩, ended, rfl⟩
      · rintro ⟨_, _, _, ⟨rfl, rfl⟩, same, rfl⟩
        rw [ended] at same
        cases same
        exact ⟨rfl, rfl⟩

def done : Emission := fun allocation => .ok ([], allocation)

def fail (defect : Defect) : Emission := fun _ => .error defect

def line (line : Line) : Emission := fun allocation => .ok ([line], allocation)

def code (instruction : Instruction) : Emission := line (.code instruction none)

/-- Push a value, which is then one more on the evaluation stack. -/
def push (source : Operand) : Emission := fun allocation =>
  .ok ([.code (.push source) none], { allocation with depth := allocation.depth + 1 })

/-- Pop the topmost value into a register. -/
def pop (target : Register) : Emission := fun allocation =>
  .ok ([.code (.pop target) none], { allocation with depth := allocation.depth - 1 })

/-- Emit with the distance of a variable's slot, which is claimed if need be. -/
def withSlot (name : String) (body : Nat → Emission) : Emission := fun allocation =>
  body ((allocation.claim name).distance name) (allocation.claim name)

/-- Emit with a number that no other label bears. -/
def withLabel (body : Nat → Emission) : Emission := fun allocation =>
  body allocation.labels { allocation with labels := allocation.labels + 1 }

/-- Push the address of a variable. -/
def address (name : String) : Emission :=
  withSlot name fun distance =>
    code (.mov Register.rax Register.rbp) ++
      line (.code (.arithmetic .sub Register.rax (.immediate distance)) (some name)) ++
      push Register.rax

/-- Call a function. The stack is padded while an odd number of values is on it, since
a call needs it aligned to two words. -/
def call (callee : String) : Emission := fun allocation =>
  if allocation.depth % 2 = 0 then code (.call callee) allocation
  else
    (code (.arithmetic .sub Register.rsp (.immediate 8)) ++ code (.call callee) ++
      code (.arithmetic .add Register.rsp (.immediate 8))) allocation

end Emission

end Stackwise.Lowering
