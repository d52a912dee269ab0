import Mathlib.Data.List.Nodup
import Stackwise.Proofs.CodeLogic
import Stackwise.Proofs.Reference

/-! The fixed pieces of emitted code and what they do to a frame: they push a number, the address or
the value of a variable, store a value, combine two values, take arguments into their registers, or
test a value. -/

namespace Stackwise.Proofs.CodeFragments
open Assembly Machine Lowering EmittedCode Loading StackRoom Frames CodeLogic Reference

/-- Writing the low byte and reading it back. -/
theorem lowByte_withLowByte (word byte : Word) : lowByte (withLowByte word byte) = lowByte byte := by
  apply Int64.toBitVec_inj.mp
  simp only [lowByte, withLowByte, Int64.toBitVec_and, Int64.toBitVec_or, Int64.toBitVec_not]
  ext index inside
  simp only [BitVec.getElem_and, BitVec.getElem_or, BitVec.getElem_not]
  cases (Int64.toBitVec 0xff)[index] <;> simp

/-- Slots are only ever added behind those that exist, so a variable keeps its distance. -/
theorem distance_claim {frame : Frame} {start : Allocation} {name : String}
    (within : (start.claim name).slots <+: frame.slots) :
    name ∈ frame.slots ∧ ((start.claim name).distance name : Int) = 8 * (frame.slots.idxOf name + 1) := by
  obtain ⟨rest, same⟩ := within
  have known := start.mem_slots_claim name
  rw [← same, List.idxOf_append_of_mem known, Allocation.distance]
  refine ⟨List.mem_append_left _ known, ?_⟩
  push_cast
  rfl

section
variable {program : Program} {Holds : State → Prop} {frame : Frame} {contents : String → Word}
  {words : List Word} {address calls : Nat} {state : State}

theorem literal_runs (closed : Backward program Holds) {value : Int64}
    (placed : Placed program address (literalLines value))
    (stands : Stands frame contents words address calls state)
    (onward : ∀ next, Stands frame contents (value :: words) (address + span (literalLines value)) calls next →
      Holds next) : Holds state := by
  have same : Int64.ofInt value.toInt = value := Int64.ofInt_toInt value
  unfold literalLines at placed onward
  split at placed
  · next small =>
    rw [if_pos small] at onward
    refine push_runs closed placed.1 stands fun next _ after => onward next ?_
    rwa [State.read, same] at after
  · next large =>
    rw [if_neg large] at onward
    obtain ⟨first, second, -⟩ := placed
    refine write_runs closed first trivial rfl scratch_rax stands rfl fun middle _ held after => ?_
    refine push_runs closed second after fun next _ last => onward next ?_
    have pushed : middle.read Register.rax = value := held.trans same
    rwa [pushed] at last

theorem address_runs (closed : Backward program Holds) {name : String} {distance : Nat}
    (placed : Placed program address (addressLines name distance))
    (near : (distance : Int) = 8 * (frame.slots.idxOf name + 1))
    (stands : Stands frame contents words address calls state)
    (onward : ∀ next, Stands frame contents (Int64.ofInt (frame.slot name) :: words) (address + 3) calls next →
      Holds next) : Holds state := by
  obtain ⟨first, second, third, -⟩ := placed
  refine write_runs closed first trivial rfl scratch_rax stands rfl fun based _ held after => ?_
  have base : based.registers.read Register.rax = Int64.ofInt frame.base := held.trans stands.framed.base
  refine write_runs closed second trivial rfl scratch_rax after rfl fun aimed _ held later => ?_
  have slot : aimed.read Register.rax = Int64.ofInt (frame.slot name) := by
    refine held.trans ?_
    show based.registers.read Register.rax - Int64.ofInt distance = _
    rw [base, ← Int64.ofInt_sub, near]
    rfl
  refine push_runs closed third later fun next _ last => onward next ?_
  rwa [slot] at last

theorem fetch_runs (closed : Backward program Holds) {name : String}
    (placed : Placed program address fetchLines) (known : name ∈ frame.slots)
    (stands : Stands frame contents (Int64.ofInt (frame.slot name) :: words) address calls state)
    (onward : ∀ next, Stands frame contents (contents name :: words) (address + 3) calls next → Holds next) :
    Holds state := by
  obtain ⟨first, second, third, -⟩ := placed
  refine pop_runs closed first scratch_rax stands fun aimed _ held after => ?_
  refine write_runs closed second trivial rfl scratch_rax after rfl fun read _ loaded later => ?_
  have value : read.read Register.rax = contents name := by
    refine loaded.trans ?_
    show aimed.memory.read (aimed.registers.read Register.rax - Int64.ofInt 0) = _
    rw [held, ← Int64.ofInt_sub, Int.sub_zero]
    exact after.framed.slots name known
  refine push_runs closed third later fun next _ last => onward next ?_
  rwa [value] at last

theorem assign_runs (closed : Backward program Holds) {name : String} {value : Word}
    (placed : Placed program address storeLines) (known : name ∈ frame.slots)
    (stands : Stands frame contents (value :: Int64.ofInt (frame.slot name) :: words) address calls state)
    (onward : ∀ next, Stands frame (Function.update contents name value) (value :: words) (address + 4) calls
      next → Holds next) : Holds state := by
  obtain ⟨first, second, third, fourth, -⟩ := placed
  refine pop_runs closed first scratch_rdi stands fun valued _ held after => ?_
  refine pop_runs closed second scratch_rax after fun aimed kept target later => ?_
  have source : aimed.read Register.rdi = value :=
    (kept.read scratch_rdi (by decide)).trans held
  have slot : aimed.wordAddress Register.rax 0 = Int64.ofInt (frame.slot name) := by
    show aimed.registers.read Register.rax - Int64.ofInt 0 = _
    rw [target, ← Int64.ofInt_sub, Int.sub_zero]
  refine store_runs closed third later known slot fun stored same last => ?_
  rw [source] at last
  refine push_runs closed fourth last fun next _ final => onward next ?_
  have pushed : stored.read Register.rdi = value := by
    show stored.registers.read Register.rdi = value
    rw [same]
    exact source
  rwa [pushed] at final

private theorem compared_runs (closed : Backward program Holds) {condition : Condition} {left right : Word}
    (placed : Placed program address (comparisonLines condition))
    (stands : Stands frame contents words address calls state)
    (first : state.registers.read Register.rax = left) (second : state.registers.read Register.rdi = right)
    (onward : ∀ next, next.registers.read Register.rax = (if holds condition (left, right) then 1 else 0) →
      Stands frame contents words (address + 3) calls next → Holds next) : Holds state := by
  obtain ⟨comparing, setting, widening, -⟩ := placed
  refine compare_runs closed comparing stands fun compared same held after => ?_
  refine set_runs closed setting after fun byte written later => ?_
  refine write_runs closed widening trivial rfl scratch_rax later rfl fun next _ result last => ?_
  refine onward next (result.trans ?_) last
  have pair : compared.compared = (left, right) := held.trans (Prod.ext first second)
  have read : byte.registers.read Register.al =
      lowByte (withLowByte (compared.registers.full Register.rax)
        (if holds condition (left, right) then 1 else 0)) := by
    rw [written, pair]
    simp [Registers.read, Registers.write, Registers.full_setFull]
  show lowByte (byte.registers.read Register.al) = _
  rw [read, lowByte_withLowByte]
  split
  · decide
  · decide

/-- Combining two values pushes the result of the operator, except that division by zero fails. -/
theorem combine_runs (closed : Backward program Holds) {operator : Operator} {left right : Word}
    (placed : Placed program address (combineLines operator))
    (stands : Stands frame contents (right :: left :: words) address calls state)
    (onward : ∀ value next, operate operator left right = some value →
      Stands frame contents (value :: words) (address + span (combineLines operator)) calls next → Holds next)
    (failing : ∀ next, operate operator left right = none → step program next = .error .divisionByZero →
      Holds next) : Holds state := by
  obtain ⟨popping, rest⟩ := placed_append.mp placed
  obtain ⟨operating, pushing⟩ := placed_append.mp rest
  obtain ⟨first, second, -⟩ := popping
  have closing : program.code[address + 1 + 1 + span (operationLines operator)]? =
      some (.ok (.push Register.rax)) := pushing.1
  refine pop_runs closed first scratch_rdi stands fun one _ held after => ?_
  refine pop_runs closed second scratch_rax after fun two kept dividend later => ?_
  have divisor : two.registers.read Register.rdi = right :=
    (kept.read scratch_rdi (by decide)).trans held
  have finish (value : Word) (known : operate operator left right = some value) (last : State)
      (result : last.registers.read Register.rax = value)
      (there : Stands frame contents words (address + 1 + 1 + span (operationLines operator)) calls last) :
      Holds last := by
    refine push_runs closed closing there fun next _ final => onward value next known ?_
    have pushed : last.read Register.rax = value := result
    rw [pushed] at final
    have length : address + 1 + 1 + span (operationLines operator) + 1 =
        address + span (combineLines operator) := by
      simp only [combineLines, span_append, span_code, span_nil]
      omega
    rwa [length] at final
  cases operator with
  | plus | minus | times =>
    refine write_runs closed operating.1 trivial rfl scratch_rax later rfl fun last _ result there => ?_
    refine finish _ rfl last (result.trans ?_) there
    show arithmetic _ (two.registers.read Register.rax) (two.registers.read Register.rdi) = _
    rw [dividend, divisor]
    rfl
  | «over» =>
    obtain ⟨extending, dividing, -⟩ := operating
    have scratch_rdx : Scratch Register.rdx := by decide
    refine write_runs closed extending trivial rfl scratch_rdx later rfl fun three kept _ there => ?_
    have top : three.registers.read Register.rax = left :=
      (kept.read scratch_rax (by decide)).trans dividend
    have bottom : three.read Register.rdi = right :=
      (kept.read scratch_rdi (by decide)).trans divisor
    refine divide_runs closed dividing there (fun zero failed => ?_) (fun last possible result final => ?_)
    · rw [bottom] at zero
      exact failing three (by simp [operate, zero]) failed
    · rw [bottom] at possible
      rw [top, bottom] at result
      exact finish _ (if_neg possible) last result final
  | equal | unequal | less | atMost =>
    refine compared_runs closed operating later dividend divisor fun last result there => ?_
    refine finish _ rfl last (result.trans ?_) there
    simp [holds]

/-- Popping into registers that differ puts one word into each, the topmost one first. -/
theorem pops_runs (closed : Backward program Holds) {registers : List Register} (values : List Word)
    (same : values.length = registers.length) (scratch : ∀ register ∈ registers, Scratch register)
    (distinct : registers.Nodup)
    (placed : Placed program address
      (registers.map fun (register : Register) => .code (.pop register) none))
    (stands : Stands frame contents (values ++ words) address calls state)
    (onward : ∀ next, registers.map next.registers.read = values →
      (∀ asked, asked ∉ registers → asked ≠ Register.rsp → asked ≠ Register.al →
        next.registers.read asked = state.registers.read asked) →
      Stands frame contents words (address + registers.length) calls next → Holds next) : Holds state := by
  induction registers generalizing values address state with
  | nil =>
    cases values with
    | nil => exact onward state rfl (fun _ _ _ _ => rfl) stands
    | cons value rest => cases same
  | cons register others ih =>
    cases values with
    | nil => cases same
    | cons value rest =>
      obtain ⟨absent, apart⟩ := List.nodup_cons.mp distinct
      obtain ⟨popping, behind⟩ := placed
      have whole := scratch register (List.mem_cons_self ..)
      refine pop_runs closed popping whole stands fun popped kept held after => ?_
      refine ih rest (Nat.succ.inj same) (fun other member => scratch other (List.mem_cons_of_mem _ member))
        apart behind after fun next taken untouched last => onward next ?_ ?_ ?_
      · rw [List.map_cons, taken, untouched register absent whole.1 whole.2.2, held]
      · intro asked outside notStack notByte
        obtain ⟨different, beyond⟩ := not_or.mp (List.mem_cons.not.mp outside)
        rw [untouched asked beyond notStack notByte]
        exact kept.others asked different notStack notByte
      · have length : address + (register :: others).length = address + 1 + others.length := by
          rw [List.length_cons]
          omega
        rwa [length]

theorem scratch_argument {register : Register} (argument : register ∈ argumentRegisters) : Scratch register := by
  simp only [argumentRegisters, List.mem_cons, List.not_mem_nil, or_false] at argument
  rcases argument with rfl | rfl | rfl | rfl | rfl | rfl <;> decide

private theorem span_pops (registers : List Register) :
    span (registers.map fun (register : Register) => .code (.pop register) none) = registers.length := by
  induction registers with
  | nil => rfl
  | cons register rest ih => rw [List.map_cons, span_code, ih, List.length_cons]

/-- The arguments of a call lie on the stack in the order in which they are written, and go into
the registers of their positions. -/
theorem arguments_run (closed : Backward program Holds) {values : List Word} (few : values.length ≤ 6)
    (placed : Placed program address (popLines values.length))
    (stands : Stands frame contents (values.reverse ++ words) address calls state)
    (onward : ∀ next, (argumentRegisters.take values.length).map next.registers.read = values →
      Stands frame contents words (address + span (popLines values.length)) calls next → Holds next) :
    Holds state := by
  have length : (argumentRegisters.take values.length).reverse.length = values.length := by
    have six : argumentRegisters.length = 6 := rfl
    rw [List.length_reverse, List.length_take, six]
    omega
  have distinct : (argumentRegisters.take values.length).reverse.Nodup := by
    have whole : argumentRegisters.Nodup := by decide
    exact List.nodup_reverse.mpr (whole.sublist (List.take_sublist _ _))
  refine pops_runs closed values.reverse (by rw [List.length_reverse, length]) ?_ distinct placed stands
    fun next taken _ last => onward next ?_ ?_
  · intro register member
    exact scratch_argument (List.mem_of_mem_take (List.mem_reverse.mp member))
  · rw [List.map_reverse] at taken
    exact List.reverse_injective taken
  · rw [popLines, span_pops]
    exact last

/-- A test jumps to the alternative when the value is zero, and keeps the value in `rax`. -/
theorem test_runs (closed : Backward program Holds) {number target : Nat} {value : Word}
    (placed : Placed program address (testLines number))
    (labelled : program.labels.get? (elseLabel number) = some target)
    (stands : Stands frame contents (value :: words) address calls state)
    (refused : ∀ next, value = 0 → next.registers.read Register.rax = value →
      Stands frame contents words target calls next → Holds next)
    (accepted : ∀ next, value ≠ 0 → next.registers.read Register.rax = value →
      Stands frame contents words (address + 3) calls next → Holds next) : Holds state := by
  obtain ⟨popping, comparing, branching, -⟩ := placed
  refine pop_runs closed popping scratch_rax stands fun popped _ held after => ?_
  refine compare_runs closed comparing after fun compared same pair later => ?_
  have kept (next : State) (equal : next.registers = compared.registers) :
      next.registers.read Register.rax = value := by
    rw [equal, same]
    exact held
  have first : compared.compared = (value, 0) := by
    rw [pair]
    exact Prod.ext held rfl
  refine branch_runs closed branching labelled later (fun next taken equal last => ?_)
    (fun next passed equal last => ?_)
  · rw [first] at taken
    exact refused next taken (kept next equal) last
  · rw [first] at passed
    exact accepted next passed (kept next equal) last

end

end Stackwise.Proofs.CodeFragments
