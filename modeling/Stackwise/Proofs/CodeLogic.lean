import Stackwise.Proofs.EmittedCode
import Stackwise.Proofs.Frames
import Stackwise.Proofs.StackRoom

/-! A logic for straight code. It speaks of any predicate on states that holds before a step
whenever it holds after it, so the same rules serve to show that a run is safe and that it ends
with a certain result. Each rule says of some lines what state they lead to. -/

namespace Stackwise.Proofs.CodeLogic
open Assembly Machine Lowering EmittedCode Loading StackRoom Frames

def Plain : Instruction → Prop
  | .call _ | .ret => False
  | _ => True

/-- The predicate is carried backwards over plain steps, and nothing is asked where the stack
pointer would leave the words. -/
structure Backward (program : Program) (Holds : State → Prop) : Prop where
  overflow : ∀ state, ¬ Fits program state → Holds state
  step : ∀ {state next : State} {instruction : Instruction},
    program.code[state.address]? = some (.ok instruction) → Plain instruction →
    execute program { state with address := state.address + 1 } instruction = .ok (.next next) →
    depthOf state - descent instruction ≤ depthOf next → Holds next → Holds state

/-- The state is at an address, with a number of calls made, and holds a frame. -/
structure Stands (frame : Frame) (contents : String → Word) (words : List Word) (address calls : Nat)
    (state : State) : Prop where
  framed : Framed frame contents words state.registers state.memory
  address : state.address = address
  calls : state.calls = calls

/-- At most one register is changed, apart from the stack pointer. -/
structure Keeps (changed : Register) (state next : State) : Prop where
  others : ∀ asked, asked ≠ changed → asked ≠ Register.rsp → asked ≠ Register.al →
    next.registers.read asked = state.registers.read asked
  compared : next.compared = state.compared

def Scratch (register : Register) : Prop :=
  register ≠ Register.rsp ∧ register ≠ Register.rbp ∧ register ≠ Register.al

instance (register : Register) : Decidable (Scratch register) := inferInstanceAs (Decidable (_ ∧ _ ∧ _))

theorem scratch_rax : Scratch Register.rax := by decide

theorem scratch_rdi : Scratch Register.rdi := by decide

/-- The register that was changed aside, a scratch register is as it was. -/
theorem Keeps.read {changed asked : Register} {state next : State} (kept : Keeps changed state next)
    (scratch : Scratch asked) (different : asked ≠ changed) :
    next.registers.read asked = state.registers.read asked :=
  kept.others asked different scratch.1 scratch.2.2

/-- Moving the stack pointer keeps every other register. -/
theorem read_move (registers : Registers) {asked : Register} (value : Word) (different : asked ≠ Register.rsp)
    (whole : asked ≠ Register.al) :
    (registers.write Register.rsp value).read asked = registers.read asked :=
  Registers.read_write_other registers value (by decide) whole (Ne.symm different)

section
variable {program : Program} {Holds : State → Prop} {frame : Frame} {contents : String → Word}
  {words : List Word} {address calls : Nat} {state : State}

theorem Stands.depthOf_eq (stands : Stands frame contents words address calls state) :
    depthOf state = frame.top words.length := by
  rw [depthOf, stands.framed.stack, toInt_ofInt stands.framed.top_inRange]

theorem read_at (state : State) (address : Nat) (source : Operand) :
    State.read { state with address := address } source = state.read source := by
  match source with
  | .place (.register _) => rfl
  | .place (.memory _ _) => rfl
  | .immediate _ => rfl

theorem push_runs (closed : Backward program Holds) {source : Operand}
    (found : program.code[address]? = some (.ok (.push source)))
    (stands : Stands frame contents words address calls state)
    (onward : ∀ next, Keeps Register.rsp state next →
      Stands frame contents (state.read source :: words) (address + 1) calls next → Holds next) :
    Holds state := by
  have here := stands.address ▸ found
  have depth := stands.depthOf_eq
  by_cases fits : Fits program state
  · have room : -0x8000000000000000 ≤ frame.top (words.length + 1) := by
      have bound := fits _ here
      rw [depth, descent] at bound
      rw [frame.top_succ]
      exact bound
    have framed := stands.framed.push (state.read source) room
    have next : Stands frame contents (state.read source :: words) (address + 1) calls
        (State.push { state with address := state.address + 1 } (state.read source)) :=
      ⟨framed, by rw [← stands.address]; rfl, stands.calls⟩
    have executed : execute program { state with address := state.address + 1 } (.push source) =
        .ok (.next (State.push { state with address := state.address + 1 } (state.read source))) := by
      rw [execute, read_at]
    refine closed.step here trivial executed ?_ (onward _ ⟨?_, rfl⟩ next)
    · rw [depth, next.depthOf_eq, List.length_cons, frame.top_succ]
      exact Int.le_refl _
    · intro asked _ different whole
      exact read_move _ _ different whole
  · exact closed.overflow state fits

theorem pop_runs (closed : Backward program Holds) {register : Register} {word : Word}
    (found : program.code[address]? = some (.ok (.pop register))) (scratch : Scratch register)
    (stands : Stands frame contents (word :: words) address calls state)
    (onward : ∀ next, Keeps register state next → next.registers.read register = word →
      Stands frame contents words (address + 1) calls next → Holds next) : Holds state := by
  have here := stands.address ▸ found
  obtain ⟨top, dropped⟩ := stands.framed.drop
  have next : Stands frame contents words (address + 1) calls
      (State.write (State.drop { state with address := state.address + 1 }) register word) :=
    ⟨dropped.scratch word scratch.1 scratch.2.1, by rw [← stands.address]; rfl, stands.calls⟩
  have executed : execute program { state with address := state.address + 1 } (.pop register) =
      .ok (.next (State.write (State.drop { state with address := state.address + 1 }) register word)) := by
    rw [execute, State.top]
    exact congrArg (fun value => Except.ok (Transition.next (State.write _ _ value))) top
  refine closed.step here trivial executed ?_ (onward _ ⟨?_, rfl⟩ ?_ next)
  · rw [stands.depthOf_eq, next.depthOf_eq, List.length_cons, frame.top_succ]
    show frame.top words.length - 8 - 0 ≤ frame.top words.length
    omega
  · intro asked different notStack whole
    have written := read_write_ne (State.drop { state with address := state.address + 1 }).registers word
      whole (Ne.symm different) (fun low => absurd low scratch.2.2)
    exact written.trans (read_move _ _ notStack whole)
  · exact Registers.read_write_same _ word scratch.2.2

/-- An instruction that writes a scratch register. -/
theorem write_runs (closed : Backward program Holds) {instruction : Instruction} {register : Register}
    {value : Word} (found : program.code[address]? = some (.ok instruction)) (plain : Plain instruction)
    (flat : descent instruction = 0) (scratch : Scratch register)
    (stands : Stands frame contents words address calls state)
    (executed : execute program { state with address := state.address + 1 } instruction =
      .ok (.next (State.write { state with address := state.address + 1 } register value)))
    (onward : ∀ next, Keeps register state next → next.registers.read register = value →
      Stands frame contents words (address + 1) calls next → Holds next) : Holds state := by
  have here := stands.address ▸ found
  have next : Stands frame contents words (address + 1) calls
      (State.write { state with address := state.address + 1 } register value) :=
    ⟨stands.framed.scratch value scratch.1 scratch.2.1, by rw [← stands.address]; rfl, stands.calls⟩
  refine closed.step here plain executed ?_ (onward _ ⟨?_, rfl⟩ ?_ next)
  · rw [stands.depthOf_eq, next.depthOf_eq, flat]
    omega
  · intro asked different _ whole
    exact read_write_ne _ value whole (Ne.symm different) (fun low => absurd low scratch.2.2)
  · exact Registers.read_write_same _ value scratch.2.2

theorem compare_runs (closed : Backward program Holds) {left right : Operand}
    (found : program.code[address]? = some (.ok (.cmp left right)))
    (stands : Stands frame contents words address calls state)
    (onward : ∀ next, next.registers = state.registers →
      next.compared = (state.read left, state.read right) →
      Stands frame contents words (address + 1) calls next → Holds next) : Holds state := by
  have here := stands.address ▸ found
  have executed : execute program { state with address := state.address + 1 } (.cmp left right) =
      .ok (.next { state with
        address := state.address + 1, compared := (state.read left, state.read right) }) := by
    simp only [execute, read_at]
  refine closed.step here trivial executed ?_ (onward _ rfl rfl ⟨stands.framed, ?_, stands.calls⟩)
  · show depthOf state - 0 ≤ depthOf state
    omega
  · rw [← stands.address]

/-- A jump that is taken. -/
theorem jump_runs (closed : Backward program Holds) {label : String} {target : Nat}
    (found : program.code[address]? = some (.ok (.jmp label)))
    (labelled : program.labels.get? label = some target)
    (stands : Stands frame contents words address calls state)
    (onward : ∀ next, next.registers = state.registers →
      Stands frame contents words target calls next → Holds next) : Holds state := by
  have here := stands.address ▸ found
  have executed : execute program { state with address := state.address + 1 } (.jmp label) =
      .ok (.next { state with address := target }) := by
    rw [execute, jump, Program.target, labelled]
  refine closed.step here trivial executed ?_ (onward _ rfl ⟨stands.framed, rfl, stands.calls⟩)
  show depthOf state - 0 ≤ depthOf state
  omega

/-- A conditional jump is taken when the two compared values are equal. -/
theorem branch_runs (closed : Backward program Holds) {label : String} {target : Nat}
    (found : program.code[address]? = some (.ok (.je label)))
    (labelled : program.labels.get? label = some target)
    (stands : Stands frame contents words address calls state)
    (taken : ∀ next, state.compared.1 = state.compared.2 → next.registers = state.registers →
      Stands frame contents words target calls next → Holds next)
    (skipped : ∀ next, state.compared.1 ≠ state.compared.2 → next.registers = state.registers →
      Stands frame contents words (address + 1) calls next → Holds next) : Holds state := by
  have here := stands.address ▸ found
  have level : depthOf state - descent (.je label) ≤ depthOf state := by
    show depthOf state - 0 ≤ depthOf state
    omega
  by_cases same : state.compared.1 = state.compared.2
  · have executed : execute program { state with address := state.address + 1 } (.je label) =
        .ok (.next { state with address := target }) := by
      have equal : holds .equal state.compared = true := by simpa [holds] using same
      rw [execute, if_pos equal, jump, Program.target, labelled]
    exact closed.step here trivial executed level (taken _ same rfl ⟨stands.framed, rfl, stands.calls⟩)
  · have executed : execute program { state with address := state.address + 1 } (.je label) =
        .ok (.next { state with address := state.address + 1 }) := by
      simp [execute, holds, same]
    refine closed.step here trivial executed level
      (skipped _ same rfl ⟨stands.framed, ?_, stands.calls⟩)
    rw [← stands.address]

/-- The truth value of a condition goes into the low byte of `rax`. -/
theorem set_runs (closed : Backward program Holds) {condition : Condition}
    (found : program.code[address]? = some (.ok (.set condition Register.al)))
    (stands : Stands frame contents words address calls state)
    (onward : ∀ next, next.registers =
        state.registers.write Register.al (if holds condition state.compared then 1 else 0) →
      Stands frame contents words (address + 1) calls next → Holds next) : Holds state := by
  have here := stands.address ▸ found
  have notStack : Register.al ≠ Register.rsp := by decide
  have notBase : Register.al ≠ Register.rbp := by decide
  have next : Stands frame contents words (address + 1) calls
      (State.write { state with address := state.address + 1 } Register.al
        (if holds condition state.compared then 1 else 0)) :=
    ⟨stands.framed.scratch _ notStack notBase, by rw [← stands.address]; rfl, stands.calls⟩
  refine closed.step here trivial rfl ?_ (onward _ rfl next)
  rw [stands.depthOf_eq]
  refine Int.le_trans ?_ (Int.le_of_eq next.depthOf_eq.symm)
  show frame.top words.length - 0 ≤ frame.top words.length
  omega

/-- A division that is possible leaves the quotient in `rax`. -/
theorem divide_runs (closed : Backward program Holds) {divisor : Operand}
    (found : program.code[address]? = some (.ok (.idiv divisor)))
    (stands : Stands frame contents words address calls state)
    (failing : state.read divisor = 0 → step program state = .error .divisionByZero → Holds state)
    (onward : ∀ next, state.read divisor ≠ 0 →
      next.registers.read Register.rax = state.registers.read Register.rax / state.read divisor →
      Stands frame contents words (address + 1) calls next → Holds next) : Holds state := by
  have here := stands.address ▸ found
  have executed : execute program { state with address := state.address + 1 } (.idiv divisor) =
      divide { state with address := state.address + 1 } (state.read divisor) := by
    rw [execute, read_at]
  by_cases zero : state.read divisor = 0
  · refine failing zero ?_
    rw [step, here]
    exact executed.trans (by rw [divide, if_pos zero])
  · have notStack : Register.rax ≠ Register.rsp ∧ Register.rdx ≠ Register.rsp := by decide
    have notBase : Register.rax ≠ Register.rbp ∧ Register.rdx ≠ Register.rbp := by decide
    rw [divide, if_neg zero] at executed
    have next : Stands frame contents words (address + 1) calls
        { state with
          address := state.address + 1
          registers := (state.registers.write Register.rax
            (state.registers.read Register.rax / state.read divisor)).write Register.rdx
              (state.registers.read Register.rax % state.read divisor) } :=
      ⟨(stands.framed.scratch _ notStack.1 notBase.1).scratch _ notStack.2 notBase.2,
        by rw [← stands.address], stands.calls⟩
    refine closed.step here trivial executed ?_ (onward _ zero ?_ next)
    · rw [stands.depthOf_eq]
      refine Int.le_trans ?_ (Int.le_of_eq next.depthOf_eq.symm)
      show frame.top words.length - 0 ≤ frame.top words.length
      omega
    · show ((state.registers.write Register.rax _).write Register.rdx _).read Register.rax = _
      rw [Registers.read_write_other _ _ (by decide) (by decide) (by decide),
        Registers.read_write_same _ _ (by decide)]

/-- Storing a word in the slot of a variable. -/
theorem store_runs (closed : Backward program Holds) {base : Register} {below : Int} {source : Operand}
    {name : String} (found : program.code[address]? = some (.ok (.mov (.memory base below) source)))
    (stands : Stands frame contents words address calls state) (known : name ∈ frame.slots)
    (aimed : state.wordAddress base below = Int64.ofInt (frame.slot name))
    (onward : ∀ next, next.registers = state.registers →
      Stands frame (Function.update contents name (state.read source)) words (address + 1) calls next →
      Holds next) : Holds state := by
  have here := stands.address ▸ found
  have executed : execute program { state with address := state.address + 1 } (.mov (.memory base below) source) =
      .ok (.next { state with
        address := state.address + 1
        memory := state.memory.write (Int64.ofInt (frame.slot name)) (state.read source) }) := by
    rw [execute, read_at, State.write]
    exact congrArg (fun target => Except.ok (Transition.next { state with
      address := state.address + 1, memory := state.memory.write target (state.read source) })) aimed
  refine closed.step here trivial executed ?_
    (onward _ rfl ⟨stands.framed.store known _, ?_, stands.calls⟩)
  · show depthOf state - 0 ≤ depthOf state
    omega
  · rw [← stands.address]

/-- Padding takes one more word onto the stack, whatever it holds. -/
theorem pad_runs (closed : Backward program Holds)
    (found : program.code[address]? = some (.ok (.arithmetic .sub Register.rsp (.immediate 8))))
    (stands : Stands frame contents words address calls state)
    (onward : ∀ next word, Keeps Register.rsp state next →
      Stands frame contents (word :: words) (address + 1) calls next → Holds next) : Holds state := by
  have here := stands.address ▸ found
  have depth := stands.depthOf_eq
  by_cases fits : Fits program state
  · have room : -0x8000000000000000 ≤ frame.top (words.length + 1) := by
      have bound := fits _ here
      rw [depth, descent, if_pos rfl] at bound
      rw [frame.top_succ]
      exact bound
    have next : Stands frame contents (wordAt state.memory (frame.top (words.length + 1)) :: words)
        (address + 1) calls (State.write { state with address := state.address + 1 } Register.rsp
          (state.registers.read Register.rsp - 8)) :=
      ⟨stands.framed.grow room, by rw [← stands.address]; rfl, stands.calls⟩
    have executed : execute program { state with address := state.address + 1 }
        (.arithmetic .sub Register.rsp (.immediate 8)) = .ok (.next (State.write
          { state with address := state.address + 1 } Register.rsp (state.registers.read Register.rsp - 8))) := rfl
    refine closed.step here trivial executed ?_ (onward _ _ ⟨?_, rfl⟩ next)
    · refine Int.le_of_eq ?_
      rw [depth, next.depthOf_eq, List.length_cons, frame.top_succ, descent, if_pos rfl]
    · intro asked _ different whole
      exact read_move _ _ different whole
  · exact closed.overflow state fits

theorem unpad_runs (closed : Backward program Holds) {word : Word}
    (found : program.code[address]? = some (.ok (.arithmetic .add Register.rsp (.immediate 8))))
    (stands : Stands frame contents (word :: words) address calls state)
    (onward : ∀ next, Keeps Register.rsp state next → Stands frame contents words (address + 1) calls next →
      Holds next) : Holds state := by
  have here := stands.address ▸ found
  obtain ⟨-, dropped⟩ := stands.framed.drop
  have next : Stands frame contents words (address + 1) calls
      (State.write { state with address := state.address + 1 } Register.rsp
        (state.registers.read Register.rsp + 8)) :=
    ⟨dropped, by rw [← stands.address]; rfl, stands.calls⟩
  have executed : execute program { state with address := state.address + 1 }
      (.arithmetic .add Register.rsp (.immediate 8)) = .ok (.next (State.write
        { state with address := state.address + 1 } Register.rsp (state.registers.read Register.rsp + 8))) := rfl
  refine closed.step here trivial executed ?_ (onward _ ⟨?_, rfl⟩ next)
  · rw [stands.depthOf_eq, next.depthOf_eq, List.length_cons, frame.top_succ]
    show frame.top words.length - 8 - 0 ≤ frame.top words.length
    omega
  · intro asked _ different whole
    exact read_move _ _ different whole

end

end Stackwise.Proofs.CodeLogic
