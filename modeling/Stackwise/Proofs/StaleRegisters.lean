import Stackwise.Proofs.AgreeingStates
import Stackwise.Proofs.ListingSafety

/-! What registers hold before a run does not matter. Two runs of a compiled listing that begin with
other registers stay side by side, step by step: a call finds its arguments written in both, and a
return leads both back to the caller, whose base pointer they share again. Only the outermost function
gives back base pointers that differ, and it halts. -/

namespace Stackwise.Proofs.StaleRegisters
open Assembly Machine Lowering SourceTerms EmittedListing Loading StackRoom Frames CodeLogic Activations SafeRuns
  ListingSafety CodeViews AgreeingStates

abbrev CalledIn (source : List Term) (callee : String) (count : Nat) : Prop := (callee, count) ∈ calls source

/-- What the callers of a function go on with when they are returned to, the latest one first. -/
inductive Waiting (permitted : String → Nat → Prop) (machine : Program) : List State → Prop where
  | none : Waiting permitted machine []
  | caller {state : State} {rest : List State} {base : Int} {size depth : Nat} {lines : Listing}
      (placed : Placed machine (state.address + 1) lines)
      (disciplined : Disciplined permitted size (settled depth) lines)
      (seated : Seated base size (settled depth) state) (nested : rest ≠ [] → base + 16 ≤ hiddenAddress)
      (others : Waiting permitted machine rest) : Waiting permitted machine (state :: rest)

/-- Two runs are side by side at lines that keep to their view. Unless no caller waits, the frame is
clear of the hidden word. -/
def Together (permitted : String → Nat → Prop) (machine : Program) (pending : List State) (first second : State) :
    Prop :=
  ∃ base size view lines, Placed machine first.address lines ∧ Disciplined permitted size view lines ∧
    Beside base size view first second ∧ (pending ≠ [] → base + 16 ≤ hiddenAddress) ∧ Waiting permitted machine pending

theorem step_of_found {machine : Program} {state : State} {instruction : Instruction}
    (found : machine.code[state.address]? = some (.ok instruction)) :
    step machine state = execute machine { state with address := state.address + 1 } instruction := by
  rw [step, found]

private theorem plain_of_advances {size : Nat} {view next : View} {instruction : Instruction}
    (advances : Advances size view instruction next) : Plain instruction := by
  cases advances <;> trivial

section
variable {source : List Term} {listing : Listing} {machine : Program} {permitted : String → Nat → Prop} {base : Int}
  {size : Nat} {view : View} {pending : List State} {first second : State}

/-- A jump leads both runs to the same label. -/
theorem jump_together {depth : Nat} {name : String} {front back : Listing} (level : view.level = .inner depth)
    (member : Register.rax ∈ view.known) (onward : Disciplined permitted size (settled depth) back)
    (placed : Placed machine (first.address + 1) (front ++ .label name :: back))
    (beside : Beside base size view first second) (nested : pending ≠ [] → base + 16 ≤ hiddenAddress)
    (waiting : Waiting permitted machine pending) :
    Follows (Together permitted machine pending) (jump machine { first with address := first.address + 1 } name)
      (jump machine { second with address := second.address + 1 } name) := by
  obtain ⟨-, labelled, placed⟩ := placed_append.mp placed
  simp only [jump, Program.target, labelled]
  exact .next ⟨base, size, settled depth, back, placed, onward, (beside.settle level member).at rfl beside.alike.calls,
    nested, waiting⟩

/-- A called function begins with its own base below the stack pointer of the caller. -/
theorem entered_beside (beside : Beside base size view first second) {depth : Nat} (level : view.level = .inner depth)
    (room : -0x8000000000000000 ≤ view.level.pointer base size - 8) {registers : List Register}
    (given : registers ⊆ view.known) (calleeSize target : Nat) :
    Beside (view.level.pointer base size - 16) calleeSize ⟨.outer, registers, false, .unknown⟩
      (entered first target) (entered second target) := by
  have counted := beside.at (Eq.refl target) (congrArg (· + 1) beside.alike.calls)
  have pushed : Beside base size { view with level := .inner (depth + 1), aim := .unknown } (entered first target)
      (entered second target) := by
    refine counted.push (fun _ => ?_) ?_ room (framed_inner level).symm rfl rfl trivial
    · rw [beside.alike.address]
    · rw [level]
      exact Level.pointer_succ ..
  obtain ⟨seated, alike⟩ := pushed
  have stack : Level.pointer base size (.inner (depth + 1)) =
      Level.pointer (view.level.pointer base size - 16) calleeSize .outer := by
    rw [Level.pointer_succ, level, Level.pointer]
    omega
  have below : view.level.pointer base size ≤ base := by
    rw [level, Level.pointer]
    omega
  have low := seated.le_hidden
  refine ⟨⟨seated.stack.trans (congrArg Int64.ofInt stack), Int.le_trans seated.room (Int.le_of_eq stack),
    (fun framed => by cases framed), trivial, .inr (by omega)⟩,
    ⟨alike.address, alike.calls, fun register shared => alike.registers register ?_, (fun tested => by cases tested),
      alike.memory⟩⟩
  rcases shared with here | ⟨frame, -⟩ | ⟨scratch, member⟩
  · exact .inl here
  · exact .inr (.inl ⟨frame, .inl rfl⟩)
  · exact .scratch scratch (given member)

/-- A call enters the same function in both runs, or fails in the same way. -/
theorem call_together (image : Image source listing machine) (symbols : Symbols source) {callee : String}
    {count depth : Nat} {rest : Listing} (identifier : Identifier callee) (called : CalledIn source callee count)
    (level : view.level = .inner depth) (given : argumentRegisters.take count ⊆ view.known)
    (found : machine.code[first.address]? = some (.ok (.call callee))) (fits : Fits machine first)
    (placed : Placed machine (first.address + 1) rest)
    (onward : Disciplined (CalledIn source) size (settled depth) rest)
    (beside : Beside base size view first second) (nested : pending ≠ [] → base + 16 ≤ hiddenAddress)
    (waiting : Waiting (CalledIn source) machine pending) :
    Follows (Together (CalledIn source) machine (first :: pending)) (step machine first) (step machine second) := by
  rw [step_of_found found, step_of_found (beside.alike.address ▸ found)]
  show Follows _ (enter machine { first with address := first.address + 1 } callee)
    (enter machine { second with address := second.address + 1 } callee)
  rw [enter, enter]
  simp only [beside.alike.stack]
  split
  · by_cases known : ∃ function ∈ functions source, function.name = callee
    · obtain ⟨function, member, rfl⟩ := known
      obtain ⟨start, final, body, target, installed⟩ := image.installed function member
      have room := fits _ found
      rw [beside.seated.depth, descent] at room
      have arguments : argumentRegisters.take function.parameters.length ⊆ view.known := by
        have few := symbols.arity _ count called function member rfl
        exact List.Subset.trans (List.take_subset_take_left _ few) given
      have entry := entered_beside beside level room arguments final.frameSize target
      have below : view.level.pointer base size - 16 + 16 ≤ hiddenAddress := by
        have low := beside.seated.le_hidden
        rw [level, Level.pointer]
        omega
      simp only [jump, Program.target, installed.labelled]
      exact .next ⟨_, _, _, _, installed.placed, function_disciplined installed.code, entry, fun _ => below,
        .caller placed onward (beside.seated.settle level) nested waiting⟩
    · have missing : machine.labels.get? callee = none :=
        image.missing callee identifier fun function member same => known ⟨function, member, same⟩
      simp only [jump, Program.target, missing]
      exact .fault _
  · exact .fault _

/-- Both states find the same return address on the stack, and the same value in `rax`. -/
theorem leave_beside (level : view.level = .outer) (member : Register.rax ∈ view.known)
    (beside : Beside base size view first second) :
    Follows (fun one two => ∃ destination, one = { first.drop with address := destination } ∧
      two = { second.drop with address := destination }) (leave first) (leave second) := by
  have top : second.top = first.top := by
    refine beside.top ?_
    have low := beside.seated.low
    rw [level, Level.pointer]
    omega
  have value : second.drop.registers.read Register.rax = first.drop.registers.read Register.rax := by
    refine (read_move _ _ (by decide) (by decide)).trans (Eq.trans ?_ (read_move _ _ (by decide) (by decide)).symm)
    exact beside.alike.read (.scratch scratch_rax member) (by decide)
  simp only [leave, top, value, beside.alike.calls]
  split
  · exact .halt _
  · split
    · exact .fault _
    · exact .next ⟨_, rfl, rfl⟩

/-- Behind the call both states have the frame of the caller, and share its base pointer again. -/
theorem returned_beside {caller : State} {callerBase : Int} {callerSize depth destination : Nat}
    (beside : Beside base size view first second) (member : Register.rax ∈ view.known) (apart : base ≠ hiddenAddress)
    (seated : Seated callerBase callerSize (settled depth) caller)
    (restores : Restores caller { first.drop with address := destination }) :
    Beside callerBase callerSize (settled depth) { first.drop with address := destination }
      { second.drop with address := destination } := by
  have alike : Alike base view first.drop second.drop :=
    beside.alike.write (by decide) (fun _ => congrArg (· + 8) beside.alike.stack) id (List.subset_cons_self ..) id
  refine ⟨⟨restores.stack.trans seated.stack, seated.room, fun framed => restores.base.trans (seated.frame framed),
    trivial, seated.low⟩, ⟨rfl, alike.calls, fun register shared => alike.registers register ?_,
    (fun tested => by cases tested), alike.memory⟩⟩
  rcases shared with here | ⟨frame, -⟩ | ⟨scratch, settled⟩
  · exact .inl here
  · exact .inr (.inl ⟨frame, .inr apart⟩)
  · exact .scratch scratch (List.mem_singleton.mp settled ▸ member)

/-- A return halts both runs with the same outcome, or leads both behind the call. -/
theorem return_together {allowed : Fault → Prop} {steps : Nat} (level : view.level = .outer)
    (member : Register.rax ∈ view.known) (found : machine.code[first.address]? = some (.ok .ret))
    (fits : Fits machine first) (safe : Safe machine allowed (steps + 1) pending first)
    (beside : Beside base size view first second) (nested : pending ≠ [] → base + 16 ≤ hiddenAddress)
    (waiting : Waiting permitted machine pending) :
    Follows (Together permitted machine pending.tail) (step machine first) (step machine second) := by
  have forward := beside.at (congrArg (· + 1) beside.alike.address) beside.alike.calls
  have follows := leave_beside level member forward
  have taken := safe fits
  rw [step_of_found found] at taken ⊢
  rw [step_of_found (beside.alike.address ▸ found)]
  simp only [execute] at taken ⊢
  generalize leave { first with address := first.address + 1 } = one at follows taken ⊢
  generalize leave { second with address := second.address + 1 } = two at follows ⊢
  cases follows with
  | fault reason => exact .fault reason
  | halt outcome => exact .halt outcome
  | next onward =>
    obtain ⟨destination, rfl, rfl⟩ := onward
    obtain ⟨caller, rest, rfl, restores⟩ := taken.returned found
    cases waiting with
    | caller placed disciplined seated outer others =>
      have apart : base ≠ hiddenAddress := by
        have below := nested (List.cons_ne_nil caller rest)
        omega
      exact .next ⟨_, _, _, _, restores.address ▸ placed, disciplined,
        returned_beside forward member apart seated restores, outer, others⟩

/-- Two runs that are side by side stay so, or end in the same way. -/
theorem step_together (image : Image source listing machine) (symbols : Symbols source) {steps : Nat}
    (together : Together (CalledIn source) machine pending first second)
    (fits : Fits machine first) (safe : Safe machine (Allowed source) (steps + 1) pending first) :
    Follows (Together (CalledIn source) machine (pendingAfter machine pending first)) (step machine first)
      (step machine second) := by
  obtain ⟨base, size, view, lines, placed, disciplined, beside, nested, waiting⟩ := together
  induction disciplined with
  | @code view next instruction comment rest advances onward _ =>
    obtain ⟨found, placed⟩ := placed
    have forward := beside.at (congrArg (· + 1) beside.alike.address) beside.alike.calls
    rw [step_of_found found, step_of_found (beside.alike.address ▸ found),
      pendingAfter_plain found (plain_of_advances advances)]
    refine (execute_beside advances forward (fits _ found)).imp fun one two after => ?_
    exact ⟨base, size, next, rest, after.1 ▸ placed, onward, after.2, nested, waiting⟩
  | label onward ih => exact ih placed.2 beside
  | settle level member onward ih => exact ih placed (beside.settle level member)
  | frameless level empty onward ih =>
    refine ih placed (beside.relax ?_ (by rw [level]; rfl) (List.Subset.refl _) id rfl)
    rw [level, empty]
    simp only [Level.pointer]
    omega
  | @branch view depth name front back level member tested taken skipped _ _ =>
    obtain ⟨found, placed⟩ := placed
    rw [step_of_found found, step_of_found (beside.alike.address ▸ found), pendingAfter_plain found trivial]
    have same := congrArg (holds .equal) (beside.alike.compared tested)
    simp only [execute, same]
    split
    · exact jump_together level member taken placed beside nested waiting
    · have there := (beside.settle level member).at (congrArg (· + 1) beside.alike.address) beside.alike.calls
      exact .next ⟨base, size, settled depth, _, placed, skipped, there, nested, waiting⟩
  | @jump view depth name front back level member onward _ =>
    obtain ⟨found, placed⟩ := placed
    rw [step_of_found found, step_of_found (beside.alike.address ▸ found), pendingAfter_plain found trivial]
    exact jump_together level member onward placed beside nested waiting
  | @call view depth count callee rest level identifier allowed given onward _ =>
    have after : pendingAfter machine pending first = first :: pending := by
      rw [pendingAfter, placed.1]
    rw [after]
    exact call_together image symbols identifier allowed level given placed.1 fits placed.2 onward beside nested waiting
  | ret level member =>
    have after : pendingAfter machine pending first = pending.tail := by
      rw [pendingAfter, placed.1]
    rw [after]
    exact return_together level member placed.1 fits safe beside nested waiting

/-- Runs that are side by side have the same result, however many steps they take. -/
theorem runFor_together (image : Image source listing machine) (symbols : Symbols source) {steps : Nat}
    (together : Together (CalledIn source) machine pending first second)
    (fits : FitsFor machine steps first) (safe : Safe machine (Allowed source) steps pending first) :
    runFor machine steps second = runFor machine steps first := by
  induction steps generalizing pending first second with
  | zero => rfl
  | succ steps ih =>
    have follows := step_together image symbols together fits.1 safe
    have after := safe fits.1
    rw [runFor, runFor]
    generalize taken : step machine first = one at follows after
    generalize step machine second = two at follows
    cases follows with
    | fault reason => rfl
    | halt outcome => rfl
    | next onward => exact ih onward (fits.2 _ taken) after.onward

/-- Where a run begins, only the stack pointer is shared, and nothing is on the stack but the halt
address. -/
theorem start_beside {registers : Registers} (pointer : registers.read Register.rsp = initialStackPointer)
    (compared : Word × Word) (address size : Nat) :
    Beside hiddenAddress size ⟨.outer, [], false, .unknown⟩ (startState initialRegisters (0, 0) address)
      (startState registers compared address) := by
  have usual : initialRegisters.read Register.rsp = initialStackPointer := by
    rw [initialRegisters, Registers.read_write_other _ _ (by decide) (by decide) (by decide)]
    exact Registers.read_write_same _ _ (by decide)
  have room : -0x8000000000000000 ≤ hiddenAddress + 8 := by decide
  refine ⟨⟨startState_pointer _ _, room, (fun framed => by cases framed), trivial, .inl rfl⟩,
    ⟨rfl, rfl, fun register shared => ?_, (fun tested => by cases tested), fun asked _ => ?_⟩⟩
  · rcases shared with rfl | ⟨-, framed | apart⟩ | ⟨-, member⟩
    · simp only [startState, State.push]
      rw [pointer, usual, Registers.write, Registers.write, if_neg (by decide), if_neg (by decide),
        Registers.full_setFull, Registers.full_setFull, if_pos rfl, if_pos rfl]
    · cases framed
    · exact absurd rfl apart
    · cases member
  · simp only [startState, State.push]
    rw [pointer, usual]

private theorem start_together (image : Image source listing machine) {address : Nat}
    (target : machine.target entry = .ok address) {registers : Registers}
    (pointer : registers.read Register.rsp = initialStackPointer) (compared : Word × Word) :
    Together (CalledIn source) machine []
      (startState initialRegisters (0, 0) address) (startState registers compared address) := by
  obtain ⟨start, final, body, installed⟩ := image.entered target
  refine ⟨hiddenAddress, final.frameSize, _, _, installed.placed, function_disciplined installed.code,
    start_beside pointer compared address _, fun some => absurd rfl some, .none⟩

end

/-- A compiled listing has the same result whatever the registers hold when its run begins, the stack
pointer aside, and whatever was compared last. -/
theorem stale_registers_unseen {source : String} {listing : Listing} (compiled : compile source = .ok listing)
    (noOverflow : NoOverflow listing) (registers : Registers) (compared : Word × Word)
    (pointer : registers.read Register.rsp = initialStackPointer) :
    ∃ machine, Program.load (Listing.text listing) = .ok machine ∧
      runFrom machine registers compared = run (Listing.text listing) := by
  obtain ⟨program, machine, -, symbols, image⟩ := compile_image compiled noOverflow.sizes
  obtain ⟨address, target⟩ := image.target_entry
  refine ⟨machine, image.loaded, ?_⟩
  have found : machine.target "main" = .ok address := target
  have same := runFor_together image symbols (start_together image target pointer compared)
    (noOverflow.stack machine address image.loaded target) (start_safe image noOverflow.addresses maxSteps target)
  simp only [runFrom, found, run_eq_runFor image.loaded target, same]

/-- A variable is read before it is assigned, `main` is called with arguments, and the registers hold
what they like. -/
theorem careless_registers_unseen :
    ∃ listing, compile "def f(a)\x7breturn a+z;\x7dif(x==0)\x7bx=1;y=main(f(2),x);\x7dx/y;" = .ok listing ∧
      NoOverflow listing ∧
      ∃ machine, Program.load (Listing.text listing) = .ok machine ∧
        runFrom machine (((Registers.empty.write Register.rbp 41).write Register.rdi 42).write Register.rsp
          initialStackPointer) (43, 44) = run (Listing.text listing) := by
  obtain ⟨listing, compiled, noOverflow⟩ := exists_of_compilesModestly
    (show compilesModestly "def f(a)\x7breturn a+z;\x7dif(x==0)\x7bx=1;y=main(f(2),x);\x7dx/y;" = true by
      decide +kernel)
  refine ⟨listing, compiled, noOverflow, stale_registers_unseen compiled noOverflow _ _ ?_⟩
  exact Registers.read_write_same _ _ (by decide)

end Stackwise.Proofs.StaleRegisters
