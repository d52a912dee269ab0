import Stackwise.Proofs.ListingSafety

/-! The discipline of calls. Along an execution, calls and returns match as brackets do, and the
return that matches a call gives the caller back its pointers, its variables, its pending operands
and its own return address. -/

namespace Stackwise.Proofs.CallDiscipline
open Assembly Machine Lowering ListingText SourceTerms EmittedListing Loading StackRoom Activations SafeRuns ListingSafety

/-- An execution of a number of steps, with the states in which the calls that have not returned
were made, the latest one first. -/
inductive Execution (program : Program) (start : State) : Nat → List State → State → Prop where
  | start : Execution program start 0 [] start
  | step {count : Nat} {pending : List State} {state next : State}
      (before : Execution program start count pending state)
      (taken : step program state = .ok (.next next)) :
      Execution program start (count + 1) (pendingAfter program pending state) next

def executed (program : Program) (start : State) : Nat → Option (List State × State)
  | 0 => some ([], start)
  | count + 1 =>
    match executed program start count with
    | none => none
    | some (pending, state) =>
      match step program state with
      | .ok (.next next) => some (pendingAfter program pending state, next)
      | _ => none

section
variable {program : Program} {allowed : Fault → Prop} {start state : State} {count : Nat} {pending : List State}

theorem execution_of_executed (reached : executed program start count = some (pending, state)) :
    Execution program start count pending state := by
  induction count generalizing pending state with
  | zero =>
    cases reached
    exact .start
  | succ count ih =>
    rw [executed] at reached
    split at reached
    next => cases reached
    next before current known =>
      split at reached
      next next taken =>
        cases reached
        exact .step (ih known) taken
      next => cases reached

/-- Each pending state is at a call. -/
theorem Execution.calling (execution : Execution program start count pending state) :
    ∀ caller ∈ pending, ∃ callee, program.code[caller.address]? = some (.ok (.call callee)) := by
  induction execution with
  | start =>
    intro caller member
    cases member
  | @step count pending state next before taken ih =>
    intro caller member
    unfold pendingAfter at member
    split at member
    next callee found =>
      rcases List.mem_cons.mp member with rfl | member
      · exact ⟨callee, found⟩
      · exact ih caller member
    next => exact ih caller (List.mem_of_mem_tail member)
    next => exact ih caller member

/-- Whatever steps are left of a safe run are safe, and have the room that the run has. -/
theorem Execution.safe (execution : Execution program start count pending state) (left : Nat)
    (safe : Safe program allowed (count + left) [] start) (fits : FitsFor program (count + left) start) :
    Safe program allowed left pending state ∧ FitsFor program left state := by
  induction execution generalizing left with
  | start =>
    rw [Nat.zero_add] at safe fits
    exact ⟨safe, fits⟩
  | @step count pending state next before taken ih =>
    have total : count + 1 + left = count + (left + 1) := by omega
    rw [total] at safe fits
    obtain ⟨first, room⟩ := ih (left + 1) safe fits
    have onward := first room.1
    rw [taken] at onward
    exact ⟨onward.onward, room.2 next taken⟩

/-- A return cannot fail in a safe run. -/
theorem step_of_return {fault : Fault} {source : List Term}
    (returning : program.code[state.address]? = some (.ok .ret)) (allowed : Allowed source fault) :
    step program state ≠ .error fault := by
  intro failed
  rw [step, returning] at failed
  simp only [execute, leave] at failed
  split at failed
  · cases failed
  · split at failed
    · cases failed
      cases allowed
    · cases failed

end

/-- In every execution of a compiled listing, the return that matches a call leads behind that call,
with the stack and base pointers of the caller and with every word from its stack pointer on as
they were at the call. -/
theorem matching_return_restores {source : String} {listing : Listing} {machine : Program} {address count : Nat}
    {caller state : State} {rest : List State} (compiled : compile source = .ok listing)
    (noOverflow : NoOverflow listing) (loaded : Program.load (Listing.text listing) = .ok machine)
    (target : machine.target entry = .ok address)
    (execution : Execution machine (startState initialRegisters (0, 0) address) count (caller :: rest) state)
    (limited : count < maxSteps) (returning : machine.code[state.address]? = some (.ok .ret)) :
    (∃ callee, machine.code[caller.address]? = some (.ok (.call callee))) ∧
      ∃ next, step machine state = .ok (.next next) ∧ Restores caller next := by
  obtain ⟨program, other, -, -, image⟩ := compile_image compiled noOverflow.sizes
  have same : machine = other := Except.ok.inj (loaded.symm.trans image.loaded)
  subst same
  refine ⟨execution.calling caller (List.mem_cons_self ..), ?_⟩
  have total : count + (maxSteps - count - 1 + 1) = maxSteps := by omega
  have safe := start_safe image noOverflow.addresses maxSteps target
  have fits := noOverflow.stack machine address loaded target
  rw [← total] at safe fits
  obtain ⟨here, room⟩ := execution.safe _ safe fits
  have first := here room.1
  cases taken : step machine state with
  | error fault =>
    rw [taken] at first
    exact absurd taken (step_of_return returning first)
  | ok transition =>
    rw [taken] at first
    cases transition with
    | halt outcome => cases first
    | next next =>
      obtain ⟨matched, others, same, restores⟩ := first.returned returning
      cases same
      exact ⟨next, rfl, restores⟩

def isReturning (program : Program) : Option (List State × State) → Bool
  | some (_ :: _, state) =>
    match program.code[state.address]? with
    | some (.ok .ret) => true
    | _ => false
  | _ => false

def returnsAfter (source : String) (count : Nat) : Bool :=
  match compile source with
  | .error _ => false
  | .ok listing =>
    match Program.empty.addAll (listing.filterMap entry?) with
    | .error _ => false
    | .ok machine =>
      match machine.target entry with
      | .error _ => false
      | .ok address => isReturning machine (executed machine (startState initialRegisters (0, 0) address) count)

theorem exists_of_isReturning {program : Program} {reached : Option (List State × State)}
    (returning : isReturning program reached = true) :
    ∃ caller rest state, reached = some (caller :: rest, state) ∧
      program.code[state.address]? = some (.ok .ret) := by
  unfold isReturning at returning
  split at returning
  next caller rest state =>
    split at returning
    next found => exact ⟨caller, rest, state, rfl, found⟩
    next => cases returning
  next => cases returning

/-- Three activations of one function are under way when the innermost one returns. -/
theorem recursive_return_restores :
    ∃ listing machine address caller rest state next,
      compile "def f(n)\x7bif(n)return n+f(n-1);\x7df(2);" = .ok listing ∧ NoOverflow listing ∧
      Program.load (Listing.text listing) = .ok machine ∧ machine.target entry = .ok address ∧
      Execution machine (startState initialRegisters (0, 0) address) 93 (caller :: rest) state ∧
      machine.code[state.address]? = some (.ok .ret) ∧
      step machine state = .ok (.next next) ∧ Restores caller next := by
  obtain ⟨listing, compiled, noOverflow⟩ := exists_of_compilesModestly
    (show compilesModestly "def f(n)\x7bif(n)return n+f(n-1);\x7df(2);" = true by decide +kernel)
  obtain ⟨program, machine, -, -, image⟩ := compile_image compiled noOverflow.sizes
  obtain ⟨address, target⟩ := image.target_entry
  have returns : returnsAfter "def f(n)\x7bif(n)return n+f(n-1);\x7df(2);" 93 = true := by decide +kernel
  simp only [returnsAfter, compiled, image.assembled, target] at returns
  obtain ⟨caller, rest, state, reached, found⟩ := exists_of_isReturning returns
  have execution := execution_of_executed reached
  obtain ⟨-, next, taken, restores⟩ :=
    matching_return_restores compiled noOverflow image.loaded target execution (by decide) found
  exact ⟨listing, machine, address, caller, rest, state, next, compiled, noOverflow, image.loaded, target, execution,
    found, taken, restores⟩

end Stackwise.Proofs.CallDiscipline
