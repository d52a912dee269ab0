import Stackwise.Proofs.CallDiscipline

/-! An execution is made of activations. Each one goes its own way from where it was entered, and
passes over the calls that it makes as if each were one long step. Whatever an execution has come
to, it is in the middle of one activation for each pending call, and of the first one. -/

namespace Stackwise.Proofs.ActivationRuns
open Assembly Machine Lowering SourceTerms EmittedListing Loading StackRoom Frames CodeLogic Activations SafeRuns
  ListingSafety CallDiscipline

/-- A call that has returned: its number among all calls, the value that was left in `rax`, and the
number of calls by then. -/
structure Answer where
  number : Nat
  value : Word
  calls : Nat

/-- An activation proceeds from a state to another in a number of steps, those inside the calls that
it makes included. The calls are listed in their order. -/
inductive Proceeds (program : Program) : Nat → State → List Answer → State → Prop where
  | still {state : State} : Proceeds program 0 state [] state
  | plain {steps : Nat} {answers : List Answer} {state next last : State} {instruction : Instruction}
      (found : program.code[state.address]? = some (.ok instruction)) (plain : Plain instruction)
      (taken : step program state = .ok (.next next)) (onward : Proceeds program steps next answers last) :
      Proceeds program (steps + 1) state answers last
  | call {inside behind : Nat} {inner answers : List Answer} {state callee returning next last : State}
      {label : String} (found : program.code[state.address]? = some (.ok (.call label)))
      (taken : step program state = .ok (.next callee))
      (body : Proceeds program inside callee inner returning)
      (ended : program.code[returning.address]? = some (.ok .ret))
      (back : step program returning = .ok (.next next)) (onward : Proceeds program behind next answers last) :
      Proceeds program (inside + behind + 2) state
        (⟨state.calls + 1, returning.registers.read Register.rax, returning.calls⟩ :: answers) last

section
variable {program : Program} {start state next last : State} {steps more count : Nat}
  {answers others : List Answer} {pending : List State}

private theorem Proceeds.trans (first : Proceeds program steps state answers next)
    (second : Proceeds program more next others last) :
    Proceeds program (steps + more) state (answers ++ others) last := by
  induction first with
  | still =>
    rw [Nat.zero_add]
    exact second
  | plain found plain taken _ ih =>
    rw [Nat.add_right_comm]
    exact .plain found plain taken (ih second)
  | @call inside behind _ _ _ _ _ _ _ _ found taken body ended back _ _ ih =>
    have total : inside + behind + 2 + more = inside + (behind + more) + 2 := by omega
    rw [total]
    exact .call found taken body ended back (ih second)

theorem pendingAfter_call {label : String} (found : program.code[state.address]? = some (.ok (.call label))) :
    pendingAfter program pending state = state :: pending := by
  rw [pendingAfter, found]

theorem pendingAfter_return (found : program.code[state.address]? = some (.ok .ret)) :
    pendingAfter program pending state = pending.tail := by
  rw [pendingAfter, found]

/-- The calls of an activation return, so that the same ones are pending wherever it has come to. -/
theorem Proceeds.execution (proceeds : Proceeds program steps state answers last)
    (before : Execution program start count pending state) :
    Execution program start (count + steps) pending last := by
  induction proceeds generalizing count pending with
  | still => exact before
  | plain found plain taken _ ih =>
    rw [Nat.add_comm _ 1, ← Nat.add_assoc]
    refine ih ?_
    have onward := before.step taken
    rwa [pendingAfter_plain found plain] at onward
  | @call inside behind _ _ _ _ _ _ _ _ found taken _ ended back _ inner ih =>
    have total : count + (inside + behind + 2) = count + 1 + inside + 1 + behind := by omega
    rw [total]
    have called := before.step taken
    rw [pendingAfter_call found] at called
    have returned := (inner called).step back
    rw [pendingAfter_return ended] at returned
    exact ih returned

private theorem calls_write (state : State) (place : Place) (value : Word) : (state.write place value).calls = state.calls := by
  cases place with
  | register register => rfl
  | memory base below => rfl

theorem calls_jump {label : String} (jumped : jump program state label = .ok (.next next)) :
    next.calls = state.calls := by
  rw [jump] at jumped
  split at jumped
  · cases jumped
    rfl
  · cases jumped

/-- Only a call is counted. -/
theorem calls_plain {instruction : Instruction} (found : program.code[state.address]? = some (.ok instruction))
    (plain : Plain instruction) (taken : step program state = .ok (.next next)) : next.calls = state.calls := by
  rw [step, found] at taken
  cases instruction with
  | call label => cases plain
  | ret => cases plain
  | push source | cmp left right =>
    cases taken
    rfl
  | pop target | mov target source | movzb target source | arithmetic operation target source | cqo
  | set condition target =>
    cases taken
    exact calls_write _ _ _
  | idiv divisor =>
    simp only [execute, divide] at taken
    split at taken
    · cases taken
    · cases taken
      rfl
  | je label =>
    simp only [execute] at taken
    split at taken
    · exact calls_jump taken
    · cases taken
      rfl
  | jmp label => exact calls_jump taken

private theorem calls_call {label : String} (found : program.code[state.address]? = some (.ok (.call label)))
    (taken : step program state = .ok (.next next)) : next.calls = state.calls + 1 := by
  rw [step, found] at taken
  simp only [execute, enter] at taken
  split at taken
  · exact calls_jump taken
  · cases taken

/-- A return takes the address off the stack and leaves everything else. -/
theorem next_of_return (found : program.code[state.address]? = some (.ok .ret))
    (taken : step program state = .ok (.next next)) :
    next.calls = state.calls ∧ next.registers.read Register.rax = state.registers.read Register.rax := by
  rw [step, found] at taken
  simp only [execute, leave] at taken
  split at taken
  · cases taken
  · split at taken
    · cases taken
    · cases taken
      exact ⟨rfl, read_move _ _ (by decide) (by decide)⟩

/-- The calls of an activation have numbers of their own, which grow. -/
structure Counted (first : Nat) (answers : List Answer) : Prop where
  above : ∀ answer ∈ answers, first < answer.number
  growing : answers.Pairwise fun earlier later => earlier.number < later.number

private theorem Counted.cons {first : Nat} {answer : Answer} (counted : Counted answer.calls answers)
    (new : first < answer.number) (later : answer.number ≤ answer.calls) : Counted first (answer :: answers) := by
  refine ⟨List.forall_mem_cons.mpr ⟨new, fun other member => ?_⟩,
    List.pairwise_cons.mpr ⟨fun other member => ?_, counted.growing⟩⟩
  · have above := counted.above other member
    omega
  · have above := counted.above other member
    omega

theorem Proceeds.counted (proceeds : Proceeds program steps state answers last) :
    Counted state.calls answers ∧ state.calls ≤ last.calls := by
  induction proceeds with
  | still => exact ⟨⟨fun _ none => (nomatch none), .nil⟩, Nat.le_refl _⟩
  | plain found plain taken _ ih =>
    rw [← calls_plain found plain taken]
    exact ih
  | call found taken _ ended back _ inner ih =>
    have more := calls_call found taken
    have same := (next_of_return ended back).1
    have later := inner.2
    rw [more] at later
    rw [same] at ih
    have further := ih.2
    exact ⟨ih.1.cons (Nat.lt_succ_self _) later, by omega⟩

end

/-- What holds along the executions of a compiled listing, up to a number of steps: each step has
room, and a return puts back what the latest pending call found. -/
structure Disciplined (program : Program) (start : State) (limit : Nat) : Prop where
  fits : ∀ {count pending state}, Execution program start count pending state → count < limit → Fits program state
  returned : ∀ {count pending state next}, Execution program start count pending state → count < limit →
    program.code[state.address]? = some (.ok .ret) → step program state = .ok (.next next) →
    ∃ caller rest, pending = caller :: rest ∧ Restores caller next

theorem disciplined_of_safe {program : Program} {allowed : Fault → Prop} {start : State} {limit : Nat}
    (safe : Safe program allowed limit [] start) (fits : FitsFor program limit start) :
    Disciplined program start limit := by
  have further {count : Nat} {pending : List State} {state : State}
      (execution : Execution program start count pending state) (limited : count < limit) :
      Safe program allowed (limit - count - 1 + 1) pending state ∧
        FitsFor program (limit - count - 1 + 1) state := by
    have total : count + (limit - count - 1 + 1) = limit := by omega
    refine execution.safe _ ?_ ?_
    · rwa [total]
    · rwa [total]
  refine ⟨fun execution limited => (further execution limited).2.1, ?_⟩
  intro count pending state next execution limited returning taken
  obtain ⟨here, room⟩ := further execution limited
  have first := here room.1
  rw [taken] at first
  exact first.returned returning

/-- The activations that an execution is in the middle of: the first one, and that of each pending
call. -/
inductive Nested (program : Program) (start : State) : Nat → List State → State → Prop where
  | first {steps : Nat} {answers : List Answer} {state : State}
      (proceeds : Proceeds program steps start answers state) : Nested program start steps [] state
  | inner {before steps : Nat} {answers : List Answer} {pending : List State} {caller entered state : State}
      {label : String} (outer : Nested program start before pending caller)
      (found : program.code[caller.address]? = some (.ok (.call label)))
      (taken : step program caller = .ok (.next entered))
      (proceeds : Proceeds program steps entered answers state) :
      Nested program start (before + 1 + steps) (caller :: pending) state

section
variable {program : Program} {start state next : State} {steps count limit : Nat}
  {answers : List Answer} {pending : List State}

private theorem Nested.proceed (nested : Nested program start count pending state)
    (onward : Proceeds program steps state answers next) : Nested program start (count + steps) pending next := by
  cases nested with
  | first proceeds => exact .first (proceeds.trans onward)
  | inner outer found taken proceeds =>
    rw [Nat.add_assoc]
    exact .inner outer found taken (proceeds.trans onward)

theorem Nested.execution (nested : Nested program start count pending state) :
    Execution program start count pending state := by
  induction nested with
  | first proceeds =>
    have execution := proceeds.execution .start
    rwa [Nat.zero_add] at execution
  | inner _ found taken proceeds ih =>
    refine proceeds.execution ?_
    have called := ih.step taken
    rwa [pendingAfter_call found] at called

private theorem found_of_step (taken : step program state = .ok (.next next)) :
    ∃ instruction, program.code[state.address]? = some (.ok instruction) := by
  rw [step] at taken
  split at taken
  next => cases taken
  next => cases taken
  next instruction found => exact ⟨instruction, found⟩

/-- One step of the machine proceeds in an activation, begins one, or ends one. -/
theorem Nested.step (disciplined : Disciplined program start limit) (limited : count < limit)
    (nested : Nested program start count pending state) (taken : Machine.step program state = .ok (.next next)) :
    Nested program start (count + 1) (pendingAfter program pending state) next := by
  obtain ⟨instruction, found⟩ := found_of_step taken
  by_cases plain : Plain instruction
  · rw [pendingAfter_plain found plain]
    exact nested.proceed (.plain found plain taken .still)
  · cases instruction with
    | call label =>
      rw [pendingAfter_call found]
      exact .inner nested found taken .still
    | ret =>
      rw [pendingAfter_return found]
      obtain ⟨caller, rest, same, -⟩ := disciplined.returned nested.execution limited found taken
      subst same
      cases nested with
      | @inner before steps _ _ _ _ _ _ outer calling entering proceeds =>
        have onward := outer.proceed (.call calling entering proceeds found taken .still)
        have total : before + (steps + 0 + 2) = before + 1 + steps + 1 := by omega
        rwa [total] at onward
    | _ => exact absurd trivial plain

theorem nested_of_execution (disciplined : Disciplined program start limit)
    (execution : Execution program start count pending state) (limited : count ≤ limit) :
    Nested program start count pending state := by
  induction execution with
  | start => exact .first .still
  | step _ taken ih => exact (ih (by omega)).step disciplined limited taken

end

/-- An execution is within an activation that was entered by the latest pending call, or at the start
if no call is pending. -/
structure Within (program : Program) (start : State) (count : Nat) (pending : List State) (entered : State)
    (answers : List Answer) (state : State) : Prop where
  begins : match pending with
    | [] => entered = start
    | caller :: _ => step program caller = .ok (.next entered)
  proceeds : ∃ before steps, before + steps = count ∧ Execution program start before pending entered ∧
    Proceeds program steps entered answers state

end Stackwise.Proofs.ActivationRuns
