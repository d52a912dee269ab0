import Stackwise.Proofs.ActivationRuns
import Stackwise.Proofs.ExecutedStatements

/-! What an activation hands back. A return hands back its value. An activation that falls off the
end of its body hands back what its latest event left in `rax`: the value of an expression statement,
but also that of a test, for the machine tests a value by taking it off the stack into `rax`. -/

namespace Stackwise.Proofs.ActivationResults
open Assembly Machine Lowering SourceTerms EmittedListing Loading StackRoom Frames CodeLogic Activations
  Reference Requirements BodyRuns SafeRuns ListingSafety CallDiscipline ActivationRuns ExecutedStatements

def Enters (source : List Term) (machine : Program) (state : State) : Prop :=
  ∃ function ∈ functions source, ∃ start final body stack,
    Installed (fun callee count => (callee, count) ∈ calls source) machine function start final body state.address ∧
      Entry stack state

/-- What is shown of a state that an activation has come to: a return meets the postcondition, and a
call enters another function. -/
structure Arrives (source : List Term) (machine : Program) (Post : State → Prop) (last : State) : Prop where
  returning : machine.code[last.address]? = some (.ok .ret) → Post last
  calling : ∀ {label callee}, machine.code[last.address]? = some (.ok (.call label)) →
    step machine last = .ok (.next callee) → Enters source machine callee

/-- Wherever an activation proceeds to, it arrives, if its calls are answered as is recorded. -/
def Leads (source : List Term) (machine : Program) (start : State) (limit : Nat) (pending : List State)
    (recorded : List Answer) (Post : State → Prop) (state : State) : Prop :=
  ∀ before steps answers last, Execution machine start before pending state →
    Proceeds machine steps state answers last → before + steps < limit → answers ⊆ recorded →
    Arrives source machine Post last

section
variable {source : List Term} {listing : Listing} {machine : Program} {start : State} {limit : Nat}
  {pending : List State} {recorded : List Answer} {Post : State → Prop} {state : State}

private theorem leads_backward (disciplined : Disciplined machine start limit) :
    Backward machine (Leads source machine start limit pending recorded Post) := by
  constructor
  · intro state overflow before steps answers last execution _ limited _
    exact absurd (disciplined.fits execution (by omega)) overflow
  · intro state next instruction found plain executed _ leads before steps answers last execution proceeds limited
      known
    have taken : step machine state = .ok (.next next) := by
      rw [step, found]
      exact executed
    cases proceeds with
    | still =>
      refine ⟨fun returning => ?_, fun calling _ => ?_⟩
      · rw [found] at returning
        cases returning
        cases plain
      · rw [found] at calling
        cases calling
        cases plain
    | plain _ _ also onward =>
      cases taken.symm.trans also
      have further := execution.step taken
      rw [pendingAfter_plain found plain] at further
      exact leads _ _ _ _ further onward (by omega) known
    | call calling =>
      rw [found] at calling
      cases calling
      cases plain

private theorem leads_of_return (found : machine.code[state.address]? = some (.ok .ret)) (post : Post state) :
    Leads source machine start limit pending recorded Post state := by
  intro before steps answers last _ proceeds _ _
  cases proceeds with
  | still =>
    refine ⟨fun _ => post, fun calling _ => ?_⟩
    rw [found] at calling
    cases calling
  | plain other plain =>
    rw [found] at other
    cases other
    cases plain
  | call calling =>
    rw [found] at calling
    cases calling

private theorem leads_of_fault {fault : Fault} (failed : step machine state = .error fault) (allowed : Allowed source fault) :
    Leads source machine start limit pending recorded Post state := by
  intro before steps answers last _ proceeds _ _
  cases proceeds with
  | still =>
    refine ⟨fun returning => absurd failed (step_of_return returning allowed), fun _ taken => ?_⟩
    rw [failed] at taken
    cases taken
  | plain _ _ taken =>
    rw [failed] at taken
    cases taken
  | call _ taken =>
    rw [failed] at taken
    cases taken

end

section
variable {source : List Term} {listing : Listing} {machine : Program} {start : State} {limit : Nat}
  {pending : List State} {recorded : List Answer} {Post : State → Prop} {frame : Frame}
  {contents : String → Word} {words : List Word} {address calls : Nat} {state next : State}

/-- A return to the caller gives it its frame back. -/
theorem stands_of_restores (stands : Stands frame contents words address calls state) (restores : Restores state next) :
    Stands frame contents words (address + 1) next.calls next := by
  refine ⟨stands.framed.of_same restores.base restores.stack ?_, stands.address ▸ restores.address, rfl⟩
  intro asked above below
  have lower := stands.framed.room
  refine restores.memory (Int64.ofInt asked) ?_
  rw [Int64.le_iff_toInt_le, toInt_ofInt ⟨by omega, below⟩]
  exact Int.le_trans (Int.le_of_eq stands.depthOf_eq) above

/-- A call enters a function of the program, if it does not fail. -/
theorem enters_of_call (image : Image source listing machine) (sized : span listing < 0x8000000000000000)
    {label : String} {callee : State} (identifier : Identifier label)
    (found : machine.code[address]? = some (.ok (.call label)))
    (stands : Stands frame contents words address calls state) (even : words.length % 2 = 0)
    (fits : Fits machine state) (taken : step machine state = .ok (.next callee)) : Enters source machine callee := by
  rw [call_steps found stands even] at taken
  by_cases known : ∃ function ∈ functions source, function.name = label
  · obtain ⟨function, member, rfl⟩ := known
    obtain ⟨start, final, body, target, installed⟩ := image.installed function member
    rw [installed.labelled] at taken
    cases taken
    have call := call_of_fits target found (image.succ_lt sized found) stands even fits
    exact ⟨function, member, start, final, body, _, installed, call.entry⟩
  · rw [image.missing label identifier fun function member same => known ⟨function, member, same⟩] at taken
    cases taken

/-- A call leads on if going on behind it does, with any answer that is recorded for it. -/
theorem leads_of_call (image : Image source listing machine) (sized : span listing < 0x8000000000000000)
    (disciplined : Disciplined machine start limit) {label : String} (identifier : Identifier label)
    (found : machine.code[address]? = some (.ok (.call label)))
    (stands : Stands frame contents words address calls state) (even : words.length % 2 = 0)
    (onward : ∀ answer ∈ recorded, answer.number = calls + 1 → ∀ next,
      next.registers.read Register.rax = answer.value →
      Stands frame contents words (address + 1) answer.calls next →
      Leads source machine start limit pending recorded Post next) :
    Leads source machine start limit pending recorded Post state := by
  intro before steps answers last execution proceeds limited known
  have here := stands.address ▸ found
  cases proceeds with
  | still =>
    refine ⟨fun returning => ?_, fun calling taken => ?_⟩
    · rw [here] at returning
      cases returning
    · exact enters_of_call image sized identifier found stands even (disciplined.fits execution (by omega)) taken
  | plain other plain =>
    rw [here] at other
    cases other
    cases plain
  | @call inside behind _ answers _ _ returning next _ _ _ taken body ended back rest =>
    obtain ⟨answered, others⟩ := List.cons_subset.mp known
    have called := execution.step taken
    rw [pendingAfter_call here] at called
    have reached := body.execution called
    obtain ⟨_, _, same, restores⟩ := disciplined.returned reached (by omega) ended back
    cases same
    have returned := reached.step back
    rw [pendingAfter_return ended] at returned
    obtain ⟨count, result⟩ := next_of_return ended back
    refine onward _ answered (by rw [stands.calls]) next result ?_ _ _ _ _ returned rest (by omega) others
    rw [← count]
    exact stands_of_restores stands restores

end

def repliesOf (answers : List Answer) : Replies := fun number =>
  (answers.find? (·.number = number)).map fun answer => (answer.value, answer.calls)

private theorem find?_number {first : Nat} {answers : List Answer} (counted : Counted first answers) {answer : Answer}
    (member : answer ∈ answers) : answers.find? (·.number = answer.number) = some answer := by
  obtain ⟨earlier, later, rfl⟩ := List.append_of_mem member
  rw [List.find?_eq_some_iff_append]
  refine ⟨by simp, earlier, later, rfl, fun other before => ?_⟩
  have less := (List.pairwise_append.mp counted.growing).2.2 other before answer (List.mem_cons_self ..)
  have different : other.number ≠ answer.number := by omega
  simp [different]

/-- Calls are answered as is recorded, and what is returned is the result of the record. -/
def recalled (answers : List Answer) (ended : Except Exit (Int64 × Recording)) : Surroundings where
  answer := fun _ _ number post => ∀ answer ∈ answers, answer.number = number → post answer.value answer.calls
  interrupted := fun
    | .returned value made => Reference.result (erased ended) = .ok (value, made)
    | .unassigned _ => False
    | .dividedByZero | .undefined _ | .tooDeep => True
  widen := fun accepted implies answer member same => implies _ _ (accepted answer member same)

private theorem recalled_answers {first : Nat} {answers : List Answer} (counted : Counted first answers)
    (ended : Except Exit (Int64 × Recording)) :
    Requirements.Answers (recalled answers ended) (repliesOf answers).caller := by
  intro callee arguments number post accepted answer member same
  subst same
  simp only [Replies.caller, repliesOf, find?_number counted member] at accepted
  exact accepted

/-- The terms of a body require no more than what its record tells. -/
theorem recalled_requires {first : Nat} {answers : List Answer} (counted : Counted first answers) {body : List Term}
    {recording : Recording} {ended : Except Exit (Int64 × Recording)}
    (recorded : recordBody (repliesOf answers) body recording = ended) :
    RequiresBody (recalled answers ended) body recording.erase
      fun _ after => (recalled answers ended).interrupted (.returned after.last after.calls) := by
  have accepted : Accepted (recalled answers ended)
      (fun found => (recalled answers ended).interrupted (.returned found.2.last found.2.calls))
      (evaluateBody (repliesOf answers).caller body recording.erase) := by
    rw [evaluateBody_erase, recorded]
    match ended with
    | .ok (_, _) | .error (.returned _ _) => rfl
    | .error .dividedByZero | .error .unanswered => trivial
  exact requiresBody_of_evaluate (recalled_answers counted ended) (fun _ unassigned => unassigned) body accepted

/-- The record that an activation begins with. Its parameters hold the arguments. -/
def begun (function : Definition) (entered : State) (held : String → Word) : Recording :=
  ⟨storeAll entered.registers (function.parameters.zip argumentRegisters) held, [], entered.calls⟩

/-- A state in which an activation returns has the result of its record, which depends on what its
variables held before they were assigned. -/
def HandsBack (function : Definition) (entered : State) (answers : List Answer) (last : State) : Prop :=
  ∃ held, Reference.result (erased (recordBody (repliesOf answers) function.body (begun function entered held))) =
    .ok (last.registers.read Register.rax, last.calls)

section
variable {source : List Term} {listing : Listing} {machine : Program} {start state : State} {limit count : Nat}
  {pending : List State} {answers : List Answer}

private theorem recalled_services (image : Image source listing machine) (sized : span listing < 0x8000000000000000)
    (disciplined : Disciplined machine start limit) (Post : State → Prop) (ended : Except Exit (Int64 × Recording)) :
    Services (fun callee count => (callee, count) ∈ calls source) machine
      (Leads source machine start limit pending answers Post) (recalled answers ended) := by
  refine ⟨leads_backward disciplined, fun _ state failed => leads_of_fault failed trivial, ?_⟩
  intro frame callee values post contents words address calls state identifier called found stands even given
    answered onward
  refine leads_of_call image sized disciplined identifier found stands even ?_
  intro answer member same next result there
  exact onward _ _ next (answered answer member same) result there

/-- An activation returns with the result of its record. -/
theorem entered_leads (image : Image source listing machine) (sized : span listing < 0x8000000000000000)
    (disciplined : Disciplined machine start limit) {first : Nat} (counted : Counted first answers)
    {function : Definition} {before final : Allocation} {body : Listing} {stack : Int} {entered : State}
    (installed : Installed (fun callee count => (callee, count) ∈ calls source) machine function before final body
      entered.address) (entry : Entry stack entered) :
    Leads source machine start limit pending answers (HandsBack function entered answers) entered := by
  have agrees (held : String → Word) :
      Agrees ⟨fun name => some ((begun function entered held).store name), 0, entered.calls⟩
        (storeAll entered.registers (function.parameters.zip argumentRegisters) held) :=
    fun name value known => Option.some.inj known
  refine function_runs_held (fun held => recalled_services image sized disciplined _
    (recordBody (repliesOf answers) function.body (begun function entered held))) installed entry rfl agrees ?_
    fun held => recalled_requires counted rfl
  intro held value made last returned finished count result
  refine leads_of_return finished.found ⟨held, ?_⟩
  rw [count, result]
  exact returned

theorem arrives_of_within (image : Image source listing machine) (sized : span listing < 0x8000000000000000)
    (disciplined : Disciplined machine start limit) {entered : State} (enters : Enters source machine entered)
    (within : Within machine start count pending entered answers state) (limited : count < limit) :
    ∃ function ∈ functions source, machine.labels.get? function.name = some entered.address ∧
      Arrives source machine (HandsBack function entered answers) state := by
  obtain ⟨function, member, before, final, body, stack, installed, entry⟩ := enters
  obtain ⟨earlier, steps, total, execution, proceeds⟩ := within.proceeds
  have leads : Leads source machine start limit pending answers (HandsBack function entered answers) entered :=
    entered_leads image sized disciplined proceeds.counted.1 installed entry
  exact ⟨function, member, installed.labelled, leads _ _ _ _ execution proceeds (by omega) (List.Subset.refl _)⟩

/-- The innermost of nested activations was entered as a function. -/
theorem within_of_nested (image : Image source listing machine) (sized : span listing < 0x8000000000000000)
    (disciplined : Disciplined machine start limit) (first : Enters source machine start)
    (nested : Nested machine start count pending state) (limited : count < limit) :
    ∃ entered answers, Within machine start count pending entered answers state ∧
      Enters source machine entered := by
  induction nested with
  | first proceeds => exact ⟨start, _, ⟨rfl, 0, _, Nat.zero_add _, .start, proceeds⟩, first⟩
  | inner outer found taken proceeds ih =>
    obtain ⟨_, _, within, enters⟩ := ih (by omega)
    obtain ⟨_, _, _, arrives⟩ := arrives_of_within image sized disciplined enters within (by omega)
    have execution := outer.execution.step taken
    rw [pendingAfter_call found] at execution
    exact ⟨_, _, ⟨taken, _, _, rfl, execution, proceeds⟩, arrives.calling found taken⟩

end

/-- The value that an activation leaves, by the record of it. Where it falls off its end, the value
is that of the latest event, and so it is that of the latest expression statement only if the latest
event is no test of another value. -/
def Leaves (value : Word) : Except Exit (Int64 × Recording) → Prop
  | .ok (_, recording) =>
    value = latest recording.events ∧
      (value = promised recording.events ↔
        ∀ tested, recording.events.head? = some (.test tested) → tested = promised recording.events)
  | .error (.returned returned _) => value = returned
  | .error .dividedByZero | .error .unanswered => False

private theorem leaves_of_result {value : Word} {made : Nat} {ended : Except Exit (Int64 × Recording)}
    (handed : Reference.result (erased ended) = .ok (value, made)) : Leaves value ended := by
  match ended with
  | .ok (_, recording) =>
    cases handed
    exact ⟨rfl, latest_eq_promised_iff recording.events⟩
  | .error (.returned _ _) =>
    cases handed
    rfl
  | .error .dividedByZero | .error .unanswered => cases handed

/-- Wherever an execution of a compiled listing returns, it ends an activation of a function of the
source, and `rax` holds what the record of that activation says. -/
theorem return_leaves_record {source : String} {listing : Listing} {program : List Term} {machine : Program}
    {address count : Nat} {pending : List State} {state : State} (compiled : compile source = .ok listing)
    (noOverflow : NoOverflow listing) (accepted : readSource source = .ok program)
    (loaded : Program.load (Listing.text listing) = .ok machine) (target : machine.target entry = .ok address)
    (execution : Execution machine (startState initialRegisters (0, 0) address) count pending state)
    (limited : count < maxSteps) (returning : machine.code[state.address]? = some (.ok .ret)) :
    ∃ entered answers,
      Within machine (startState initialRegisters (0, 0) address) count pending entered answers state ∧
      ∃ function ∈ functions program, machine.labels.get? function.name = some entered.address ∧
        ∃ held, Leaves (state.registers.read Register.rax)
          (recordBody (repliesOf answers) function.body (begun function entered held)) := by
  obtain ⟨other, found, read, -, image⟩ := compile_image compiled noOverflow.sizes
  have same : program = other := Except.ok.inj (accepted.symm.trans read)
  have equal : machine = found := Except.ok.inj (loaded.symm.trans image.loaded)
  subst same equal
  have sized := noOverflow.addresses
  have disciplined := disciplined_of_safe (start_safe image sized maxSteps target)
    (noOverflow.stack machine address loaded target)
  obtain ⟨start, final, body, installed⟩ := image.entered target
  have first : Enters program machine (startState initialRegisters (0, 0) address) :=
    ⟨_, List.mem_cons_self .., start, final, body, initialStack, installed, startState_entry _ _⟩
  obtain ⟨entered, answers, within, enters⟩ := within_of_nested image sized disciplined first
    (nested_of_execution disciplined execution (by omega)) limited
  obtain ⟨function, member, labelled, arrives⟩ := arrives_of_within image sized disciplined enters within limited
  obtain ⟨held, handed⟩ := arrives.returning returning
  exact ⟨entered, answers, within, function, member, labelled, held, leaves_of_result handed⟩

/-- A call returns from a function whose conditional tests the value seven after a statement of the
value three. -/
theorem idleConditional_leaves_record :
    ∃ listing program machine address caller rest state entered answers,
      compile "def f(a)\x7b3;if(a)\x7b\x7d\x7df(7);" = .ok listing ∧ NoOverflow listing ∧
      readSource "def f(a)\x7b3;if(a)\x7b\x7d\x7df(7);" = .ok program ∧
      Program.load (Listing.text listing) = .ok machine ∧ machine.target entry = .ok address ∧
      machine.code[state.address]? = some (.ok .ret) ∧
      Within machine (startState initialRegisters (0, 0) address) 26 (caller :: rest) entered answers state ∧
      ∃ function ∈ functions program, machine.labels.get? function.name = some entered.address ∧
        ∃ held, Leaves (state.registers.read Register.rax)
          (recordBody (repliesOf answers) function.body (begun function entered held)) := by
  obtain ⟨listing, compiled, noOverflow⟩ := exists_of_compilesModestly
    (show compilesModestly "def f(a)\x7b3;if(a)\x7b\x7d\x7df(7);" = true by decide +kernel)
  obtain ⟨program, machine, accepted, -, image⟩ := compile_image compiled noOverflow.sizes
  obtain ⟨address, target⟩ := image.target_entry
  have returns : returnsAfter "def f(a)\x7b3;if(a)\x7b\x7d\x7df(7);" 26 = true := by decide +kernel
  simp only [returnsAfter, compiled, image.assembled, target] at returns
  obtain ⟨caller, rest, state, reached, found⟩ := exists_of_isReturning returns
  obtain ⟨entered, answers, within, left⟩ := return_leaves_record compiled noOverflow accepted image.loaded target
    (execution_of_executed reached) (by decide) found
  exact ⟨listing, program, machine, address, caller, rest, state, entered, answers, compiled, noOverflow, accepted,
    image.loaded, target, found, within, left⟩

private def runsTo (source : String) (outcome : Outcome) : Bool :=
  match compile source with
  | .error _ => false
  | .ok listing =>
    match Program.empty.addAll (listing.filterMap ListingText.entry?) with
    | .error _ => false
    | .ok machine =>
      match machine.target entry with
      | .error _ => false
      | .ok address =>
        match runFor machine maxSteps (startState initialRegisters (0, 0) address) with
        | .error _ => false
        | .ok other => decide (other = outcome)

private theorem run_of_runsTo {source : String} {outcome : Outcome} {listing : Listing} (runs : runsTo source outcome = true)
    (compiled : compile source = .ok listing) (noOverflow : NoOverflow listing) :
    run (Listing.text listing) = .ok outcome := by
  obtain ⟨program, machine, -, -, image⟩ := compile_image compiled noOverflow.sizes
  obtain ⟨address, target⟩ := image.target_entry
  rw [run_eq_runFor image.loaded target]
  simp only [runsTo, compiled, image.assembled, target] at runs
  split at runs
  next => cases runs
  next other ended =>
    rw [ended, of_decide_eq_true runs]

private def recordsTo (source : String) (events : List Event) : Bool :=
  match readSource source with
  | .error _ => false
  | .ok program =>
    match recordBody (fun _ => none) program ⟨fun _ => 0, [], 0⟩ with
    | .error _ => false
    | .ok (_, recording) => decide (recording.events = events)

private theorem exists_of_recordsTo {source : String} {events : List Event} (records : recordsTo source events = true) :
    ∃ program value recording, readSource source = .ok program ∧
      recordBody (fun _ => none) program ⟨fun _ => 0, [], 0⟩ = .ok (value, recording) ∧
      recording.events = events := by
  rw [recordsTo] at records
  split at records
  next => cases records
  next program accepted =>
    split at records
    next => cases records
    next value recording recorded =>
      exact ⟨program, value, recording, accepted, recorded, of_decide_eq_true records⟩

/-- A conditional without statements leaves the value that it tests, though no expression statement
is executed. -/
theorem idleConditional_leaves_test :
    ∃ listing program value recording, compile "if(5)\x7b\x7d" = .ok listing ∧
      readSource "if(5)\x7b\x7d" = .ok program ∧
      recordBody (fun _ => none) program ⟨fun _ => 0, [], 0⟩ = .ok (value, recording) ∧
      recording.events = [.test 5] ∧ promised recording.events = 0 ∧
      run (Listing.text listing) = .ok ⟨5, 0⟩ := by
  obtain ⟨listing, compiled, noOverflow⟩ := exists_of_compilesModestly
    (show compilesModestly "if(5)\x7b\x7d" = true by decide +kernel)
  obtain ⟨program, value, recording, accepted, recorded, tested⟩ := exists_of_recordsTo
    (show recordsTo "if(5)\x7b\x7d" [.test 5] = true by decide +kernel)
  have ran := run_of_runsTo (show runsTo "if(5)\x7b\x7d" ⟨5, 0⟩ = true by decide +kernel) compiled noOverflow
  refine ⟨listing, program, value, recording, compiled, accepted, recorded, tested, ?_, ran⟩
  rw [tested]
  rfl

end Stackwise.Proofs.ActivationResults
