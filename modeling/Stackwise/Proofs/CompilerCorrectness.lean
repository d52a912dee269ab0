import Stackwise.Proofs.ListingSafety

/-! The compiler is correct: where the evaluation of a program ends, the run of its listing ends with
the same value after the same number of calls, or with the fault that stands for what stopped the
evaluation. Nested calls are followed by induction on the depth of the evaluation. -/

namespace Stackwise.Proofs.CompilerCorrectness
open Assembly Machine Lowering SourceTerms EmittedListing Loading StackRoom Frames CodeLogic Activations
  Reference Requirements BodyRuns ListingSafety

/-- The result of a run that stands for an interrupted evaluation. A return is none, and a run goes
on where a variable is not assigned or the evaluation is given up. -/
def Reports (result : Except Fault Outcome) : Interrupt → Prop
  | .dividedByZero => result = .error .divisionByZero
  | .undefined callee => result = .error (.undefinedLabel callee)
  | .returned .. | .unassigned _ | .tooDeep => False

/-- A call was answered in a way that is accepted, or the result stands for what interrupted it. -/
def Answered (result : Except Fault Outcome) (post : Int64 → Nat → Prop) :
    Except Interrupt (Int64 × Nat) → Prop
  | .ok (value, calls) => post value calls
  | .error interrupt => Reports result interrupt

/-- A run has the result from some number of steps on, and is given up before. -/
def Ends (program : Program) (result : Except Fault Outcome) (state : State) : Prop :=
  ∃ steps, ∀ limit, FitsFor program limit state →
    runFor program limit state = if limit < steps then .error .stepLimit else result

section
variable {program : Program} {result : Except Fault Outcome} {state next : State}

theorem ends_of_next (taken : step program state = .ok (.next next))
    (ends : Fits program state → Ends program result next) : Ends program result state := by
  by_cases fits : Fits program state
  · obtain ⟨steps, reaches⟩ := ends fits
    refine ⟨steps + 1, fun limit room => ?_⟩
    cases limit with
    | zero => rw [runFor, if_pos (Nat.succ_pos steps)]
    | succ limit =>
      simp only [runFor, taken, Nat.add_lt_add_iff_right]
      exact reaches limit (room.2 next taken)
  · refine ⟨1, fun limit room => ?_⟩
    cases limit with
    | zero => rfl
    | succ limit => exact absurd room.1 fits

/-- A run ends where a step halts or fails. -/
theorem ends_of_last (last : runFor program 1 state = result) (ending : ∀ next, step program state ≠ .ok (.next next)) :
    Ends program result state := by
  refine ⟨1, fun limit _ => ?_⟩
  cases limit with
  | zero => rfl
  | succ limit =>
    subst last
    simp only [runFor, Nat.lt_one_iff, Nat.add_one_ne_zero, if_false]
    cases taken : step program state with
    | error fault => rfl
    | ok transition =>
      cases transition with
      | halt outcome => rfl
      | next next => exact absurd taken (ending next)

theorem ends_of_fault {fault : Fault} (failed : step program state = .error fault)
    (same : result = .error fault) : Ends program result state := by
  subst same
  refine ends_of_last (by simp only [runFor, failed]) fun next taken => ?_
  rw [failed] at taken
  cases taken

private theorem ends_backward : Backward program (Ends program result) := by
  constructor
  · intro state overflow
    refine ⟨1, fun limit room => ?_⟩
    cases limit with
    | zero => rfl
    | succ limit => exact absurd room.1 overflow
  · intro state next instruction found _ executed _ ends
    have taken : step program state = .ok (.next next) := by
      rw [step, found]
      exact executed
    exact ends_of_next taken fun _ => ends

end

/-- Calls are answered by evaluation to a depth, and a return hands over what is accepted. -/
def faithful (functions : List Definition) (depth : Nat) (result : Except Fault Outcome)
    (finish : Int64 → Nat → Prop) : Surroundings where
  answer := fun callee arguments calls post =>
    Answered result post (activate functions depth callee arguments calls)
  interrupted := fun
    | .returned value calls => finish value calls
    | interrupt => Reports result interrupt
  widen := by
    intro callee arguments calls first second answered implies
    cases ended : activate functions depth callee arguments calls with
    | ok answer =>
      rw [ended] at answered
      exact implies _ _ answered
    | error interrupt =>
      rw [ended] at answered
      exact answered

private theorem result_ne_returned (ended : Except Interrupt (Int64 × Activation)) (value : Int64) (made : Nat) :
    Reference.result ended ≠ .error (.returned value made) := by
  match ended with
  | .ok (_, _) | .error (.returned _ _) | .error .dividedByZero | .error (.unassigned _) | .error (.undefined _)
  | .error .tooDeep =>
    intro same
    cases same

private theorem activate_ne_returned {functions : List Definition} {depth : Nat} {callee : String} {arguments : List Int64}
    {calls made : Nat} {value : Int64} :
    activate functions depth callee arguments calls ≠ .error (.returned value made) := by
  cases depth with
  | zero =>
    intro same
    cases same
  | succ depth =>
    rw [activate]
    split
    · intro same
      cases same
    · exact result_ne_returned _ value made

private theorem faithful_answers (functions : List Definition) (depth : Nat) (result : Except Fault Outcome)
    (finish : Int64 → Nat → Prop) :
    Answers (faithful functions depth result finish) (activate functions depth) := by
  intro callee arguments calls post accepted
  show Answered result post (activate functions depth callee arguments calls)
  cases ended : activate functions depth callee arguments calls with
  | ok answer =>
    rw [ended] at accepted
    exact accepted
  | error interrupt =>
    rw [ended] at accepted
    cases interrupt with
    | returned value made => exact absurd ended activate_ne_returned
    | dividedByZero | unassigned name | undefined callee | tooDeep => exact accepted

/-- Entering a function leads to the result, if returning with its answer does. -/
def EntryEnds (source : List Term) (machine : Program) (result : Except Fault Outcome) (depth : Nat) : Prop :=
  ∀ function ∈ functions source, ∀ start final body address,
    Installed (fun callee count => (callee, count) ∈ calls source) machine function start final body address →
    ∀ stack state values, Entry stack state → state.address = address →
    (argumentRegisters.take values.length).map state.registers.read = values →
    function.parameters.length ≤ values.length →
    Answered result (fun value made => ∀ last, Finished machine stack state last → last.calls = made →
        last.registers.read Register.rax = value → Ends machine result last)
      (activate (functions source) depth function.name values state.calls) →
    Ends machine result state

section
variable {source : List Term} {listing : Listing} {machine : Program} {result : Except Fault Outcome}
  {depth : Nat} {frame : Frame} {contents : String → Word} {words : List Word} {address calls : Nat} {state : State}

/-- A call leads to the result, if going on behind it with its answer does. -/
theorem call_ends (image : Image source listing machine) (symbols : Symbols source)
    (sized : span listing < 0x8000000000000000) (callees : EntryEnds source machine result depth) {callee : String}
    {values : List Word} {post : Int64 → Nat → Prop} (identifier : Identifier callee)
    (called : (callee, values.length) ∈ Stackwise.calls source)
    (found : machine.code[address]? = some (.ok (.call callee)))
    (stands : Stands frame contents words address calls state) (even : words.length % 2 = 0)
    (given : (argumentRegisters.take values.length).map state.registers.read = values)
    (answered : Answered result post (activate (functions source) depth callee values (calls + 1)))
    (onward : ∀ value made next, post value made → next.registers.read Register.rax = value →
      Stands frame contents words (address + 1) made next → Ends machine result next) :
    Ends machine result state := by
  have taken := call_steps found stands even
  by_cases known : ∃ function ∈ functions source, function.name = callee
  · obtain ⟨function, member, rfl⟩ := known
    obtain ⟨start, final, body, target, installed⟩ := image.installed function member
    rw [installed.labelled] at taken
    refine ends_of_next taken fun fits => ?_
    have call := call_of_fits target found (image.succ_lt sized found) stands even fits
    have passed : (argumentRegisters.take values.length).map (entered state target).registers.read = values := by
      refine Eq.trans (List.map_congr_left fun register argument => ?_) given
      have scratch := CodeFragments.scratch_argument (List.mem_of_mem_take argument)
      exact read_move _ _ scratch.1 scratch.2.2
    have count : (entered state target).calls = calls + 1 := by
      rw [← stands.calls]
      rfl
    refine callees function member start final body target installed _ _ values call.entry rfl passed
      (symbols.arity _ _ called function member rfl) ?_
    rw [count]
    cases ended : activate (functions source) depth function.name values (calls + 1) with
    | error interrupt =>
      rw [ended] at answered
      exact answered
    | ok answer =>
      rw [ended] at answered
      intro last finished made held
      refine ends_of_next (call.returning last finished) fun _ => ?_
      refine onward _ _ _ answered ?_ (made ▸ returned_stands stands call.entry.room finished)
      exact (read_move _ _ (by decide) (by decide)).trans held
  · have missing : machine.labels.get? callee = none :=
      image.missing callee identifier fun function member same => known ⟨function, member, same⟩
    rw [missing] at taken
    refine ends_of_fault taken ?_
    cases depth with
    | zero => cases answered
    | succ depth =>
      have undefined : (functions source).find? (·.name = callee) = none := by
        rw [List.find?_eq_none]
        intro function member same
        exact known ⟨function, member, by simpa using same⟩
      rw [activate, undefined] at answered
      exact answered

private theorem faithful_services (image : Image source listing machine) (symbols : Symbols source)
    (sized : span listing < 0x8000000000000000) (callees : EntryEnds source machine result depth)
    (finish : Int64 → Nat → Prop) :
    Services (fun callee count => (callee, count) ∈ Stackwise.calls source) machine (Ends machine result)
      (faithful (functions source) depth result finish) := by
  refine ⟨ends_backward, fun reported state failed => ends_of_fault failed reported, ?_⟩
  intro frame callee values post contents words address calls state identifier called found stands even given
    answered onward
  exact call_ends image symbols sized callees identifier called found stands even given answered onward

/-- An activation requires no more than that its answer is accepted. -/
theorem body_accepted {function : Definition} {values : List Word} {made : Nat} {finish : Int64 → Nat → Prop}
    (distinct : ((functions source).map (·.name)).Nodup) (member : function ∈ functions source)
    (answered : Answered result finish (activate (functions source) (depth + 1) function.name values made)) :
    RequiresBody (faithful (functions source) depth result finish) function.body
      ⟨bound function.parameters values, 0, made⟩
      fun _ after => (faithful (functions source) depth result finish).interrupted
        (.returned after.last after.calls) := by
  rw [activate, find?_name distinct member] at answered
  have assigned (name : String) : ¬ (faithful (functions source) depth result finish).interrupted (.unassigned name) :=
    fun reported => reported
  have accepted : Accepted (faithful (functions source) depth result finish)
      (fun ended => (faithful (functions source) depth result finish).interrupted
        (.returned ended.2.last ended.2.calls))
      (evaluateBody (activate (functions source) depth) function.body ⟨bound function.parameters values, 0, made⟩) := by
    match ended : evaluateBody (activate (functions source) depth) function.body
        ⟨bound function.parameters values, 0, made⟩ with
    | .ok (_, _) | .error (.returned _ _) | .error .dividedByZero | .error (.undefined _) =>
      simp only [ended] at answered
      exact answered
    | .error (.unassigned _) | .error .tooDeep =>
      simp only [ended] at answered
      cases answered
  exact requiresBody_of_evaluate (faithful_answers _ _ _ _) assigned function.body accepted

/-- Recursion is on the depth to which calls are evaluated. -/
theorem entry_ends (image : Image source listing machine) (symbols : Symbols source)
    (sized : span listing < 0x8000000000000000) (depth : Nat) : EntryEnds source machine result depth := by
  induction depth with
  | zero =>
    intro function member start final body address installed stack state values entry here given enough answered
    cases answered
  | succ depth callees =>
    intro function member start final body address installed stack state values entry here given enough answered
    refine function_runs (faithful_services image symbols sized callees _) installed entry here given enough ?_
      (body_accepted symbols.distinct member answered)
    intro value made last accepted finished count held
    exact accepted last finished count held

/-- What the evaluation of the whole program ends with is the result of its run. -/
theorem start_ends (image : Image source listing machine) (symbols : Symbols source)
    (sized : span listing < 0x8000000000000000) (target : machine.target entry = .ok address)
    {ended : Except Interrupt (Int64 × Nat)} (evaluated : outcome source depth = ended)
    (denotes : Answered result (fun value made => result = .ok ⟨value, made⟩) ended) :
    Ends machine result (startState initialRegisters (0, 0) address) := by
  obtain ⟨start, final, body, installed⟩ := image.entered target
  refine entry_ends image symbols sized depth _ (List.mem_cons_self ..) start final body address installed
    initialStack _ [] (startState_entry _ _) rfl rfl (Nat.le_refl _) ?_
  show Answered result _ (outcome source depth)
  rw [evaluated]
  cases ended with
  | error interrupt => exact denotes
  | ok given =>
    intro last finished made held
    have halted := halt_steps finished (by decide) (startState_top _ _)
    refine ends_of_last ?_ fun next taken => ?_
    · simp only [runFor, halted, made, held]
      exact denotes.symm
    · rw [halted] at taken
      cases taken

end

/-- The run of a listing has the result from some number of steps on, and is given up before. -/
def Yields (listing : Listing) (result : Except Fault Outcome) : Prop :=
  ∃ machine address steps, Program.load (Listing.text listing) = .ok machine ∧ machine.target entry = .ok address ∧
    run (Listing.text listing) = (if maxSteps < steps then .error .stepLimit else result) ∧
    ∀ limit, FitsFor machine limit (startState initialRegisters (0, 0) address) →
      runFor machine limit (startState initialRegisters (0, 0) address) =
        if limit < steps then .error .stepLimit else result

section
variable {source : String} {listing : Listing} {program : List Term} {depth : Nat}

theorem yields_of_answered (depth : Nat) {result : Except Fault Outcome} (compiled : compile source = .ok listing)
    (noOverflow : NoOverflow listing) (accepted : readSource source = .ok program)
    (answered : Answered result (fun value made => result = .ok ⟨value, made⟩) (outcome program depth)) :
    Yields listing result := by
  obtain ⟨other, machine, read, symbols, image⟩ := compile_image compiled noOverflow.sizes
  have same : program = other := Except.ok.inj (accepted.symm.trans read)
  subst same
  obtain ⟨address, target⟩ := image.target_entry
  obtain ⟨steps, reaches⟩ : Ends machine result (startState initialRegisters (0, 0) address) :=
    start_ends image symbols noOverflow.addresses target rfl answered
  refine ⟨machine, address, steps, image.loaded, target, ?_, reaches⟩
  rw [run_eq_runFor image.loaded target]
  exact reaches maxSteps (noOverflow.stack machine address image.loaded target)

/-- The run of a compiled listing has the value of its source and makes as many calls, as soon as it
may take enough steps. -/
theorem compiled_run_correct {calls : Nat} {value : Int64} (compiled : compile source = .ok listing)
    (noOverflow : NoOverflow listing) (accepted : readSource source = .ok program)
    (evaluated : outcome program depth = .ok (value, calls)) : Yields listing (.ok ⟨value, calls⟩) := by
  refine yields_of_answered depth compiled noOverflow accepted ?_
  rw [evaluated]
  rfl

/-- The run of a compiled listing fails where the evaluation of its source divides by zero or calls a
function that is not defined. -/
theorem compiled_run_fails (compiled : compile source = .ok listing) (noOverflow : NoOverflow listing)
    (accepted : readSource source = .ok program) :
    (outcome program depth = .error .dividedByZero → Yields listing (.error .divisionByZero)) ∧
      ∀ callee, outcome program depth = .error (.undefined callee) →
        Yields listing (.error (.undefinedLabel callee)) := by
  constructor
  · intro evaluated
    refine yields_of_answered depth compiled noOverflow accepted ?_
    rw [evaluated]
    rfl
  · intro callee evaluated
    refine yields_of_answered depth compiled noOverflow accepted ?_
    rw [evaluated]
    rfl

end

private def evaluatesTo (source : String) (depth : Nat) (value : Int64) (calls : Nat) : Bool :=
  match readSource source with
  | .error _ => false
  | .ok program =>
    match outcome program depth with
    | .ok (other, made) => decide (other = value) && decide (made = calls)
    | .error _ => false

private theorem exists_of_evaluatesTo {source : String} {depth calls : Nat} {value : Int64}
    (evaluates : evaluatesTo source depth value calls = true) :
    ∃ program, readSource source = .ok program ∧ outcome program depth = .ok (value, calls) := by
  rw [evaluatesTo] at evaluates
  split at evaluates
  next => cases evaluates
  next program accepted =>
    split at evaluates
    next other made ended =>
      simp only [Bool.and_eq_true, decide_eq_true_eq] at evaluates
      exact ⟨program, accepted, by rw [ended, evaluates.1, evaluates.2]⟩
    next => cases evaluates

/-- A sum by recursion, with a return from within a conditional. -/
theorem recursive_run_correct :
    ∃ listing, compile "def f(n)\x7bif(n)return n+f(n-1);\x7df(2);" = .ok listing ∧ NoOverflow listing ∧
      Yields listing (.ok ⟨3, 3⟩) := by
  obtain ⟨listing, compiled, noOverflow⟩ := exists_of_compilesModestly
    (show compilesModestly "def f(n)\x7bif(n)return n+f(n-1);\x7df(2);" = true by decide +kernel)
  obtain ⟨program, accepted, evaluated⟩ := exists_of_evaluatesTo
    (show evaluatesTo "def f(n)\x7bif(n)return n+f(n-1);\x7df(2);" 4 3 3 = true by decide +kernel)
  exact ⟨listing, compiled, noOverflow, compiled_run_correct compiled noOverflow accepted evaluated⟩

end Stackwise.Proofs.CompilerCorrectness
