import Stackwise.Proofs.BodyRuns

/-! Runs of compiled programs are safe. Safety is counted in steps: nothing is asked of a state when
no step is left, and a call takes one step before its function is entered, so that recursion is no
obstacle. A safe step fails only in an allowed way, and a return puts back what its call found. -/

namespace Stackwise.Proofs.SafeRuns
open Assembly Machine Lowering SourceTerms EmittedCode EmittedListing Loading StackRoom Frames CodeLogic
  CodeFragments Activations Reference Requirements BodyRuns

def pendingAfter (program : Program) (pending : List State) (state : State) : List State :=
  match program.code[state.address]? with
  | some (.ok (.call _)) => state :: pending
  | some (.ok .ret) => pending.tail
  | _ => pending

/-- Control is behind the call, the pointers are what they were at the call, and so is every word
from the stack pointer on. -/
structure Restores (caller next : State) : Prop where
  address : next.address = caller.address + 1
  stack : next.registers.read Register.rsp = caller.registers.read Register.rsp
  base : next.registers.read Register.rbp = caller.registers.read Register.rbp
  memory : ∀ address : Word, caller.registers.read Register.rsp ≤ address →
    next.memory.read address = caller.memory.read address

/-- A safe step, from which `Onward` says what follows. -/
structure SafeNext (program : Program) (pending : List State) (state next : State)
    (Onward : List State → State → Prop) : Prop where
  level : ∀ instruction, program.code[state.address]? = some (.ok instruction) →
    depthOf state - descent instruction ≤ depthOf next
  returned : program.code[state.address]? = some (.ok .ret) →
    ∃ caller rest, pending = caller :: rest ∧ Restores caller next
  onward : Onward (pendingAfter program pending state) next

/-- A number of steps are safe, unless the stack pointer leaves the words. -/
def Safe (program : Program) (allowed : Fault → Prop) : Nat → List State → State → Prop
  | 0, _, _ => True
  | steps + 1, pending, state =>
    Fits program state →
    match step program state with
    | .error fault => allowed fault
    | .ok (.halt _) => pending = []
    | .ok (.next next) => SafeNext program pending state next (Safe program allowed steps)

section
variable {program : Program} {allowed : Fault → Prop} {pending : List State} {state : State}

theorem Safe.fewer {steps : Nat} (safe : Safe program allowed (steps + 1) pending state) :
    Safe program allowed steps pending state := by
  induction steps generalizing pending state with
  | zero => trivial
  | succ steps ih =>
    intro fits
    have first := safe fits
    cases taken : step program state with
    | error fault => rwa [taken] at first
    | ok transition =>
      rw [taken] at first
      cases transition with
      | halt outcome => exact first
      | next next => exact ⟨first.level, first.returned, ih first.onward⟩

private theorem Safe.mono {steps fewer : Nat} (safe : Safe program allowed steps pending state)
    (below : fewer ≤ steps) : Safe program allowed fewer pending state := by
  induction below with
  | refl => exact safe
  | step _ ih => exact ih safe.fewer

theorem safe_of_next {steps : Nat} {next : State} (taken : step program state = .ok (.next next))
    (safe : Fits program state → SafeNext program pending state next (Safe program allowed steps)) :
    Safe program allowed (steps + 1) pending state := by
  intro fits
  rw [taken]
  exact safe fits

theorem pendingAfter_plain {instruction : Instruction}
    (found : program.code[state.address]? = some (.ok instruction)) (plain : Plain instruction) :
    pendingAfter program pending state = pending := by
  rw [pendingAfter, found]
  cases instruction with
  | call label => cases plain
  | ret => cases plain
  | _ => rfl

private theorem safe_backward (steps : Nat) : Backward program (Safe program allowed steps pending) := by
  constructor
  · intro state overflow
    cases steps with
    | zero => trivial
    | succ steps => exact fun fits => absurd fits overflow
  · intro state next instruction found plain executed level safe
    cases steps with
    | zero => trivial
    | succ steps =>
      have taken : step program state = .ok (.next next) := by
        rw [step, found]
        exact executed
      refine safe_of_next taken fun _ => ⟨fun other same => ?_, fun returning => ?_, ?_⟩
      · rw [found] at same
        cases same
        exact level
      · rw [found] at returning
        cases returning
        cases plain
      · rw [pendingAfter_plain found plain]
        exact safe.fewer

private theorem safe_of_call {steps : Nat} {callee : State} {label : String}
    (found : program.code[state.address]? = some (.ok (.call label)))
    (taken : step program state = .ok (.next callee))
    (entered : Fits program state → depthOf callee = depthOf state - 8 ∧
      Safe program allowed steps (state :: pending) callee) :
    Safe program allowed (steps + 1) pending state := by
  refine safe_of_next taken fun fits => ⟨fun instruction same => ?_, fun returning => ?_, ?_⟩
  · rw [found] at same
    cases same
    exact Int.le_of_eq (entered fits).1.symm
  · rw [found] at returning
    cases returning
  · have after : pendingAfter program pending state = state :: pending := by
      rw [pendingAfter, found]
    rw [after]
    exact (entered fits).2

private theorem safe_of_return {steps : Nat} {caller next : State}
    (found : program.code[state.address]? = some (.ok .ret)) (taken : step program state = .ok (.next next))
    (level : depthOf state ≤ depthOf next) (restores : Restores caller next)
    (safe : Safe program allowed steps pending next) :
    Safe program allowed (steps + 1) (caller :: pending) state := by
  refine safe_of_next taken fun _ => ⟨fun instruction same => ?_, fun _ => ⟨caller, pending, rfl, restores⟩, ?_⟩
  · rw [found] at same
    cases same
    show depthOf state - 0 ≤ depthOf next
    omega
  · have after : pendingAfter program (caller :: pending) state = pending := by
      rw [pendingAfter, found]
      rfl
    rw [after]
    exact safe

end

def Allowed (source : List Term) : Fault → Prop
  | .divisionByZero => True
  | .undefinedLabel callee =>
    (∃ count, (callee, count) ∈ calls source) ∧ ∀ function ∈ functions source, function.name ≠ callee
  | _ => False

/-- Entering a function is safe for a number of steps if returning from it is. -/
def EntrySafe (source : List Term) (machine : Program) (steps : Nat) : Prop :=
  ∀ function ∈ functions source, ∀ start final body address,
    Installed (fun callee count => (callee, count) ∈ calls source) machine function start final body address →
    ∀ pending stack state, Entry stack state → state.address = address →
    (∀ last, Finished machine stack state last → Safe machine (Allowed source) steps pending last) →
    Safe machine (Allowed source) steps pending state

section
variable {source : List Term} {listing : Listing} {machine : Program} {frame : Frame}
  {contents : String → Word} {words : List Word} {address calls : Nat} {state : State}

private theorem restores_of_finished {target : Nat} {last : State}
    (stands : Stands frame contents words address calls state)
    (room : -0x8000000000000000 ≤ frame.top words.length - 8)
    (finished : Finished machine (frame.top words.length - 8) (entered state target) last) :
    Restores state { last.drop with address := address + 1 } := by
  have back := returned_stands stands room finished
  refine ⟨by rw [stands.address], ?_, ?_, ?_⟩
  · rw [back.framed.stack, stands.framed.stack]
  · rw [back.framed.base, stands.framed.base]
  · intro asked above
    have least : frame.top words.length ≤ asked.toInt := by
      rw [← stands.depthOf_eq]
      exact Int64.le_iff_toInt_le.mp above
    have lower := stands.framed.room
    have below : asked.toInt < 0x8000000000000000 := asked.toInt_lt
    have same : wordAt last.memory asked.toInt = wordAt state.memory asked.toInt := by
      rw [finished.memory asked.toInt (by omega) below,
        entered_memory target stands room ⟨by omega, below⟩, if_neg (by omega)]
    rw [wordAt, wordAt, Int64.ofInt_toInt] at same
    exact same

/-- A call is safe if entering functions is, for fewer steps. -/
theorem call_safe (image : Image source listing machine) (sized : span listing < 0x8000000000000000)
    {steps : Nat} {pending : List State} {callee : String} {count : Nat}
    (callees : ∀ fewer, fewer < steps → EntrySafe source machine fewer) (identifier : Identifier callee)
    (called : (callee, count) ∈ Stackwise.calls source)
    (found : machine.code[address]? = some (.ok (.call callee)))
    (stands : Stands frame contents words address calls state) (even : words.length % 2 = 0)
    (onward : ∀ made next, Stands frame contents words (address + 1) made next →
      Safe machine (Allowed source) steps pending next) :
    Safe machine (Allowed source) steps pending state := by
  cases steps with
  | zero => trivial
  | succ steps =>
    have taken := call_steps found stands even
    by_cases known : ∃ function ∈ functions source, function.name = callee
    · obtain ⟨function, member, rfl⟩ := known
      obtain ⟨start, final, body, target, installed⟩ := image.installed function member
      rw [installed.labelled] at taken
      refine safe_of_call (stands.address ▸ found) taken fun fits => ?_
      have call := call_of_fits target found (image.succ_lt sized found) stands even fits
      refine ⟨by rw [call.entry.depthOf_eq, stands.depthOf_eq], ?_⟩
      refine callees steps (Nat.lt_succ_self _) function member start final body target installed _ _ _ call.entry
        rfl fun last finished => ?_
      cases steps with
      | zero => trivial
      | succ steps =>
        have back := returned_stands stands call.entry.room finished
        refine safe_of_return finished.found (call.returning last finished) ?_
          (restores_of_finished stands call.entry.room finished) ((onward _ _ back).mono (by omega))
        have low : depthOf last = frame.top words.length - 8 := by
          rw [depthOf, finished.pointer, ← call.entry.pointer]
          exact call.entry.depthOf_eq
        rw [low, back.depthOf_eq]
        omega
    · intro _
      have missing : machine.labels.get? callee = none := by
        refine image.missing callee identifier fun function member same => known ⟨function, member, same⟩
      rw [taken, missing]
      exact ⟨⟨count, called⟩, fun function member same => known ⟨function, member, same⟩⟩

end

private def anything : Surroundings where
  answer := fun _ _ _ post => ∀ result made, post result made
  interrupted := fun _ => True
  widen := fun accepted implies result made => implies result made (accepted result made)

private theorem anything_lenient : anything.Lenient := ⟨fun _ _ _ _ accepted => accepted, fun _ => trivial⟩

section
variable {source : List Term} {listing : Listing} {machine : Program}

/-- Recursion is on the steps: a call takes one before its function is entered. -/
theorem entry_safe (image : Image source listing machine) (sized : span listing < 0x8000000000000000) (steps : Nat) :
    EntrySafe source machine steps := by
  induction steps using Nat.strongRecOn with
  | ind steps callees =>
    intro function member start final body address installed pending stack state entry here finish
    have services : Services (fun callee count => (callee, count) ∈ calls source) machine
        (Safe machine (Allowed source) steps pending) anything := by
      refine ⟨safe_backward steps, fun _ state failed => ?_, ?_⟩
      · cases steps with
        | zero => trivial
        | succ steps =>
          intro _
          rw [failed]
          trivial
      · intro frame callee values post contents words address calls state identifier called found stands even given
          answered onward
        refine call_safe image sized callees identifier called found stands even fun made next there => ?_
        exact onward _ made next (answered _ made) rfl there
    let values := argumentRegisters.map state.registers.read
    have given : (argumentRegisters.take values.length).map state.registers.read = values := rfl
    refine function_runs services installed entry here given installed.code.few
      (fun _ _ last _ finished _ _ => finish last finished) ?_
    exact requiresBody_of_all anything_lenient _ _ fun _ _ => trivial

/-- A run is safe from its start, for any number of steps. -/
theorem start_safe (image : Image source listing machine) (sized : span listing < 0x8000000000000000) (steps : Nat)
    {address : Nat} (target : machine.target entry = .ok address) :
    Safe machine (Allowed source) steps [] (startState initialRegisters (0, 0) address) := by
  obtain ⟨start, final, body, installed⟩ := image.entered target
  refine entry_safe image sized steps _ (List.mem_cons_self ..) start final body address installed [] initialStack _
    (startState_entry _ _) rfl fun last finished => ?_
  cases steps with
  | zero => trivial
  | succ steps =>
    intro _
    rw [halt_steps finished (by decide) (startState_top _ _)]

end

end Stackwise.Proofs.SafeRuns
