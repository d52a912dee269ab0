import Stackwise.Proofs.Reference

/-! What an activation executes. Evaluation is repeated here with a record of the expression
statements and of the tests of conditionals, in place of the one value that was left last. Every
variable holds something from the start, and calls are answered by their numbers. Without the
record it is the evaluation of terms. -/

namespace Stackwise.Proofs.ExecutedStatements
open Reference

/-- Something that leaves a value behind: an expression statement, or the test of a conditional. -/
inductive Event where
  | statement (value : Int64)
  | test (value : Int64)
  deriving DecidableEq

def Event.value : Event → Int64
  | .statement value | .test value => value

/-- The value of the latest event, which stands first, or zero. -/
def latest : List Event → Int64
  | [] => 0
  | event :: _ => event.value

/-- The value of the latest expression statement, or zero. -/
def promised : List Event → Int64
  | [] => 0
  | .statement value :: _ => value
  | .test _ :: earlier => promised earlier

/-- The latest event has the value of the latest expression statement, unless it is a test of
another value. -/
theorem latest_eq_promised_iff (events : List Event) :
    latest events = promised events ↔
      ∀ value, events.head? = some (.test value) → value = promised events := by
  cases events with
  | nil => simp [latest, promised]
  | cons event earlier =>
    cases event with
    | statement value => simp [latest, promised, Event.value]
    | test value => simp [latest, Event.value]

structure Recording where
  store : String → Int64
  events : List Event
  calls : Nat

inductive Exit where
  | returned (value : Int64) (calls : Nat)
  | dividedByZero
  | unanswered

/-- What calls are answered with, by their numbers: a value, and the number of calls by then. -/
abbrev Replies := Nat → Option (Int64 × Nat)

namespace Recording

def assign (recording : Recording) (name : String) (value : Int64) : Recording :=
  { recording with store := Function.update recording.store name value }

def add (recording : Recording) (event : Event) : Recording :=
  { recording with events := event :: recording.events }

def note (recording : Recording) (statement : Term) (value : Int64) : Recording :=
  if statement.isExpression then recording.add (.statement value) else recording

end Recording

mutual

def record (replies : Replies) : Term → Recording → Except Exit (Int64 × Recording)
  | .literal value, recording => return (value, recording)
  | .var name, recording => return (recording.store name, recording)
  | .assign target value, recording => do
    let (stored, recording) ← record replies value recording
    return (stored, recording.assign target stored)
  | .apply operator left right, recording => do
    let (first, recording) ← record replies left recording
    let (second, recording) ← record replies right recording
    match operate operator first second with
    | some result => return (result, recording)
    | none => throw .dividedByZero
  | .call _ arguments, recording => do
    let (_, recording) ← recordArguments replies arguments recording
    match replies (recording.calls + 1) with
    | some (result, calls) => return (result, { recording with calls := calls })
    | none => throw .unanswered
  | .branch test accepted none, recording => do
    let (tested, recording) ← record replies test recording
    if tested = 0 then return (0, recording.add (.test tested))
    else
      let (value, recording) ← record replies accepted (recording.add (.test tested))
      return (0, recording.note accepted value)
  | .branch test accepted (some otherwise), recording => do
    let (tested, recording) ← record replies test recording
    if tested = 0 then
      let (value, recording) ← record replies otherwise (recording.add (.test tested))
      return (0, recording.note otherwise value)
    else
      let (value, recording) ← record replies accepted (recording.add (.test tested))
      return (0, recording.note accepted value)
  | .leave none, recording => throw (.returned 0 recording.calls)
  | .leave (some value), recording => do
    let (result, recording) ← record replies value recording
    throw (.returned result recording.calls)
  | .block body, recording => recordBody replies body recording
  | .function .., recording => return (0, recording)

def recordBody (replies : Replies) : List Term → Recording → Except Exit (Int64 × Recording)
  | [], recording => return (0, recording)
  | [last], recording => do
    let (value, recording) ← record replies last recording
    return (if last.isExpression then value else 0, recording.note last value)
  | statement :: rest, recording => do
    let (value, recording) ← record replies statement recording
    recordBody replies rest (recording.note statement value)

def recordArguments (replies : Replies) :
    List (Nat × Term) → Recording → Except Exit (List Int64 × Recording)
  | [], recording => return ([], recording)
  | (_, argument) :: rest, recording => do
    let (value, recording) ← record replies argument recording
    let (others, recording) ← recordArguments replies rest recording
    return (value :: others, recording)

end

private theorem recordBody_cons (replies : Replies) (statement next : Term) (rest : List Term)
    (recording : Recording) :
    recordBody replies (statement :: next :: rest) recording =
      record replies statement recording >>= fun (value, recording) =>
        recordBody replies (next :: rest) (recording.note statement value) := by
  rw [recordBody]
  · simp

/-- Forget all events but the value of the latest one. -/
def Recording.erase (recording : Recording) : Activation :=
  ⟨fun name => some (recording.store name), latest recording.events, recording.calls⟩

private theorem Recording.erase_assign (recording : Recording) (name : String) (value : Int64) :
    (recording.assign name value).erase = recording.erase.assign name value := by
  have stored : (fun other => some (Function.update recording.store name value other)) =
      Function.update (fun other => some (recording.store other)) name (some value) := by
    funext other
    by_cases same : other = name
    · subst same
      simp
    · simp [Function.update_of_ne same]
  simp only [erase, assign, Activation.assign, stored]

theorem Recording.erase_note (recording : Recording) (statement : Term) (value : Int64) :
    (recording.note statement value).erase = recording.erase.note statement value := by
  unfold note Activation.note
  split
  · rfl
  · rfl

def Exit.interrupt : Exit → Interrupt
  | .returned value calls => .returned value calls
  | .dividedByZero => .dividedByZero
  | .unanswered => .tooDeep

def Replies.caller (replies : Replies) : Caller := fun _ _ number =>
  match replies number with
  | some answer => .ok answer
  | none => .error .tooDeep

def erased {α : Type} : Except Exit (α × Recording) → Except Interrupt (α × Activation)
  | .ok (value, recording) => .ok (value, recording.erase)
  | .error exit => .error exit.interrupt

theorem erased_bind {α β : Type} {first : Except Exit (α × Recording)}
    {rest : α × Recording → Except Exit (β × Recording)}
    {others : α × Activation → Except Interrupt (β × Activation)}
    (same : ∀ value recording, others (value, recording.erase) = erased (rest (value, recording))) :
    erased first >>= others = erased (first >>= rest) := by
  cases first with
  | error exit => rfl
  | ok found => exact same found.1 found.2

/-- A statement that is chosen by a test, with what is noted of it. -/
theorem noted_erase {replies : Replies} {statement : Term} {recording : Recording}
    (same : Reference.evaluate replies.caller statement recording.erase =
      erased (record replies statement recording)) :
    (Reference.evaluate replies.caller statement recording.erase >>= fun (value, activation) =>
        pure ((0 : Int64), activation.note statement value)) =
      erased (record replies statement recording >>= fun (value, after) =>
        pure ((0 : Int64), after.note statement value)) := by
  rw [same]
  refine erased_bind fun value after => ?_
  simp only [← Recording.erase_note]
  rfl

mutual

theorem evaluate_erase (replies : Replies) : (term : Term) → (recording : Recording) →
    Reference.evaluate replies.caller term recording.erase = erased (record replies term recording)
  | .literal _, _ | .var _, _ | .leave none, _ | .function .., _ => rfl
  | .assign target value, recording => by
    rw [Reference.evaluate, record, evaluate_erase replies value]
    refine erased_bind fun stored after => ?_
    simp only [← Recording.erase_assign]
    rfl
  | .apply operator left right, recording => by
    rw [Reference.evaluate, record, evaluate_erase replies left]
    refine erased_bind fun first middle => ?_
    simp only [evaluate_erase replies right]
    refine erased_bind fun second after => ?_
    simp only
    cases operate operator first second with
    | none => rfl
    | some result => rfl
  | .call callee arguments, recording => by
    rw [Reference.evaluate, record, evaluateArguments_erase replies arguments]
    refine erased_bind fun values after => ?_
    change (replies.caller callee values (after.calls + 1) >>= _) = _
    simp only [Replies.caller]
    cases replies (after.calls + 1) with
    | none => rfl
    | some answer => rfl
  | .branch test accepted none, recording => by
    rw [Reference.evaluate, record, evaluate_erase replies test]
    refine erased_bind fun tested after => ?_
    simp only
    split
    · rfl
    · exact noted_erase (evaluate_erase replies accepted (after.add (.test tested)))
  | .branch test accepted (some otherwise), recording => by
    rw [Reference.evaluate, record, evaluate_erase replies test]
    refine erased_bind fun tested after => ?_
    simp only
    split
    · exact noted_erase (evaluate_erase replies otherwise (after.add (.test tested)))
    · exact noted_erase (evaluate_erase replies accepted (after.add (.test tested)))
  | .leave (some value), recording => by
    rw [Reference.evaluate, record, evaluate_erase replies value]
    exact erased_bind fun _ _ => rfl
  | .block body, recording => by
    rw [Reference.evaluate, record]
    exact evaluateBody_erase replies body recording

theorem evaluateBody_erase (replies : Replies) : (body : List Term) → (recording : Recording) →
    evaluateBody replies.caller body recording.erase = erased (recordBody replies body recording)
  | [], _ => rfl
  | [last], recording => by
    rw [evaluateBody, recordBody, evaluate_erase replies last]
    refine erased_bind fun value after => ?_
    simp only [← Recording.erase_note]
    rfl
  | statement :: next :: rest, recording => by
    rw [evaluateBody_cons, recordBody_cons, evaluate_erase replies statement]
    refine erased_bind fun value after => ?_
    simp only [← Recording.erase_note]
    exact evaluateBody_erase replies (next :: rest) (after.note statement value)

theorem evaluateArguments_erase (replies : Replies) : (arguments : List (Nat × Term)) →
    (recording : Recording) → evaluateArguments replies.caller arguments recording.erase =
      erased (recordArguments replies arguments recording)
  | [], _ => rfl
  | (_, argument) :: rest, recording => by
    rw [evaluateArguments, recordArguments, evaluate_erase replies argument]
    refine erased_bind fun value middle => ?_
    simp only [evaluateArguments_erase replies rest]
    exact erased_bind fun _ _ => rfl

end

end Stackwise.Proofs.ExecutedStatements
