import Stackwise.Proofs.Reference

/-! What must hold before a term is evaluated, so that what it leads to is acceptable. This is
evaluation with continuations that are predicates. It leaves open what is left open by a machine: a
variable that is not assigned may have any value, and a call is answered as its surroundings say. -/

namespace Stackwise.Proofs.Requirements
open SourceTerms Reference

/-- What surrounds the terms of an activation: how calls are answered, and which interrupts are
accepted. -/
structure Surroundings where
  answer : String → List Int64 → Nat → (Int64 → Nat → Prop) → Prop
  interrupted : Interrupt → Prop
  widen : ∀ {callee arguments calls} {first second : Int64 → Nat → Prop},
    answer callee arguments calls first → (∀ result made, first result made → second result made) →
    answer callee arguments calls second

mutual

/-- Evaluating the term leads only to what is accepted onward, or by the surroundings. -/
def Requires (around : Surroundings) : Term → Activation → (Int64 → Activation → Prop) → Prop
  | .literal value, activation, onward => onward value activation
  | .var name, activation, onward =>
    ∀ value, (∀ stored, activation.store name = some stored → value = stored) → onward value activation
  | .assign target value, activation, onward =>
    Requires around value activation fun stored activation => onward stored (activation.assign target stored)
  | .apply operator left right, activation, onward =>
    Requires around left activation fun first activation =>
      Requires around right activation fun second activation =>
        (∀ result, operate operator first second = some result → onward result activation) ∧
          (operate operator first second = none → around.interrupted .dividedByZero)
  | .call callee arguments, activation, onward =>
    RequiresAll around arguments activation fun values activation =>
      around.answer callee values (activation.calls + 1) fun result calls =>
        onward result { activation with calls := calls }
  | .branch test accepted none, activation, onward =>
    Requires around test activation fun tested activation =>
      (tested = 0 → onward 0 { activation with last := tested }) ∧
        (tested ≠ 0 → Requires around accepted { activation with last := tested } fun value activation =>
          onward 0 (activation.note accepted value))
  | .branch test accepted (some otherwise), activation, onward =>
    Requires around test activation fun tested activation =>
      (tested = 0 → Requires around otherwise { activation with last := tested } fun value activation =>
        onward 0 (activation.note otherwise value)) ∧
        (tested ≠ 0 → Requires around accepted { activation with last := tested } fun value activation =>
          onward 0 (activation.note accepted value))
  | .leave none, activation, _ => around.interrupted (.returned 0 activation.calls)
  | .leave (some value), activation, _ =>
    Requires around value activation fun result activation => around.interrupted (.returned result activation.calls)
  | .block body, activation, onward => RequiresBody around body activation onward
  | .function .., activation, onward => onward 0 activation

def RequiresBody (around : Surroundings) : List Term → Activation → (Int64 → Activation → Prop) → Prop
  | [], activation, onward => onward 0 activation
  | [last], activation, onward =>
    Requires around last activation fun value activation =>
      onward (if last.isExpression then value else 0) (activation.note last value)
  | statement :: rest, activation, onward =>
    Requires around statement activation fun value activation =>
      RequiresBody around rest (activation.note statement value) onward

def RequiresAll (around : Surroundings) :
    List (Nat × Term) → Activation → (List Int64 → Activation → Prop) → Prop
  | [], activation, onward => onward [] activation
  | (_, argument) :: rest, activation, onward =>
    Requires around argument activation fun value activation =>
      RequiresAll around rest activation fun others activation => onward (value :: others) activation

end

theorem requiresBody_cons {around : Surroundings} {statement next : Term} {rest : List Term}
    {activation : Activation} {onward : Int64 → Activation → Prop} :
    RequiresBody around (statement :: next :: rest) activation onward ↔
      Requires around statement activation fun value activation =>
        RequiresBody around (next :: rest) (activation.note statement value) onward := by
  rw [RequiresBody]
  simp

mutual

/-- What is accepted may be widened, and is of no account behind a statement that returns. -/
theorem Requires.imp {around : Surroundings} {first second : Int64 → Activation → Prop} (term : Term)
    {activation : Activation} (required : Requires around term activation first)
    (implies : ∀ value after, term.returns = false → first value after → second value after) :
    Requires around term activation second := by
  match term with
  | .literal _ | .function .. =>
    rw [Requires] at required ⊢
    exact implies _ _ rfl required
  | .var _ =>
    rw [Requires] at required ⊢
    exact fun value stored => implies _ _ rfl (required value stored)
  | .assign _ value =>
    rw [Requires] at required ⊢
    exact required.imp value fun _ _ _ held => implies _ _ rfl held
  | .apply _ left right =>
    rw [Requires] at required ⊢
    refine required.imp left fun _ _ _ held => held.imp right fun _ _ _ last => ⟨fun result same => ?_, last.2⟩
    exact implies _ _ rfl (last.1 result same)
  | .call _ arguments =>
    rw [Requires] at required ⊢
    exact required.imp arguments fun _ _ held => around.widen held fun _ _ last => implies _ _ rfl last
  | .branch test accepted none =>
    rw [Requires] at required ⊢
    refine required.imp test fun _ _ _ held => ⟨fun zero => implies _ _ rfl (held.1 zero), fun other => ?_⟩
    exact (held.2 other).imp accepted fun _ _ _ last => implies _ _ rfl last
  | .branch test accepted (some otherwise) =>
    rw [Requires] at required ⊢
    refine required.imp test fun _ _ _ held => ⟨fun zero => ?_, fun other => ?_⟩
    · refine (held.1 zero).imp otherwise fun _ _ stays last => implies _ _ ?_ last
      simp [Term.returns, stays]
    · refine (held.2 other).imp accepted fun _ _ stays last => implies _ _ ?_ last
      simp [Term.returns, stays]
  | .leave none => exact required
  | .leave (some _) => exact required
  | .block body =>
    rw [Requires] at required ⊢
    exact required.imp body implies

theorem RequiresBody.imp {around : Surroundings} {first second : Int64 → Activation → Prop} (body : List Term)
    {activation : Activation} (required : RequiresBody around body activation first)
    (implies : ∀ value after, Term.someReturns body = false → first value after → second value after) :
    RequiresBody around body activation second := by
  match body with
  | [] =>
    rw [RequiresBody] at required ⊢
    exact implies _ _ rfl required
  | [last] =>
    rw [RequiresBody] at required ⊢
    refine required.imp last fun _ _ stays held => implies _ _ ?_ held
    simp [Term.someReturns, stays]
  | statement :: next :: rest =>
    rw [requiresBody_cons] at required ⊢
    refine required.imp statement fun _ _ stays held => held.imp (next :: rest) fun _ _ others last => ?_
    refine implies _ _ ?_ last
    rw [Term.someReturns, stays, others]
    rfl

theorem RequiresAll.imp {around : Surroundings} {first second : List Int64 → Activation → Prop}
    (arguments : List (Nat × Term)) {activation : Activation}
    (required : RequiresAll around arguments activation first)
    (implies : ∀ values after, first values after → second values after) :
    RequiresAll around arguments activation second := by
  match arguments with
  | [] =>
    rw [RequiresAll] at required ⊢
    exact implies _ _ required
  | (_, argument) :: rest =>
    rw [RequiresAll] at required ⊢
    exact required.imp argument fun _ _ _ held => held.imp rest fun _ _ last => implies _ _ last

end

structure Surroundings.Lenient (around : Surroundings) : Prop where
  answer : ∀ callee arguments calls (post : Int64 → Nat → Prop), (∀ result made, post result made) →
    around.answer callee arguments calls post
  interrupted : ∀ interrupt, around.interrupted interrupt

mutual

theorem requires_of_all {around : Surroundings} (lenient : around.Lenient) {onward : Int64 → Activation → Prop}
    (term : Term) (activation : Activation) (accepted : ∀ value after, onward value after) :
    Requires around term activation onward := by
  match term with
  | .literal _ | .function .. =>
    rw [Requires]
    exact accepted _ _
  | .var _ =>
    rw [Requires]
    exact fun _ _ => accepted _ _
  | .assign _ value =>
    rw [Requires]
    exact requires_of_all lenient value activation fun _ _ => accepted _ _
  | .apply _ left right =>
    rw [Requires]
    refine requires_of_all lenient left activation fun _ after => ?_
    exact requires_of_all lenient right after fun _ _ => ⟨fun _ _ => accepted _ _, fun _ => lenient.interrupted _⟩
  | .call _ arguments =>
    rw [Requires]
    exact requiresAll_of_all lenient arguments activation fun _ _ => lenient.answer _ _ _ _ fun _ _ => accepted _ _
  | .branch test chosen none =>
    rw [Requires]
    refine requires_of_all lenient test activation fun _ after => ⟨fun _ => accepted _ _, fun _ => ?_⟩
    exact requires_of_all lenient chosen _ fun _ _ => accepted _ _
  | .branch test chosen (some otherwise) =>
    rw [Requires]
    refine requires_of_all lenient test activation fun _ after => ⟨fun _ => ?_, fun _ => ?_⟩
    · exact requires_of_all lenient otherwise _ fun _ _ => accepted _ _
    · exact requires_of_all lenient chosen _ fun _ _ => accepted _ _
  | .leave none =>
    rw [Requires]
    exact lenient.interrupted _
  | .leave (some value) =>
    rw [Requires]
    exact requires_of_all lenient value activation fun _ _ => lenient.interrupted _
  | .block body =>
    rw [Requires]
    exact requiresBody_of_all lenient body activation accepted

theorem requiresBody_of_all {around : Surroundings} (lenient : around.Lenient)
    {onward : Int64 → Activation → Prop} (body : List Term) (activation : Activation)
    (accepted : ∀ value after, onward value after) : RequiresBody around body activation onward := by
  match body with
  | [] =>
    rw [RequiresBody]
    exact accepted _ _
  | [last] =>
    rw [RequiresBody]
    exact requires_of_all lenient last activation fun _ _ => accepted _ _
  | statement :: next :: rest =>
    rw [requiresBody_cons]
    refine requires_of_all lenient statement activation fun _ _ => ?_
    exact requiresBody_of_all lenient (next :: rest) _ accepted

theorem requiresAll_of_all {around : Surroundings} (lenient : around.Lenient)
    {onward : List Int64 → Activation → Prop} (arguments : List (Nat × Term)) (activation : Activation)
    (accepted : ∀ values after, onward values after) : RequiresAll around arguments activation onward := by
  match arguments with
  | [] =>
    rw [RequiresAll]
    exact accepted _ _
  | (_, argument) :: rest =>
    rw [RequiresAll]
    refine requires_of_all lenient argument activation fun _ _ => ?_
    exact requiresAll_of_all lenient rest _ fun _ _ => accepted _ _

end

def Accepted (around : Surroundings) {α : Type} (onward : α → Prop) : Except Interrupt α → Prop
  | .ok value => onward value
  | .error interrupt => around.interrupted interrupt

theorem accepted_bind {around : Surroundings} {α β : Type} {onward : β → Prop} {first : Except Interrupt α}
    {rest : α → Except Interrupt β} :
    Accepted around onward (first >>= rest) ↔ Accepted around (fun value => Accepted around onward (rest value)) first := by
  cases first with
  | ok value => rfl
  | error interrupt => rfl

def Answers (around : Surroundings) (enter : Caller) : Prop :=
  ∀ callee arguments calls (post : Int64 → Nat → Prop),
    Accepted around (fun answer => post answer.1 answer.2) (enter callee arguments calls) →
    around.answer callee arguments calls post

mutual

/-- An evaluation that ends in an accepted way meets what the term requires, if none may end for
want of an assignment. -/
theorem requires_of_evaluate {around : Surroundings} {enter : Caller} (answers : Answers around enter)
    (assigned : ∀ name, ¬ around.interrupted (.unassigned name)) {onward : Int64 × Activation → Prop}
    (term : Term) {activation : Activation}
    (accepted : Accepted around onward (Reference.evaluate enter term activation)) :
    Requires around term activation fun value after => onward (value, after) := by
  match term with
  | .literal _ | .function .. =>
    rw [Requires]
    rw [Reference.evaluate] at accepted
    exact accepted
  | .var name =>
    rw [Requires]
    rw [Reference.evaluate] at accepted
    intro value same
    cases stored : activation.store name with
    | none =>
      rw [stored] at accepted
      exact absurd accepted (assigned name)
    | some held =>
      rw [stored] at accepted
      rw [same held stored]
      exact accepted
  | .assign target value =>
    rw [Requires]
    rw [Reference.evaluate, accepted_bind] at accepted
    exact requires_of_evaluate answers assigned value accepted
  | .apply operator left right =>
    rw [Requires]
    rw [Reference.evaluate, accepted_bind] at accepted
    refine (requires_of_evaluate answers assigned left accepted).imp left fun first middle _ held => ?_
    refine (requires_of_evaluate answers assigned right (accepted_bind.mp held)).imp right fun second after _ last => ?_
    cases known : operate operator first second with
    | none =>
      simp only [known] at last
      refine ⟨fun other same => ?_, fun _ => last⟩
      cases same
    | some result =>
      simp only [known] at last
      refine ⟨fun other same => ?_, fun absent => nomatch absent⟩
      cases same
      exact last
  | .call callee arguments =>
    rw [Requires]
    rw [Reference.evaluate, accepted_bind] at accepted
    refine (requiresAll_of_evaluate answers assigned arguments accepted).imp arguments fun values after held => ?_
    exact answers _ _ _ _ (accepted_bind.mp held)
  | .branch test chosen none =>
    rw [Requires]
    rw [Reference.evaluate, accepted_bind] at accepted
    refine (requires_of_evaluate answers assigned test accepted).imp test fun tested after _ held => ⟨?_, ?_⟩
    · intro zero
      simp only [if_pos zero] at held
      exact held
    · intro other
      simp only [if_neg other] at held
      exact requires_of_evaluate answers assigned chosen (accepted_bind.mp held)
  | .branch test chosen (some otherwise) =>
    rw [Requires]
    rw [Reference.evaluate, accepted_bind] at accepted
    refine (requires_of_evaluate answers assigned test accepted).imp test fun tested after _ held => ⟨?_, ?_⟩
    · intro zero
      simp only [if_pos zero] at held
      exact requires_of_evaluate answers assigned otherwise (accepted_bind.mp held)
    · intro other
      simp only [if_neg other] at held
      exact requires_of_evaluate answers assigned chosen (accepted_bind.mp held)
  | .leave none =>
    rw [Requires]
    rw [Reference.evaluate] at accepted
    exact accepted
  | .leave (some value) =>
    rw [Requires]
    rw [Reference.evaluate, accepted_bind] at accepted
    exact requires_of_evaluate answers assigned value accepted
  | .block body =>
    rw [Requires]
    rw [Reference.evaluate] at accepted
    exact requiresBody_of_evaluate answers assigned body accepted

theorem requiresBody_of_evaluate {around : Surroundings} {enter : Caller} (answers : Answers around enter)
    (assigned : ∀ name, ¬ around.interrupted (.unassigned name)) {onward : Int64 × Activation → Prop}
    (body : List Term) {activation : Activation}
    (accepted : Accepted around onward (evaluateBody enter body activation)) :
    RequiresBody around body activation fun value after => onward (value, after) := by
  match body with
  | [] =>
    rw [RequiresBody]
    rw [evaluateBody] at accepted
    exact accepted
  | [last] =>
    rw [RequiresBody]
    rw [evaluateBody, accepted_bind] at accepted
    exact requires_of_evaluate answers assigned last accepted
  | statement :: next :: rest =>
    rw [requiresBody_cons]
    rw [evaluateBody_cons, accepted_bind] at accepted
    refine (requires_of_evaluate answers assigned statement accepted).imp statement fun value after _ held => ?_
    exact requiresBody_of_evaluate answers assigned (next :: rest) held

theorem requiresAll_of_evaluate {around : Surroundings} {enter : Caller} (answers : Answers around enter)
    (assigned : ∀ name, ¬ around.interrupted (.unassigned name)) {onward : List Int64 × Activation → Prop}
    (arguments : List (Nat × Term)) {activation : Activation}
    (accepted : Accepted around onward (evaluateArguments enter arguments activation)) :
    RequiresAll around arguments activation fun values after => onward (values, after) := by
  match arguments with
  | [] =>
    rw [RequiresAll]
    rw [evaluateArguments] at accepted
    exact accepted
  | (_, argument) :: rest =>
    rw [RequiresAll]
    rw [evaluateArguments, accepted_bind] at accepted
    refine (requires_of_evaluate answers assigned argument accepted).imp argument fun value after _ held => ?_
    exact requiresAll_of_evaluate answers assigned rest (accepted_bind.mp held)

end

end Stackwise.Proofs.Requirements
