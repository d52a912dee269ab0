import Mathlib.Data.List.Forall2
import Stackwise.Proofs.Signatures

/-! Statements that are never reached. Lowering stops at the first statement of a list that always
leaves the function, so what stands behind it adds no line, claims no slot and takes no label number.
Only its definitions would be found. Taking such statements out of a list, however deep the list is
nested, keeps the listing. -/

namespace Stackwise.Proofs.UnreachedStatements
open Lowering EmissionSuccess Signatures

mutual

/-- A program with a gap where one of its statement lists stands. -/
inductive Surroundings where
  | whole
  | inside (before : List Term) (statement : Opening) (after : List Term)

/-- A term with a gap where a statement list of it stands: the body of a block or of a definition. -/
inductive Opening where
  | assigned (target : String) (value : Opening)
  | left (operator : Operator) (left : Opening) (right : Term)
  | right (operator : Operator) (left : Term) (right : Opening)
  | test (test : Opening) (accepted : Term) (otherwise : Option Term)
  | accepted (test : Term) (accepted : Opening) (otherwise : Option Term)
  | otherwise (test accepted : Term) (otherwise : Opening)
  | returned (value : Opening)
  | block (body : Surroundings)
  | argument (callee : String) (before : List (Nat × Term)) (position : Nat) (value : Opening)
      (after : List (Nat × Term))
  | function (name : String) (parameters : List String) (body : Surroundings)

end

mutual

def Surroundings.fill (statements : List Term) : Surroundings → List Term
  | .whole => statements
  | .inside before statement after => before ++ statement.fill statements :: after

def Opening.fill (statements : List Term) : Opening → Term
  | .assigned target value => .assign target (value.fill statements)
  | .left operator left right => .apply operator (left.fill statements) right
  | .right operator left right => .apply operator left (right.fill statements)
  | .test test accepted otherwise => .branch (test.fill statements) accepted otherwise
  | .accepted test accepted otherwise => .branch test (accepted.fill statements) otherwise
  | .otherwise test accepted otherwise => .branch test accepted (some (otherwise.fill statements))
  | .returned value => .leave (some (value.fill statements))
  | .block body => .block (body.fill statements)
  | .argument callee before position value after =>
    .call callee (before ++ (position, value.fill statements) :: after)
  | .function name parameters body => .function name parameters (body.fill statements)

end

structure SameCode (one two : Definition) : Prop where
  name : one.name = two.name
  parameters : one.parameters = two.parameters
  body : ∀ function, lowerBlock function one.body = lowerBlock function two.body

/-- The second mentions have the definitions of the first ones, lowered alike, and no other calls. -/
structure Reduces (one two : List Mention) : Prop where
  definitions : List.Forall₂ SameCode (one.filterMap Mention.definition?) (two.filterMap Mention.definition?)
  calls : two.filterMap Mention.call? ⊆ one.filterMap Mention.call?

/-- The second term can stand in for the first one without a trace. -/
structure Replaces (one two : Term) : Prop where
  lowered : ∀ function position, lowerTerm function position one = lowerTerm function position two
  returns : one.returns = two.returns
  expression : one.isExpression = two.isExpression
  mentions : Reduces one.mentions two.mentions

structure ReplacesBody (one two : List Term) : Prop where
  empty : one = [] ↔ two = []
  lowered : ∀ function, lowerBlock function one = lowerBlock function two
  value : ∀ function, lowerBlockValue function one = lowerBlockValue function two
  returns : Term.someReturns one = Term.someReturns two
  mentions : Reduces (Term.bodyMentions one) (Term.bodyMentions two)

section Mentions

variable {one two back : List Mention}

private theorem SameCode.refl (function : Definition) : SameCode function function :=
  ⟨rfl, rfl, fun _ => rfl⟩

theorem Reduces.refl (mentions : List Mention) : Reduces mentions mentions :=
  ⟨List.forall₂_same.mpr fun function _ => SameCode.refl function, List.Subset.refl _⟩

theorem Reduces.append {others : List Mention} (first : Reduces one two) (second : Reduces back others) :
    Reduces (one ++ back) (two ++ others) := by
  constructor
  · rw [List.filterMap_append, List.filterMap_append]
    exact List.rel_append first.definitions second.definitions
  · rw [List.filterMap_append, List.filterMap_append]
    exact List.append_subset.mpr
      ⟨List.Subset.trans first.calls (List.subset_append_left _ _),
        List.Subset.trans second.calls (List.subset_append_right _ _)⟩

theorem Reduces.behind (front : List Mention) (inner : Reduces one two) : Reduces (front ++ one) (front ++ two) :=
  (Reduces.refl front).append inner

theorem Reduces.before (inner : Reduces one two) (back : List Mention) : Reduces (one ++ back) (two ++ back) :=
  inner.append (Reduces.refl back)

end Mentions

section Bodies

variable {one two : List Term} {statement other : Term}

/-- A statement in front changes nothing. -/
theorem ReplacesBody.cons (statement : Term) (rest : ReplacesBody one two) :
    ReplacesBody (statement :: one) (statement :: two) where
  empty := by simp
  lowered function := by rw [lowerBlock, lowerBlock, rest.lowered]
  value function := by
    by_cases last : one = []
    · rw [last, rest.empty.mp last]
    · rw [lowerBlockValue_cons _ _ last, lowerBlockValue_cons _ _ (mt rest.empty.mpr last), rest.value]
  returns := by rw [Term.someReturns, Term.someReturns, rest.returns]
  mentions := by
    rw [Term.bodyMentions, Term.bodyMentions]
    exact rest.mentions.behind _

theorem ReplacesBody.behind (front : List Term) (rest : ReplacesBody one two) :
    ReplacesBody (front ++ one) (front ++ two) := by
  induction front with
  | nil => exact rest
  | cons statement front ih => exact ih.cons statement

private theorem Replaces.before (inner : Replaces statement other) (rest : List Term) :
    ReplacesBody (statement :: rest) (other :: rest) where
  empty := by simp
  lowered function := by rw [lowerBlock, lowerBlock, inner.returns, inner.lowered]
  value function := by
    by_cases last : rest = []
    · rw [last, lowerBlockValue, lowerBlockValue, inner.expression, inner.lowered, inner.lowered]
    · rw [lowerBlockValue_cons _ _ last, lowerBlockValue_cons _ _ last, inner.returns, inner.lowered]
  returns := by rw [Term.someReturns, Term.someReturns, inner.returns]
  mentions := by
    rw [Term.bodyMentions, Term.bodyMentions]
    exact inner.mentions.before _

private theorem isExpression_of_returns (leaves : statement.returns = true) : statement.isExpression = false := by
  cases statement with
  | branch | leave | block | function => rfl
  | literal | var | assign | apply | call => simp [Term.returns] at leaves

/-- What stands behind a statement that always leaves can go, if it defines no function. In a block
for its value the statement then becomes the last one, which is no expression either. -/
theorem replacesBody_cut (leaves : statement.returns = true) {later : List Term} (plain : definitions later = []) :
    ReplacesBody (statement :: later) [statement] where
  empty := by simp
  lowered function := by rw [lowerBlock, lowerBlock, if_pos leaves, if_pos leaves]
  value function := by
    have alone : lowerBlockValue function [statement] =
        lowerTerm function .statement statement ++ Emission.push (.immediate 0) := by
      rw [lowerBlockValue, isExpression_of_returns leaves]
      rfl
    by_cases last : later = []
    · rw [last]
    · rw [lowerBlockValue_cons _ _ last, if_pos leaves, alone]
  returns := by simp [Term.someReturns, leaves]
  mentions := by
    rw [Term.bodyMentions, Term.bodyMentions, Term.bodyMentions]
    apply Reduces.behind
    refine ⟨?_, List.nil_subset _⟩
    rw [definitions] at plain
    rw [plain]
    exact .nil

end Bodies

section Terms

variable {term other : Term} {one two : List Term}

private theorem Replaces.assign (inner : Replaces term other) (target : String) :
    Replaces (.assign target term) (.assign target other) where
  lowered function position := by rw [lowerTerm, lowerTerm, inner.lowered]
  returns := by simp only [Term.returns]
  expression := rfl
  mentions := by
    rw [Term.mentions, Term.mentions]
    exact inner.mentions

private theorem Replaces.left (inner : Replaces term other) (operator : Operator) (right : Term) :
    Replaces (.apply operator term right) (.apply operator other right) where
  lowered function position := by rw [lowerTerm, lowerTerm, inner.lowered]
  returns := by simp only [Term.returns]
  expression := rfl
  mentions := by
    rw [Term.mentions, Term.mentions]
    exact inner.mentions.before _

private theorem Replaces.right (inner : Replaces term other) (operator : Operator) (left : Term) :
    Replaces (.apply operator left term) (.apply operator left other) where
  lowered function position := by rw [lowerTerm, lowerTerm, inner.lowered]
  returns := by simp only [Term.returns]
  expression := rfl
  mentions := by
    rw [Term.mentions, Term.mentions]
    exact inner.mentions.behind _

private theorem Replaces.test (inner : Replaces term other) (accepted : Term) (otherwise : Option Term) :
    Replaces (.branch term accepted otherwise) (.branch other accepted otherwise) := by
  cases otherwise with
  | none =>
    refine ⟨fun function position => ?_, by simp only [Term.returns], rfl, ?_⟩
    · rw [lowerTerm, lowerTerm, inner.lowered]
    · rw [Term.mentions, Term.mentions]
      exact inner.mentions.before _
  | some otherwise =>
    refine ⟨fun function position => ?_, by simp only [Term.returns], rfl, ?_⟩
    · rw [lowerTerm, lowerTerm, inner.lowered]
    · rw [Term.mentions, Term.mentions]
      exact (inner.mentions.before _).before _

private theorem Replaces.accepted (inner : Replaces term other) (test : Term) (otherwise : Option Term) :
    Replaces (.branch test term otherwise) (.branch test other otherwise) := by
  cases otherwise with
  | none =>
    refine ⟨fun function position => ?_, by simp only [Term.returns], rfl, ?_⟩
    · rw [lowerTerm, lowerTerm, inner.lowered]
    · rw [Term.mentions, Term.mentions]
      exact inner.mentions.behind _
  | some otherwise =>
    refine ⟨fun function position => ?_, by rw [Term.returns, Term.returns, inner.returns], rfl, ?_⟩
    · rw [lowerTerm, lowerTerm, inner.lowered]
    · rw [Term.mentions, Term.mentions]
      exact (inner.mentions.behind _).before _

private theorem Replaces.otherwise (inner : Replaces term other) (test accepted : Term) :
    Replaces (.branch test accepted (some term)) (.branch test accepted (some other)) where
  lowered function position := by rw [lowerTerm, lowerTerm, inner.lowered]
  returns := by rw [Term.returns, Term.returns, inner.returns]
  expression := rfl
  mentions := by
    rw [Term.mentions, Term.mentions]
    exact inner.mentions.behind _

private theorem Replaces.leave (inner : Replaces term other) : Replaces (.leave (some term)) (.leave (some other)) where
  lowered function position := by rw [lowerTerm, lowerTerm, inner.lowered]
  returns := by simp only [Term.returns]
  expression := rfl
  mentions := by
    rw [Term.mentions, Term.mentions]
    exact inner.mentions

private theorem ReplacesBody.block (inner : ReplacesBody one two) : Replaces (.block one) (.block two) where
  lowered function position := by
    cases position with
    | statement => rw [lowerTerm, lowerTerm, inner.lowered]
    | value => rw [lowerTerm, lowerTerm, inner.value]
  returns := by rw [Term.returns, Term.returns, inner.returns]
  expression := rfl
  mentions := by
    rw [Term.mentions, Term.mentions]
    exact inner.mentions

/-- A definition leaves no line where it stands. Its body is lowered as a function of its own. -/
theorem ReplacesBody.function (inner : ReplacesBody one two) (name : String) (parameters : List String) :
    Replaces (.function name parameters one) (.function name parameters two) where
  lowered function position := by rw [lowerTerm, lowerTerm]
  returns := by simp only [Term.returns]
  expression := rfl
  mentions := by
    rw [Term.mentions, Term.mentions]
    exact ⟨.cons ⟨rfl, rfl, inner.lowered⟩ inner.mentions.definitions, inner.mentions.calls⟩

private theorem Replaces.lowerArguments (inner : Replaces term other) (function : String)
    (before : List (Nat × Term)) (position : Nat) (after : List (Nat × Term)) :
    lowerArguments function (before ++ (position, term) :: after) =
      lowerArguments function (before ++ (position, other) :: after) := by
  induction before with
  | nil =>
    rw [List.nil_append, List.nil_append, Lowering.lowerArguments, Lowering.lowerArguments, inner.lowered]
  | cons argument before ih =>
    rw [List.cons_append, List.cons_append, Lowering.lowerArguments, Lowering.lowerArguments, ih]

private theorem Replaces.argumentMentions (inner : Replaces term other) (before : List (Nat × Term)) (position : Nat)
    (after : List (Nat × Term)) :
    Reduces (Term.argumentMentions (before ++ (position, term) :: after))
      (Term.argumentMentions (before ++ (position, other) :: after)) := by
  induction before with
  | nil =>
    rw [List.nil_append, List.nil_append, Term.argumentMentions, Term.argumentMentions]
    exact inner.mentions.before _
  | cons argument before ih =>
    rw [List.cons_append, List.cons_append, Term.argumentMentions, Term.argumentMentions]
    exact ih.behind _

private theorem Replaces.argument (inner : Replaces term other) (callee : String) (before : List (Nat × Term))
    (position : Nat) (after : List (Nat × Term)) :
    Replaces (.call callee (before ++ (position, term) :: after))
      (.call callee (before ++ (position, other) :: after)) where
  lowered function place := by
    rw [lowerTerm, lowerTerm, inner.lowerArguments, List.map_append, List.map_append, List.map_cons, List.map_cons]
  returns := by simp only [Term.returns]
  expression := rfl
  mentions := by
    have passed : (before ++ (position, term) :: after).length = (before ++ (position, other) :: after).length := by
      simp
    rw [Term.mentions, Term.mentions, passed]
    exact (inner.argumentMentions before position after).behind [_]

end Terms

mutual

/-- Statements that leave no trace where they stand leave none in the program around them. -/
theorem Surroundings.replaces {one two : List Term} (inner : ReplacesBody one two) :
    (surroundings : Surroundings) → ReplacesBody (surroundings.fill one) (surroundings.fill two)
  | .whole => by
    rw [Surroundings.fill, Surroundings.fill]
    exact inner
  | .inside before statement after => by
    rw [Surroundings.fill, Surroundings.fill]
    exact ((Opening.replaces inner statement).before after).behind before

theorem Opening.replaces {one two : List Term} (inner : ReplacesBody one two) :
    (opening : Opening) → Replaces (opening.fill one) (opening.fill two)
  | .assigned target value => by
    rw [Opening.fill, Opening.fill]
    exact (Opening.replaces inner value).assign target
  | .left operator left right => by
    rw [Opening.fill, Opening.fill]
    exact (Opening.replaces inner left).left operator right
  | .right operator left right => by
    rw [Opening.fill, Opening.fill]
    exact (Opening.replaces inner right).right operator left
  | .test test accepted otherwise => by
    rw [Opening.fill, Opening.fill]
    exact (Opening.replaces inner test).test accepted otherwise
  | .accepted test accepted otherwise => by
    rw [Opening.fill, Opening.fill]
    exact (Opening.replaces inner accepted).accepted test otherwise
  | .otherwise test accepted otherwise => by
    rw [Opening.fill, Opening.fill]
    exact (Opening.replaces inner otherwise).otherwise test accepted
  | .returned value => by
    rw [Opening.fill, Opening.fill]
    exact (Opening.replaces inner value).leave
  | .block body => by
    rw [Opening.fill, Opening.fill]
    exact (Surroundings.replaces inner body).block
  | .argument callee before position value after => by
    rw [Opening.fill, Opening.fill]
    exact (Opening.replaces inner value).argument callee before position after
  | .function name parameters body => by
    rw [Opening.fill, Opening.fill]
    exact (Surroundings.replaces inner body).function name parameters

end

section Programs

variable {one two : List Definition}

private theorem SameCode.lowerFunction {first second : Definition} (same : SameCode first second) :
    lowerFunction first = lowerFunction second := by
  obtain ⟨name, parameters, body⟩ := first
  obtain ⟨other, others, code⟩ := second
  obtain ⟨rfl, rfl, lowered⟩ := same
  have inner : functionBody ⟨name, parameters, body⟩ = functionBody ⟨name, parameters, code⟩ := by
    rw [functionBody, functionBody, lowered]
  funext start
  rw [Lowering.lowerFunction, Lowering.lowerFunction, inner]

private theorem lowerFunctions_congr (same : List.Forall₂ SameCode one two) : lowerFunctions one = lowerFunctions two := by
  induction same with
  | nil => rfl
  | cons first _ ih => rw [lowerFunctions, lowerFunctions, first.lowerFunction, ih]

private theorem signatures_eq (same : List.Forall₂ SameCode one two) : one.map signature = two.map signature := by
  induction same with
  | nil => rfl
  | cons first _ ih => rw [List.map_cons, List.map_cons, ih, signature, signature, first.name, first.parameters]

end Programs

/-- A program that is lowered has the same listing as one that can stand in for it. -/
theorem ReplacesBody.lower {program reduced : List Term} (replaces : ReplacesBody program reduced)
    {listing : Assembly.Listing} (lowered : lower program = .ok listing) : lower reduced = .ok listing := by
  have functions : List.Forall₂ SameCode (definitions program) (definitions reduced) :=
    replaces.mentions.definitions
  have entered : SameCode ⟨entry, [], program⟩ ⟨entry, [], reduced⟩ := ⟨rfl, rfl, replaces.lowered⟩
  unfold Stackwise.lower at lowered ⊢
  cases fault : symbolFault? (definitions program) (calls program) with
  | some diagnostic => simp [fault] at lowered
  | none =>
    have sound : symbolFault? (definitions reduced) (calls reduced) = none := by
      rw [← symbolFault?_congr (signatures_eq functions)]
      exact symbolFault?_fewer fault replaces.mentions.calls
    rw [sound, ← lowerFunctions_congr (.cons entered functions)]
    simpa only [fault] using lowered

/-- Take any statement list of a program that is lowered, at the top, in a block or in a definition.
Where one of its statements always leaves the function and no function is defined behind it, the
statements behind it can be deleted and the listing stays the same. -/
theorem unreached_deleted {surroundings : Surroundings} {front later : List Term} {statement : Term}
    {listing : Assembly.Listing} (leaves : statement.returns = true) (plain : definitions later = [])
    (lowered : lower (surroundings.fill (front ++ statement :: later)) = .ok listing) :
    lower (surroundings.fill (front ++ [statement])) = .ok listing :=
  (surroundings.replaces ((replacesBody_cut leaves plain).behind front)).lower lowered

/-- The block that is assigned in `def f(a) { x = { ... } } f(3)`. -/
def assignedBlock : Surroundings :=
  .inside [] (.function "f" ["a"] (.inside [] (.assigned "x" (.block .whole)) [])) [.call "f" [(0, .literal 3)]]

def departure : Term := .branch (.var "a") (.leave none) (some (.block [.leave (some (.literal 1)), .var "z"]))

theorem assignedBlock_unreached_deleted :
    ∃ listing, lower (assignedBlock.fill ([.literal 2] ++ departure :: [.assign "y" (.literal 4), .call "g" []])) =
        .ok listing ∧ lower (assignedBlock.fill ([.literal 2] ++ [departure])) = .ok listing := by
  have accepted : (lower (assignedBlock.fill
      ([.literal 2] ++ departure :: [.assign "y" (.literal 4), .call "g" []]))).isOk = true := by decide +kernel
  cases lowered : lower (assignedBlock.fill
      ([.literal 2] ++ departure :: [.assign "y" (.literal 4), .call "g" []])) with
  | error diagnostic =>
    rw [lowered] at accepted
    cases accepted
  | ok listing => exact ⟨listing, rfl, unreached_deleted (by decide) rfl lowered⟩

end Stackwise.Proofs.UnreachedStatements
