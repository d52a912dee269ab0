import Stackwise.Proofs.EmissionSuccess

/-! Which programs are lowered, and what is reported of the others. The function symbols are
looked up in the whole tree, in the order in which they stand in the source, while only code
that is emitted can lack a register. -/

namespace Stackwise.Proofs.LoweringVerdicts
open Assembly Lowering EmissionSuccess

mutual

/-- The terms that stand in a term, each in front of its own parts. -/
def nodes : Term → List Term
  | .literal value => [.literal value]
  | .var name => [.var name]
  | .assign target value => .assign target value :: nodes value
  | .apply operator left right => .apply operator left right :: (nodes left ++ nodes right)
  | .branch test accepted none => .branch test accepted none :: (nodes test ++ nodes accepted)
  | .branch test accepted (some otherwise) =>
    .branch test accepted (some otherwise) :: (nodes test ++ nodes accepted ++ nodes otherwise)
  | .leave none => [.leave none]
  | .leave (some value) => .leave (some value) :: nodes value
  | .block body => .block body :: bodyNodes body
  | .call callee arguments => .call callee arguments :: argumentNodes arguments
  | .function name parameters body => .function name parameters body :: bodyNodes body

def bodyNodes : List Term → List Term
  | [] => []
  | statement :: rest => nodes statement ++ bodyNodes rest

def argumentNodes : List (Nat × Term) → List Term
  | [] => []
  | (_, value) :: rest => nodes value ++ argumentNodes rest

end

section Symbols

def mention? : Term → Option Mention
  | .call callee arguments => some (.call callee arguments.length)
  | .function name parameters body => some (.definition ⟨name, parameters, body⟩)
  | _ => none

mutual

theorem mentions_eq : (term : Term) → term.mentions = (nodes term).filterMap mention?
  | .literal _ | .var _ | .leave none => rfl
  | .assign _ value => by simp [Term.mentions, nodes, mention?, List.filterMap_cons, mentions_eq value]
  | .apply _ left right => by
    simp [Term.mentions, nodes, mention?, List.filterMap_cons, mentions_eq left, mentions_eq right]
  | .branch test accepted none => by
    simp [Term.mentions, nodes, mention?, List.filterMap_cons, mentions_eq test, mentions_eq accepted]
  | .branch test accepted (some otherwise) => by
    simp [Term.mentions, nodes, mention?, List.filterMap_cons, mentions_eq test,
      mentions_eq accepted, mentions_eq otherwise]
  | .leave (some value) => by simp [Term.mentions, nodes, mention?, List.filterMap_cons, mentions_eq value]
  | .block body => by simp [Term.mentions, nodes, mention?, List.filterMap_cons, bodyMentions_eq body]
  | .call _ arguments => by simp [Term.mentions, nodes, mention?, argumentMentions_eq arguments]
  | .function _ _ body => by simp [Term.mentions, nodes, mention?, bodyMentions_eq body]

theorem bodyMentions_eq : (body : List Term) →
    Term.bodyMentions body = (bodyNodes body).filterMap mention?
  | [] => rfl
  | statement :: rest => by
    simp [Term.bodyMentions, bodyNodes, mentions_eq statement, bodyMentions_eq rest]

theorem argumentMentions_eq : (arguments : List (Nat × Term)) →
    Term.argumentMentions arguments = (argumentNodes arguments).filterMap mention?
  | [] => rfl
  | (_, value) :: rest => by
    simp [Term.argumentMentions, argumentNodes, mentions_eq value, argumentMentions_eq rest]

end

def definition? : Term → Option Definition
  | .function name parameters body => some ⟨name, parameters, body⟩
  | _ => none

def call? : Term → Option (String × Nat)
  | .call callee arguments => some (callee, arguments.length)
  | _ => none

theorem definitions_eq (program : List Term) :
    definitions program = (bodyNodes program).filterMap definition? := by
  rw [definitions, bodyMentions_eq, List.filterMap_filterMap]
  congr 1
  funext term
  cases term <;> rfl

theorem calls_eq (program : List Term) : calls program = (bodyNodes program).filterMap call? := by
  rw [calls, bodyMentions_eq, List.filterMap_filterMap]
  congr 1
  funext term
  cases term <;> rfl

theorem mem_definitions {program : List Term} {function : Definition} :
    function ∈ definitions program ↔
      .function function.name function.parameters function.body ∈ bodyNodes program := by
  rw [definitions_eq, List.mem_filterMap]
  constructor
  · rintro ⟨term, member, found⟩
    cases term with
    | function =>
      cases found
      exact member
    | _ => cases found
  · intro member
    exact ⟨_, member, rfl⟩

end Symbols

section Search

/-- The first node that offends, given the nodes in front of it. -/
def First (offends : List Term → Term → Prop) (nodes : List Term) (node : Term) : Prop :=
  ∃ before after, nodes = before ++ node :: after ∧ offends before node ∧
    ∀ front other back, before = front ++ other :: back → ¬ offends front other

def Free (offends : List Term → Term → Prop) (nodes : List Term) : Prop :=
  ∀ before node after, nodes = before ++ node :: after → ¬ offends before node

variable {offends : List Term → Term → Prop} {head node : Term} {tail : List Term}

private theorem not_first_nil : ¬ First offends [] node := by
  rintro ⟨before, after, impossible, _⟩
  simp at impossible

private theorem free_nil : Free offends [] := by
  intro before node after impossible
  simp at impossible

private theorem first_cons : First offends (head :: tail) node ↔
    offends [] head ∧ node = head ∨
      ¬ offends [] head ∧ First (fun front => offends (head :: front)) tail node := by
  constructor
  · rintro ⟨before, after, split, offence, least⟩
    cases before with
    | nil =>
      cases split
      exact .inl ⟨offence, rfl⟩
    | cons first before =>
      cases split
      refine .inr ⟨least [] head before rfl, before, after, rfl, offence, ?_⟩
      rintro front other back rfl
      exact least (head :: front) other back rfl
  · rintro (⟨offence, rfl⟩ | ⟨innocent, before, after, rfl, offence, least⟩)
    · exact ⟨[], tail, rfl, offence, by simp⟩
    · refine ⟨head :: before, after, rfl, offence, ?_⟩
      intro front other back split
      cases front with
      | nil =>
        cases split
        exact innocent
      | cons first front =>
        cases split
        exact least front other back rfl

private theorem free_cons : Free offends (head :: tail) ↔
    ¬ offends [] head ∧ Free (fun front => offends (head :: front)) tail := by
  constructor
  · intro free
    exact ⟨free [] head tail rfl, fun before node after split =>
      free (head :: before) node after (by rw [split, List.cons_append])⟩
  · rintro ⟨innocent, free⟩ before node after split
    cases before with
    | nil =>
      cases split
      exact innocent
    | cons first before =>
      cases split
      exact free before node after rfl

end Search

/-- A definition under a name that is one of `earlier` or belongs to a definition in front of it. -/
def Clashes (earlier : List String) (before : List Term) (node : Term) : Prop :=
  ∃ name parameters body, node = .function name parameters body ∧
    (name ∈ earlier ∨ ∃ others code, .function name others code ∈ before)

private theorem clashes_cons (earlier : List String) (name : String) (parameters : List String)
    (body : List Term) :
    (fun front => Clashes earlier (.function name parameters body :: front)) =
      Clashes (name :: earlier) := by
  funext front node
  apply propext
  constructor
  · rintro ⟨other, listed, code, rfl, taken | ⟨others, found, member⟩⟩
    · exact ⟨other, listed, code, rfl, .inl (List.mem_cons_of_mem _ taken)⟩
    · obtain same | member := List.mem_cons.mp member
      · cases same
        exact ⟨name, listed, code, rfl, .inl List.mem_cons_self⟩
      · exact ⟨other, listed, code, rfl, .inr ⟨others, found, member⟩⟩
  · rintro ⟨other, listed, code, rfl, taken | ⟨others, found, member⟩⟩
    · obtain rfl | taken := List.mem_cons.mp taken
      · exact ⟨other, listed, code, rfl, .inr ⟨parameters, body, List.mem_cons_self⟩⟩
      · exact ⟨other, listed, code, rfl, .inl taken⟩
    · exact ⟨other, listed, code, rfl, .inr ⟨others, found, List.mem_cons_of_mem _ member⟩⟩

private theorem clashes_skip (earlier : List String) {head : Term} (plain : definition? head = none) :
    (fun front => Clashes earlier (head :: front)) = Clashes earlier := by
  funext front node
  have apart {name : String} {parameters : List String} {body : List Term} :
      .function name parameters body ≠ head := by
    rintro rfl
    cases plain
  simp [Clashes, apart]

private theorem clashes_nil {earlier : List String} {name : String} {parameters : List String}
    {body : List Term} : Clashes earlier [] (.function name parameters body) ↔ name ∈ earlier := by
  simp [Clashes]

/-- The search for a clash finds the first one, or there is none. -/
theorem redefinition?_spec (earlier : List String) (terms : List Term) :
    (∀ name, redefinition? earlier (terms.filterMap definition?) = some name ↔
      ∃ parameters body, First (Clashes earlier) terms (.function name parameters body)) ∧
    (redefinition? earlier (terms.filterMap definition?) = none ↔ Free (Clashes earlier) terms) := by
  induction terms generalizing earlier with
  | nil => simp [redefinition?, not_first_nil, free_nil]
  | cons head tail ih =>
    cases found : definition? head with
    | none =>
      have innocent : ¬ Clashes earlier [] head := by
        rintro ⟨name, parameters, body, rfl, _⟩
        cases found
      simpa [List.filterMap_cons, found, first_cons, free_cons, innocent, clashes_skip _ found]
        using ih earlier
    | some function =>
      obtain ⟨name, parameters, body⟩ := function
      obtain rfl : head = .function name parameters body := by
        cases head <;> cases found
        rfl
      simp only [List.filterMap_cons, found, redefinition?, first_cons, free_cons, clashes_nil,
        clashes_cons]
      split
      next taken => simp [taken, eq_comm]
      next fresh => simpa [fresh] using ih (name :: earlier)

/-- A definition or call of a function with a name that the assembler reserves. -/
def Reserves (node : Term) : Prop :=
  ∃ name, isReserved name ∧
    ((∃ parameters body, node = .function name parameters body) ∨ ∃ arguments, node = .call name arguments)

/-- A call that passes another number of arguments than the definition takes. -/
def Miscalls (program : List Term) (_ : List Term) (node : Term) : Prop :=
  ∃ callee arguments parameters body, node = .call callee arguments ∧
    .function callee parameters body ∈ bodyNodes program ∧ parameters.length ≠ arguments.length

def EmittedCall (program : List Term) (callee : String) (arguments : List (Nat × Term)) : Prop :=
  EmittedIn (.call callee arguments) (.block program) ∨
    ∃ name parameters body, .function name parameters body ∈ bodyNodes program ∧
      EmittedIn (.call callee arguments) (.block body)

/-- A definition has more parameters than there are registers, or a call that is emitted has
an argument without a register. -/
def Overloads (program : List Term) : Prop :=
  (∃ name parameters body, .function name parameters body ∈ bodyNodes program ∧ 6 < parameters.length) ∨
    ∃ callee arguments, EmittedCall program callee arguments ∧ ∃ argument ∈ arguments, 5 < argument.1

section Faults

variable {program : List Term}

private theorem redefinition?_eq_some_iff {name : String} :
    redefinition? [entry] (definitions program) = some name ↔
      ∃ parameters body, First (Clashes [entry]) (bodyNodes program) (.function name parameters body) := by
  rw [definitions_eq, (redefinition?_spec _ _).1]

theorem redefinition?_eq_none_iff :
    redefinition? [entry] (definitions program) = none ↔ Free (Clashes [entry]) (bodyNodes program) := by
  rw [definitions_eq, (redefinition?_spec _ _).2]

/-- Without a clash a name stands for one definition. -/
theorem parameters_unique (free : Free (Clashes [entry]) (bodyNodes program)) {name : String}
    {parameters others : List String} {body code : List Term}
    (one : .function name parameters body ∈ bodyNodes program)
    (two : .function name others code ∈ bodyNodes program) : parameters = others := by
  obtain ⟨before, after, split⟩ := List.append_of_mem one
  have member := two
  rw [split] at member
  obtain earlier | same | later := by simpa only [List.mem_append, List.mem_cons] using member
  · exact (free before _ after split ⟨_, _, _, rfl, .inr ⟨others, code, earlier⟩⟩).elim
  · cases same
    rfl
  · obtain ⟨front, back, rfl⟩ := List.append_of_mem later
    have clash : Clashes [entry] (before ++ .function name parameters body :: front)
        (.function name others code) :=
      ⟨name, others, code, rfl, .inr ⟨parameters, body, by simp⟩⟩
    exact (free _ _ back (by simp [split]) clash).elim

theorem reservedName?_eq_none_iff :
    reservedName? (definitions program) (calls program) = none ↔
      ∀ node ∈ bodyNodes program, ¬ Reserves node := by
  rw [reservedName?, List.find?_eq_none, definitions_eq, calls_eq]
  constructor
  · rintro unreserved node member ⟨name, reserved, ⟨parameters, body, rfl⟩ | ⟨arguments, rfl⟩⟩
    · apply unreserved name _ reserved
      apply List.mem_append_left
      exact List.mem_map.mpr ⟨⟨name, parameters, body⟩, List.mem_filterMap.mpr ⟨_, member, rfl⟩, rfl⟩
    · apply unreserved name _ reserved
      apply List.mem_append_right
      exact List.mem_map.mpr ⟨(name, arguments.length), List.mem_filterMap.mpr ⟨_, member, rfl⟩, rfl⟩
  · intro unreserved name member reserved
    obtain named | called := List.mem_append.mp member
    · obtain ⟨function, found, rfl⟩ := List.mem_map.mp named
      obtain ⟨node, inside, same⟩ := List.mem_filterMap.mp found
      cases node <;> cases same
      exact unreserved _ inside ⟨_, reserved, .inl ⟨_, _, rfl⟩⟩
    · obtain ⟨call, found, rfl⟩ := List.mem_map.mp called
      obtain ⟨node, inside, same⟩ := List.mem_filterMap.mp found
      cases node <;> cases same
      exact unreserved _ inside ⟨_, reserved, .inr ⟨_, rfl⟩⟩

def judgement (functions : List Definition) (call : String × Nat) : Option Diagnostic :=
  match functions.find? (·.name = call.1) with
  | some function =>
    if function.parameters.length = call.2 then none
    else some (.arity call.1 function.parameters.length call.2)
  | none => none

private theorem judgement_eq_some_iff (free : Free (Clashes [entry]) (bodyNodes program)) {callee : String}
    {count : Nat} {fault : Diagnostic} :
    judgement (definitions program) (callee, count) = some fault ↔
      ∃ parameters body, .function callee parameters body ∈ bodyNodes program ∧
        parameters.length ≠ count ∧ fault = .arity callee parameters.length count := by
  unfold judgement
  split
  next function found =>
    have named : function.name = callee := by simpa using List.find?_some found
    subst named
    have member := mem_definitions.mp (List.mem_of_find?_eq_some found)
    simp only
    split
    next same =>
      constructor
      · intro impossible
        cases impossible
      · rintro ⟨parameters, body, other, different, _⟩
        rw [parameters_unique free other member] at different
        exact (different same).elim
    next different =>
      constructor
      · rintro ⟨⟩
        exact ⟨_, _, member, different, rfl⟩
      · rintro ⟨parameters, body, other, _, rfl⟩
        rw [parameters_unique free other member]
  next missing =>
    constructor
    · intro impossible
      cases impossible
    · rintro ⟨parameters, body, member, _⟩
      have defined : ⟨callee, parameters, body⟩ ∈ definitions program := mem_definitions.mpr member
      simpa using List.find?_eq_none.mp missing _ defined

theorem wrongCall?_eq (functions : List Definition) (terms : List Term) :
    wrongCall? functions (terms.filterMap call?) =
      terms.findSome? fun node => (call? node).bind (judgement functions) := by
  induction terms with
  | nil => rfl
  | cons head tail ih =>
    cases called : call? head with
    | none => simpa [List.filterMap_cons, called] using ih
    | some call =>
      simp only [List.filterMap_cons, called, List.findSome?_cons, Option.bind_some, ← ih]
      rfl

theorem fault_eq_some_iff (free : Free (Clashes [entry]) (bodyNodes program)) {node : Term}
    {fault : Diagnostic} :
    (call? node).bind (judgement (definitions program)) = some fault ↔
      ∃ callee arguments parameters body, node = .call callee arguments ∧
        .function callee parameters body ∈ bodyNodes program ∧ parameters.length ≠ arguments.length ∧
        fault = .arity callee parameters.length arguments.length := by
  cases node with
  | call callee arguments => simp [call?, judgement_eq_some_iff free]
  | _ => simp [call?]

theorem fault_eq_none_iff (free : Free (Clashes [entry]) (bodyNodes program)) {before : List Term}
    {node : Term} :
    (call? node).bind (judgement (definitions program)) = none ↔ ¬ Miscalls program before node := by
  rw [Option.eq_none_iff_forall_ne_some]
  constructor
  · rintro silent ⟨callee, arguments, parameters, body, same, member, different⟩
    exact silent _ ((fault_eq_some_iff free).mpr ⟨_, _, _, _, same, member, different, rfl⟩)
  · intro fits fault found
    obtain ⟨callee, arguments, parameters, body, same, member, different, _⟩ :=
      (fault_eq_some_iff free).mp found
    exact fits ⟨callee, arguments, parameters, body, same, member, different⟩

theorem wrongCall?_eq_none_iff (free : Free (Clashes [entry]) (bodyNodes program)) :
    wrongCall? (definitions program) (calls program) = none ↔
      Free (Miscalls program) (bodyNodes program) := by
  rw [calls_eq, wrongCall?_eq, List.findSome?_eq_none_iff]
  constructor
  · intro silent before node after split
    exact (fault_eq_none_iff free).mp (silent node (by simp [split]))
  · intro fits node member
    obtain ⟨before, after, split⟩ := List.append_of_mem member
    exact (fault_eq_none_iff free).mpr (fits before node after split)

theorem wrongCall?_eq_some_iff (free : Free (Clashes [entry]) (bodyNodes program))
    {fault : Diagnostic} :
    wrongCall? (definitions program) (calls program) = some fault ↔
      ∃ callee arguments parameters body,
        First (Miscalls program) (bodyNodes program) (.call callee arguments) ∧
        .function callee parameters body ∈ bodyNodes program ∧
        fault = .arity callee parameters.length arguments.length := by
  rw [calls_eq, wrongCall?_eq, List.findSome?_eq_some_iff]
  constructor
  · rintro ⟨before, node, after, split, found, silent⟩
    obtain ⟨callee, arguments, parameters, body, rfl, member, different, rfl⟩ :=
      (fault_eq_some_iff free).mp found
    refine ⟨callee, arguments, parameters, body, ⟨before, after, split, ?_, ?_⟩, member, rfl⟩
    · exact ⟨callee, arguments, parameters, body, rfl, member, different⟩
    · rintro front other back rfl
      exact (fault_eq_none_iff free).mp (silent other (by simp))
  · rintro ⟨callee, arguments, parameters, body, ⟨before, after, split, offence, least⟩, member, rfl⟩
    refine ⟨before, _, after, split, ?_, fun other inside => ?_⟩
    · obtain ⟨_, _, others, code, same, found, different⟩ := offence
      cases same
      rw [parameters_unique free found member] at different
      exact (fault_eq_some_iff free).mpr ⟨_, _, _, _, rfl, member, different, rfl⟩
    · obtain ⟨front, back, same⟩ := List.append_of_mem inside
      exact (fault_eq_none_iff free).mpr (least front other back same)

theorem supported_iff :
    (∀ function ∈ ⟨entry, [], program⟩ :: definitions program, Supported function) ↔
      ¬ Overloads program := by
  constructor
  · rintro supported (⟨name, parameters, body, member, many⟩ | ⟨callee, arguments, emitted, argument, passed, beyond⟩)
    · have := (supported ⟨name, parameters, body⟩ (List.mem_cons_of_mem _ (mem_definitions.mpr member))).1
      exact Nat.not_lt.mpr this many
    · obtain within | ⟨name, parameters, body, member, within⟩ := emitted
      · have := (supported _ List.mem_cons_self).2 callee arguments within argument passed
        omega
      · have defined : ⟨name, parameters, body⟩ ∈ definitions program := mem_definitions.mpr member
        have := (supported _ (List.mem_cons_of_mem _ defined)).2 callee arguments within argument passed
        omega
  · intro bounded function member
    obtain rfl | member := List.mem_cons.mp member
    · refine ⟨Nat.zero_le _, fun callee arguments within argument passed => ?_⟩
      by_contra beyond
      exact bounded (.inr ⟨callee, arguments, .inl within, argument, passed, Nat.lt_of_not_le beyond⟩)
    · have found := mem_definitions.mp member
      constructor
      · by_contra many
        exact bounded (.inl ⟨_, _, _, found, Nat.lt_of_not_le many⟩)
      · intro callee arguments within argument passed
        by_contra beyond
        exact bounded (.inr ⟨callee, arguments, .inr ⟨_, _, _, found, within⟩, argument, passed,
          Nat.lt_of_not_le beyond⟩)

end Faults

section Verdicts

variable {program : List Term}

inductive Outcome (program : List Term) : Except Diagnostic Listing → Prop where
  | redefined {name : String} (found : redefinition? [entry] (definitions program) = some name) :
      Outcome program (.error (.redefined name))
  | reserved {name : String} (free : redefinition? [entry] (definitions program) = none)
      (found : reservedName? (definitions program) (calls program) = some name) :
      Outcome program (.error (.defect (Defect.reservedName name).description))
  | miscalled {fault : Diagnostic} (free : redefinition? [entry] (definitions program) = none)
      (unreserved : reservedName? (definitions program) (calls program) = none)
      (found : wrongCall? (definitions program) (calls program) = some fault) :
      Outcome program (.error fault)
  | overloaded {defect : Defect} (free : redefinition? [entry] (definitions program) = none)
      (unreserved : reservedName? (definitions program) (calls program) = none)
      (fits : wrongCall? (definitions program) (calls program) = none)
      (overloads : Overloads program) (kind : Unsupported defect) :
      Outcome program (.error (.defect defect.description))
  | lowered {listing : Listing} (free : redefinition? [entry] (definitions program) = none)
      (unreserved : reservedName? (definitions program) (calls program) = none)
      (fits : wrongCall? (definitions program) (calls program) = none)
      (bounded : ¬ Overloads program) : Outcome program (.ok listing)

theorem outcome (program : List Term) : Outcome program (lower program) := by
  cases free : redefinition? [entry] (definitions program) with
  | some name =>
    have reported : lower program = .error (.redefined name) := by simp [lower, symbolFault?, free]
    rw [reported]
    exact .redefined free
  | none =>
  cases unreserved : reservedName? (definitions program) (calls program) with
  | some name =>
    have reported : lower program = .error (.defect (Defect.reservedName name).description) := by
      simp [lower, symbolFault?, free, unreserved]
    rw [reported]
    exact .reserved free unreserved
  | none =>
  cases fits : wrongCall? (definitions program) (calls program) with
  | some fault =>
    have reported : lower program = .error fault := by simp [lower, symbolFault?, free, unreserved, fits]
    rw [reported]
    exact .miscalled free unreserved fits
  | none =>
    by_cases overloads : Overloads program
    · have unsupported := mt supported_iff.mp (not_not_intro overloads)
      obtain ⟨defect, failed, kind⟩ := lowerFunctions_error unsupported Allocation.empty
      have reported : lower program = .error (.defect defect.description) := by
        simp [lower, symbolFault?, free, unreserved, fits, failed]
      rw [reported]
      exact .overloaded free unreserved fits overloads kind
    · obtain ⟨lines, final, emitted⟩ := lowerFunctions_ok (supported_iff.mpr overloads) Allocation.empty
      have reported : lower program = .ok (header ++ lines) := by
        simp [lower, symbolFault?, free, unreserved, fits, emitted]
      rw [reported]
      exact .lowered free unreserved fits overloads

theorem head_eq_of_append {first front second back : String} {one two : Char}
    (same : first ++ front = second ++ back) (begins : first.toList.head? = some one)
    (others : second.toList.head? = some two) : one = two := by
  have letters := congrArg String.toList same
  have heads := congrArg List.head? letters
  simpa [String.toList_append, List.head?_append, begins, others] using heads

/-- The text of a reserved name is no text of another defect: it begins differently. -/
theorem reserved_text {name : String} {defect : Defect} (kind : Unsupported defect) :
    (Defect.reservedName name).description ≠ defect.description := by
  intro same
  have reserved : "function name '".toList.head? = some 'f' := rfl
  have missing : "argument index ".toList.head? = some 'a' := rfl
  have many : "'".toList.head? = some '\'' := rfl
  cases defect with
  | noRegister position callee =>
    change "function name '" ++ name ++ _ = "argument index " ++ toString position ++ " of '" ++ callee ++ _
      at same
    simp only [String.append_assoc] at same
    exact absurd (head_eq_of_append same reserved missing) (by decide)
  | parameterCount function count =>
    change "function name '" ++ name ++ _ = "'" ++ function ++ "' has " ++ toString count ++ _ at same
    simp only [String.append_assoc] at same
    exact absurd (head_eq_of_append same reserved many) (by decide)
  | reservedName | unbalanced => exact kind

namespace Outcome

variable {verdict : Except Diagnostic Listing}

private theorem redefined_iff (result : Outcome program verdict) {name : String} :
    verdict = .error (.redefined name) ↔ redefinition? [entry] (definitions program) = some name := by
  cases result with
  | redefined found => simp [found]
  | miscalled free _ found =>
    obtain ⟨_, _, _, _, _, _, rfl⟩ :=
      (wrongCall?_eq_some_iff (redefinition?_eq_none_iff.mp free)).mp found
    simp [free]
  | reserved free | overloaded free | lowered free => simp [free]

private theorem reserved_iff (result : Outcome program verdict)
    (free : redefinition? [entry] (definitions program) = none) :
    (∃ name, verdict = .error (.defect (Defect.reservedName name).description)) ↔
      reservedName? (definitions program) (calls program) ≠ none := by
  cases result with
  | redefined found => simp [free] at found
  | @reserved name _ found => simpa [found] using ⟨name, rfl⟩
  | miscalled _ unreserved found =>
    obtain ⟨_, _, _, _, _, _, rfl⟩ :=
      (wrongCall?_eq_some_iff (redefinition?_eq_none_iff.mp free)).mp found
    simp [unreserved]
  | overloaded _ unreserved _ _ kind => simp [unreserved, (reserved_text kind).symm]
  | lowered _ unreserved => simp [unreserved]

private theorem miscalled_iff (result : Outcome program verdict)
    (free : redefinition? [entry] (definitions program) = none)
    (unreserved : reservedName? (definitions program) (calls program) = none)
    {callee : String} {expected found : Nat} :
    verdict = .error (.arity callee expected found) ↔
      wrongCall? (definitions program) (calls program) = some (.arity callee expected found) := by
  cases result with
  | redefined clash => simp [free] at clash
  | reserved _ name => simp [unreserved] at name
  | miscalled _ _ fault => simp [fault]
  | overloaded _ _ fits | lowered _ _ fits => simp [fits]

private theorem overloaded_iff (result : Outcome program verdict)
    (free : redefinition? [entry] (definitions program) = none)
    (unreserved : reservedName? (definitions program) (calls program) = none)
    (fits : wrongCall? (definitions program) (calls program) = none) :
    ((∃ text, verdict = .error (.defect text)) ↔ Overloads program) ∧
    ((∃ listing, verdict = .ok listing) ↔ ¬ Overloads program) := by
  cases result with
  | redefined clash => simp [free] at clash
  | reserved _ name => simp [unreserved] at name
  | miscalled _ _ fault => simp [fits] at fault
  | overloaded _ _ _ overloads => simp [overloads]
  | lowered _ _ _ bounded => simp [bounded]

end Outcome

/-- What becomes of a program. A name that is taken is reported first, and of several the first
one; then a reserved name; then the first call that does not fit its definition. A program
without these is lowered, unless a definition or a call that is emitted lacks a register. -/
theorem lower_verdict (program : List Term) :
    (∀ name, lower program = .error (.redefined name) ↔
      ∃ parameters body,
        First (Clashes [entry]) (bodyNodes program) (.function name parameters body)) ∧
    (Free (Clashes [entry]) (bodyNodes program) →
      ((∃ name, lower program = .error (.defect (Defect.reservedName name).description)) ↔
        ∃ node ∈ bodyNodes program, Reserves node) ∧
      ((∀ node ∈ bodyNodes program, ¬ Reserves node) →
        (∀ callee expected found, lower program = .error (.arity callee expected found) ↔
          ∃ arguments parameters body,
            First (Miscalls program) (bodyNodes program) (.call callee arguments) ∧
            .function callee parameters body ∈ bodyNodes program ∧
            expected = parameters.length ∧ found = arguments.length) ∧
        (Free (Miscalls program) (bodyNodes program) →
          ((∃ text, lower program = .error (.defect text)) ↔ Overloads program) ∧
          ((∃ listing, lower program = .ok listing) ↔ ¬ Overloads program)))) := by
  have result := outcome program
  refine ⟨fun name => ?_, fun free => ?_⟩
  · exact result.redefined_iff.trans redefinition?_eq_some_iff
  have distinct := redefinition?_eq_none_iff.mpr free
  refine ⟨?_, fun unreserved => ?_⟩
  · rw [result.reserved_iff distinct, Ne, reservedName?_eq_none_iff]
    simp
  have callable := reservedName?_eq_none_iff.mpr unreserved
  refine ⟨fun callee expected found => ?_, fun fits => ?_⟩
  · rw [result.miscalled_iff distinct callable, wrongCall?_eq_some_iff free]
    constructor
    · rintro ⟨_, arguments, parameters, body, first, member, same⟩
      cases same
      exact ⟨arguments, parameters, body, first, member, rfl, rfl⟩
    · rintro ⟨arguments, parameters, body, first, member, rfl, rfl⟩
      exact ⟨callee, arguments, parameters, body, first, member, rfl⟩
  · exact result.overloaded_iff distinct callable ((wrongCall?_eq_none_iff free).mpr fits)

def unreachedCall : List Term := [.leave none, .block [.call "g" [(7, .literal 1)]], .function "f" ["a"] []]

theorem lower_unreachedCall : ∃ listing, lower unreachedCall = .ok listing := by
  have distinct : redefinition? [entry] (definitions unreachedCall) = none := by decide
  have callable : reservedName? (definitions unreachedCall) (calls unreachedCall) = none := by decide
  have fitting : wrongCall? (definitions unreachedCall) (calls unreachedCall) = none := by decide
  have bounded : ¬ Overloads unreachedCall := by
    have main : Supplied (.block unreachedCall) := by
      refine supplied_cons.mpr ⟨supplied_leaf fun _ _ within => ?_, fun falls => ?_⟩
      · cases within
      · cases falls
    have defined : definitions unreachedCall = [⟨"f", ["a"], []⟩] := rfl
    have other : Supported ⟨"f", ["a"], []⟩ := ⟨by decide, supplied_nil⟩
    apply supported_iff.mp
    rw [defined]
    exact List.forall_mem_cons.mpr ⟨⟨Nat.zero_le _, main⟩, List.forall_mem_singleton.mpr other⟩
  have free := redefinition?_eq_none_iff.mp distinct
  have unreserved := reservedName?_eq_none_iff.mp callable
  have fits := (wrongCall?_eq_none_iff free).mp fitting
  exact ((((lower_verdict unreachedCall).2 free).2 unreserved).2 fits).2.mpr bounded

end Verdicts

end Stackwise.Proofs.LoweringVerdicts
