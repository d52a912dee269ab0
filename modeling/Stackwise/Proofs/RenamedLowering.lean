import Mathlib.Data.Set.Function
import Stackwise.Proofs.FrameSlots
import Stackwise.Proofs.Signatures

/-! Renaming the variables of a program. Slots are claimed on first use and found by name, so a
renaming that keeps the names apart finds the same slots in the same order. The lowering then emits
the same lines and only the names in their comments differ. Function names are not renamed. -/

namespace Stackwise.Proofs.RenamedLowering
open Assembly Lowering Emission EmissionSuccess FrameSlots Signatures

mutual

def renamed (rename : String → String) : Term → Term
  | .literal value => .literal value
  | .var name => .var (rename name)
  | .assign target value => .assign (rename target) (renamed rename value)
  | .apply operator left right => .apply operator (renamed rename left) (renamed rename right)
  | .branch test accepted none => .branch (renamed rename test) (renamed rename accepted) none
  | .branch test accepted (some otherwise) =>
    .branch (renamed rename test) (renamed rename accepted) (some (renamed rename otherwise))
  | .leave none => .leave none
  | .leave (some value) => .leave (some (renamed rename value))
  | .block body => .block (renamedBody rename body)
  | .call callee arguments => .call callee (renamedArguments rename arguments)
  | .function name parameters body => .function name (parameters.map rename) (renamedBody rename body)

def renamedBody (rename : String → String) : List Term → List Term
  | [] => []
  | statement :: rest => renamed rename statement :: renamedBody rename rest

def renamedArguments (rename : String → String) : List (Nat × Term) → List (Nat × Term)
  | [] => []
  | (position, value) :: rest => (position, renamed rename value) :: renamedArguments rename rest

end

mutual

/-- The variables of a term: the parameters of its definitions, the targets of its assignments and the
names that it reads. -/
def locals : Term → List String
  | .literal _ => []
  | .var name => [name]
  | .assign target value => target :: locals value
  | .apply _ left right => locals left ++ locals right
  | .branch test accepted none => locals test ++ locals accepted
  | .branch test accepted (some otherwise) => locals test ++ locals accepted ++ locals otherwise
  | .leave none => []
  | .leave (some value) => locals value
  | .block body => bodyLocals body
  | .call _ arguments => argumentLocals arguments
  | .function _ parameters body => parameters ++ bodyLocals body

def bodyLocals : List Term → List String
  | [] => []
  | statement :: rest => locals statement ++ bodyLocals rest

def argumentLocals : List (Nat × Term) → List String
  | [] => []
  | (_, value) :: rest => locals value ++ argumentLocals rest

end

def renamedDefinition (rename : String → String) (function : Definition) : Definition :=
  ⟨function.name, function.parameters.map rename, renamedBody rename function.body⟩

def renamedMention (rename : String → String) : Mention → Mention
  | .definition found => .definition (renamedDefinition rename found)
  | .call callee count => .call callee count

def renamedSlots (rename : String → String) (allocation : Allocation) : Allocation :=
  { allocation with slots := allocation.slots.map rename }

def renamedLine (rename : String → String) : Line → Line
  | .directive text => .directive text
  | .label name => .label name
  | .code instruction comment => .code instruction (comment.map rename)

section Shapes

variable {rename : String → String}

mutual

theorem returns_renamed : (term : Term) → (renamed rename term).returns = term.returns
  | .literal _ | .var _ | .assign _ _ | .apply _ _ _ | .branch _ _ none | .leave none | .leave (some _)
  | .call _ _ | .function _ _ _ => by simp only [renamed, Term.returns]
  | .branch _ accepted (some otherwise) => by
    rw [renamed, Term.returns, Term.returns, returns_renamed accepted, returns_renamed otherwise]
  | .block body => by rw [renamed, Term.returns, Term.returns, someReturns_renamed body]

theorem someReturns_renamed : (body : List Term) →
    Term.someReturns (renamedBody rename body) = Term.someReturns body
  | [] => by rw [renamedBody]
  | statement :: rest => by
    rw [renamedBody, Term.someReturns, Term.someReturns, returns_renamed statement, someReturns_renamed rest]

end

private theorem isExpression_renamed (term : Term) : (renamed rename term).isExpression = term.isExpression := by
  cases term with
  | branch test accepted otherwise => cases otherwise <;> rfl
  | leave value => cases value <;> rfl
  | _ => rfl

theorem positions_renamed (arguments : List (Nat × Term)) :
    (renamedArguments rename arguments).map (·.1) = arguments.map (·.1) := by
  induction arguments with
  | nil => rfl
  | cons argument rest ih => rw [renamedArguments, List.map_cons, List.map_cons, ih]

private theorem length_renamedArguments (arguments : List (Nat × Term)) :
    (renamedArguments rename arguments).length = arguments.length := by
  have positions : (renamedArguments rename arguments).map (·.1) = arguments.map (·.1) := positions_renamed arguments
  simpa using congrArg List.length positions

end Shapes

section Symbols

variable {rename : String → String}

mutual

theorem mentions_renamed : (term : Term) →
    (renamed rename term).mentions = term.mentions.map (renamedMention rename)
  | .literal _ | .var _ | .leave none => by simp only [renamed, Term.mentions, List.map_nil]
  | .assign _ value => by rw [renamed, Term.mentions, Term.mentions, mentions_renamed value]
  | .apply _ left right => by
    rw [renamed, Term.mentions, Term.mentions, List.map_append, mentions_renamed left, mentions_renamed right]
  | .branch test accepted none => by
    rw [renamed, Term.mentions, Term.mentions, List.map_append, mentions_renamed test, mentions_renamed accepted]
  | .branch test accepted (some otherwise) => by
    rw [renamed, Term.mentions, Term.mentions, List.map_append, List.map_append, mentions_renamed test,
      mentions_renamed accepted, mentions_renamed otherwise]
  | .leave (some value) => by rw [renamed, Term.mentions, Term.mentions, mentions_renamed value]
  | .block body => by rw [renamed, Term.mentions, Term.mentions, bodyMentions_renamed body]
  | .call _ arguments => by
    rw [renamed, Term.mentions, Term.mentions, List.map_cons, argumentMentions_renamed arguments,
      length_renamedArguments]
    rfl
  | .function _ _ body => by
    rw [renamed, Term.mentions, Term.mentions, List.map_cons, bodyMentions_renamed body]
    rfl

theorem bodyMentions_renamed : (body : List Term) →
    Term.bodyMentions (renamedBody rename body) = (Term.bodyMentions body).map (renamedMention rename)
  | [] => by rw [renamedBody, Term.bodyMentions, List.map_nil]
  | statement :: rest => by
    rw [renamedBody, Term.bodyMentions, Term.bodyMentions, List.map_append, mentions_renamed statement,
      bodyMentions_renamed rest]

theorem argumentMentions_renamed : (arguments : List (Nat × Term)) →
    Term.argumentMentions (renamedArguments rename arguments) =
      (Term.argumentMentions arguments).map (renamedMention rename)
  | [] => by rw [renamedArguments, Term.argumentMentions, List.map_nil]
  | (_, value) :: rest => by
    rw [renamedArguments, Term.argumentMentions, Term.argumentMentions, List.map_append, mentions_renamed value,
      argumentMentions_renamed rest]

end

private theorem definitions_renamed (program : List Term) :
    definitions (renamedBody rename program) = (definitions program).map (renamedDefinition rename) := by
  rw [definitions, definitions, bodyMentions_renamed, List.filterMap_map, List.map_filterMap]
  congr 1
  funext mention
  cases mention <;> rfl

private theorem calls_renamed (program : List Term) : calls (renamedBody rename program) = calls program := by
  rw [calls, calls, bodyMentions_renamed, List.filterMap_map]
  congr 1
  funext mention
  cases mention <;> rfl

private theorem signatures_renamed (functions : List Definition) :
    (functions.map (renamedDefinition rename)).map signature = functions.map signature := by
  rw [List.map_map]
  refine List.map_congr_left fun function _ => ?_
  simp [signature, renamedDefinition]

def functionLocals (function : Definition) : List String := function.parameters ++ bodyLocals function.body

mutual

theorem locals_of_mention {function : Definition} : {term : Term} →
    .definition function ∈ term.mentions → functionLocals function ⊆ locals term
  | .literal _, member | .var _, member | .leave none, member => by simp [Term.mentions] at member
  | .assign _ value, member => by
    rw [Term.mentions] at member
    rw [locals]
    exact List.subset_cons_of_subset _ (locals_of_mention member)
  | .apply _ left right, member => by
    rw [Term.mentions] at member
    rw [locals]
    rcases List.mem_append.mp member with member | member
    · exact List.subset_append_of_subset_left _ (locals_of_mention member)
    · exact List.subset_append_of_subset_right _ (locals_of_mention member)
  | .branch test accepted none, member => by
    rw [Term.mentions] at member
    rw [locals]
    rcases List.mem_append.mp member with member | member
    · exact List.subset_append_of_subset_left _ (locals_of_mention member)
    · exact List.subset_append_of_subset_right _ (locals_of_mention member)
  | .branch test accepted (some otherwise), member => by
    rw [Term.mentions] at member
    rw [locals]
    rcases List.mem_append.mp member with member | member
    · apply List.subset_append_of_subset_left
      rcases List.mem_append.mp member with member | member
      · exact List.subset_append_of_subset_left _ (locals_of_mention member)
      · exact List.subset_append_of_subset_right _ (locals_of_mention member)
    · exact List.subset_append_of_subset_right _ (locals_of_mention member)
  | .leave (some value), member => by
    rw [Term.mentions] at member
    rw [locals]
    exact locals_of_mention member
  | .block body, member => by
    rw [Term.mentions] at member
    rw [locals]
    exact bodyLocals_of_mention member
  | .call _ arguments, member => by
    rw [Term.mentions] at member
    rw [locals]
    obtain different | member := List.mem_cons.mp member
    · cases different
    · exact argumentLocals_of_mention member
  | .function _ _ body, member => by
    rw [Term.mentions] at member
    rw [locals]
    obtain same | member := List.mem_cons.mp member
    · cases same
      exact List.Subset.refl _
    · exact List.subset_append_of_subset_right _ (bodyLocals_of_mention member)

theorem bodyLocals_of_mention {function : Definition} : {body : List Term} →
    .definition function ∈ Term.bodyMentions body → functionLocals function ⊆ bodyLocals body
  | [], member => by simp [Term.bodyMentions] at member
  | statement :: rest, member => by
    rw [Term.bodyMentions] at member
    rw [bodyLocals]
    rcases List.mem_append.mp member with member | member
    · exact List.subset_append_of_subset_left _ (locals_of_mention member)
    · exact List.subset_append_of_subset_right _ (bodyLocals_of_mention member)

theorem argumentLocals_of_mention {function : Definition} : {arguments : List (Nat × Term)} →
    .definition function ∈ Term.argumentMentions arguments → functionLocals function ⊆ argumentLocals arguments
  | [], member => by simp [Term.argumentMentions] at member
  | (_, value) :: rest, member => by
    rw [Term.argumentMentions] at member
    rw [argumentLocals]
    rcases List.mem_append.mp member with member | member
    · exact List.subset_append_of_subset_left _ (locals_of_mention member)
    · exact List.subset_append_of_subset_right _ (argumentLocals_of_mention member)

end

end Symbols

section Emissions

variable (rename : String → String) (names : List String)

/-- The second emission emits what the first one does, with the names in slots and comments renamed,
or fails as the first one does. All these names are known. -/
def Renames (first second : Emission) : Prop :=
  ∀ start : Allocation, start.slots ⊆ names →
    match first start with
    | .error defect => second (renamedSlots rename start) = .error defect
    | .ok (lines, final) =>
      second (renamedSlots rename start) = .ok (lines.map (renamedLine rename), renamedSlots rename final) ∧
        final.slots ⊆ names ∧ comments lines ⊆ names

variable {rename : String → String} {names : List String} {first second other next : Emission}

theorem Renames.append (one : Renames rename names first other) (two : Renames rename names second next) :
    Renames rename names (first ++ second) (other ++ next) := by
  intro start known
  have begins := one start known
  cases begun : first start with
  | error defect =>
    rw [begun] at begins
    rw [append_eq_error (.inl begun)]
    exact append_eq_error (.inl begins)
  | ok reached =>
    obtain ⟨front, between⟩ := reached
    rw [begun] at begins
    obtain ⟨begins, inside, named⟩ := begins
    have ends := two between inside
    cases ended : second between with
    | error defect =>
      rw [ended] at ends
      rw [append_eq_error (.inr ⟨front, between, begun, ended⟩)]
      exact append_eq_error (.inr ⟨_, _, begins, ends⟩)
    | ok finished =>
      obtain ⟨back, final⟩ := finished
      rw [ended] at ends
      obtain ⟨ends, within, listed⟩ := ends
      rw [append_eq_ok_iff.mpr ⟨front, between, back, begun, ended, rfl⟩]
      refine ⟨append_eq_ok_iff.mpr ⟨_, _, _, begins, ends, List.map_append⟩, within, ?_⟩
      rw [comments_append]
      exact List.append_subset.mpr ⟨named, listed⟩

private theorem Renames.withLabel {body others : Nat → Emission}
    (inner : ∀ number, Renames rename names (body number) (others number)) :
    Renames rename names (Emission.withLabel body) (Emission.withLabel others) :=
  fun start known => inner start.labels { start with labels := start.labels + 1 } known

section Slots

variable (apart : Set.InjOn rename {name | name ∈ names}) {name : String} (member : name ∈ names)

include apart member

private theorem rename_mem_iff {slots : List String} (known : slots ⊆ names) :
    rename name ∈ slots.map rename ↔ name ∈ slots := by
  constructor
  · intro found
    obtain ⟨owner, inside, same⟩ := List.mem_map.mp found
    rwa [← apart (known inside) member same]
  · exact List.mem_map_of_mem

private theorem idxOf_rename {slots : List String} (known : slots ⊆ names) :
    (slots.map rename).idxOf (rename name) = slots.idxOf name := by
  induction slots with
  | nil => rfl
  | cons owner rest ih =>
    obtain ⟨inside, others⟩ := List.cons_subset.mp known
    by_cases same : owner = name
    · rw [List.map_cons, same, List.idxOf_cons_self, List.idxOf_cons_self]
    · have different : rename owner ≠ rename name := fun equal => same (apart inside member equal)
      rw [List.map_cons, List.idxOf_cons_ne _ different, List.idxOf_cons_ne _ same, ih others]

omit apart in
private theorem claim_subset {start : Allocation} (known : start.slots ⊆ names) : (start.claim name).slots ⊆ names := by
  unfold Allocation.claim
  split
  · exact known
  · exact List.append_subset.mpr ⟨known, List.cons_subset.mpr ⟨member, List.nil_subset _⟩⟩

private theorem claim_renamedSlots {start : Allocation} (known : start.slots ⊆ names) :
    (renamedSlots rename start).claim (rename name) = renamedSlots rename (start.claim name) := by
  have iff : rename name ∈ (renamedSlots rename start).slots ↔ name ∈ start.slots :=
    rename_mem_iff apart member known
  unfold Allocation.claim
  by_cases owned : name ∈ start.slots
  · rw [if_pos owned, if_pos (iff.mpr owned)]
  · rw [if_neg owned, if_neg (mt iff.mp owned)]
    simp [renamedSlots]

theorem Renames.withSlot {body others : Nat → Emission}
    (inner : ∀ distance, Renames rename names (body distance) (others distance)) :
    Renames rename names (Emission.withSlot name body) (Emission.withSlot (rename name) others) := by
  intro start known
  have inside := claim_subset member known
  have same : (renamedSlots rename (start.claim name)).distance (rename name) = (start.claim name).distance name := by
    rw [Allocation.distance, Allocation.distance]
    exact congrArg (fun index => 8 * (index + 1)) (idxOf_rename apart member inside)
  have entered := inner ((start.claim name).distance name) (start.claim name) inside
  unfold Emission.withSlot
  rw [claim_renamedSlots apart member known, same]
  exact entered

end Slots

theorem renames_done : Renames rename names done done :=
  fun _ known => ⟨rfl, known, List.nil_subset _⟩

theorem renames_line {text : Line} (listed : comments [text] ⊆ names) :
    Renames rename names (line text) (line (renamedLine rename text)) :=
  fun _ known => ⟨rfl, known, listed⟩

private theorem renames_label (name : String) : Renames rename names (line (.label name)) (line (.label name)) :=
  renames_line (List.nil_subset _)

theorem renames_code (instruction : Instruction) : Renames rename names (code instruction) (code instruction) :=
  renames_line (List.nil_subset _)

theorem renames_push (source : Operand) : Renames rename names (push source) (push source) :=
  fun _ known => ⟨rfl, known, List.nil_subset _⟩

theorem renames_pop (target : Register) : Renames rename names (pop target) (pop target) :=
  fun _ known => ⟨rfl, known, List.nil_subset _⟩

private theorem renames_fail (defect : Defect) : Renames rename names (fail defect) (fail defect) :=
  fun _ _ => rfl

private theorem renames_call (callee : String) : Renames rename names (call callee) (call callee) := by
  intro start known
  have depth : (renamedSlots rename start).depth = start.depth := rfl
  unfold call
  rw [depth]
  by_cases even : start.depth % 2 = 0
  · rw [if_pos even, if_pos even]
    exact renames_code _ start known
  · rw [if_neg even, if_neg even]
    exact ((renames_code _).append (renames_code _)).append (renames_code _) start known

private theorem renames_literal (value : Int64) : Renames rename names (literal value) (literal value) := by
  unfold literal
  split
  · exact renames_push _
  · exact (renames_code _).append (renames_push _)

private theorem renames_comparison (condition : Condition) :
    Renames rename names (comparison condition) (comparison condition) :=
  ((renames_code _).append (renames_code _)).append (renames_code _)

private theorem renames_operation (operator : Operator) : Renames rename names (operation operator) (operation operator) := by
  cases operator with
  | plus | minus | times => exact renames_code _
  | «over» => exact (renames_code _).append (renames_code _)
  | equal | unequal | less | atMost => exact renames_comparison _

private theorem renames_store : Renames rename names store store :=
  (((renames_pop _).append (renames_pop _)).append (renames_code _)).append (renames_push _)

private theorem renames_combine (operator : Operator) : Renames rename names (combine operator) (combine operator) :=
  (((renames_pop _).append (renames_pop _)).append (renames_operation operator)).append (renames_push _)

private theorem renames_popArguments (callee : String) (positions : List Nat) :
    Renames rename names (popArguments callee positions) (popArguments callee positions) := by
  induction positions with
  | nil => exact renames_done
  | cons position rest ih =>
    rw [popArguments]
    split
    · exact (renames_pop _).append ih
    · exact renames_fail _

private theorem renames_invoke (callee : String) (positions : List Nat) :
    Renames rename names (invoke callee positions) (invoke callee positions) :=
  (((renames_popArguments callee _).append (renames_code _)).append (renames_call callee)).append (renames_push _)

private theorem renames_choice {test accepted otherwise test' accepted' otherwise' : Emission}
    (tests : Renames rename names test test') (accepts : Renames rename names accepted accepted')
    (others : Renames rename names otherwise otherwise') :
    Renames rename names (choice test accepted otherwise) (choice test' accepted' otherwise') := by
  apply Renames.withLabel
  intro number
  have tested := ((tests.append (renames_pop Register.rax)).append
    (renames_code (.cmp Register.rax (.immediate 0)))).append (renames_code (.je (elseLabel number)))
  have chosen := ((tested.append accepts).append (renames_code (.jmp (endLabel number)))).append
    (renames_label (elseLabel number))
  exact (chosen.append others).append (renames_label (endLabel number))

private theorem renames_ofValue (position : Position) (inner : Renames rename names first other) :
    Renames rename names (position.ofValue first) (position.ofValue other) := by
  cases position with
  | value => exact inner
  | statement => exact inner.append (renames_pop _)

private theorem renames_ofStatement (position : Position) (inner : Renames rename names first other) :
    Renames rename names (position.ofStatement first) (position.ofStatement other) := by
  cases position with
  | statement => exact inner
  | value => exact inner.append (renames_push _)

end Emissions

section Terms

variable {rename : String → String} {names : List String}

theorem renames_address (apart : Set.InjOn rename {name | name ∈ names}) {name : String} (member : name ∈ names) :
    Renames rename names (address name) (address (rename name)) := by
  refine Renames.withSlot apart member fun distance => ((renames_code _).append ?_).append (renames_push _)
  exact renames_line (List.cons_subset.mpr ⟨member, List.nil_subset _⟩)

private theorem renames_fetch (apart : Set.InjOn rename {name | name ∈ names}) {name : String} (member : name ∈ names) :
    Renames rename names (fetch name) (fetch (rename name)) :=
  (((renames_address apart member).append (renames_pop _)).append (renames_code _)).append (renames_push _)

mutual

/-- The code of a renamed term is the renamed code of the term. -/
theorem renames_term (apart : Set.InjOn rename {name | name ∈ names}) (function : String) :
    (position : Position) → (term : Term) → locals term ⊆ names →
    Renames rename names (lowerTerm function position term) (lowerTerm function position (renamed rename term))
  | position, .literal value, _ => by
    rw [renamed, lowerTerm]
    exact renames_ofValue position (renames_literal value)
  | position, .var name, known => by
    rw [locals] at known
    rw [renamed, lowerTerm, lowerTerm]
    exact renames_ofValue position (renames_fetch apart (List.cons_subset.mp known).1)
  | position, .assign target value, known => by
    rw [locals] at known
    obtain ⟨member, inner⟩ := List.cons_subset.mp known
    rw [renamed, lowerTerm, lowerTerm]
    apply renames_ofValue
    exact ((renames_address apart member).append (renames_term apart function .value value inner)).append renames_store
  | position, .apply operator left right, known => by
    rw [locals] at known
    obtain ⟨front, back⟩ := List.append_subset.mp known
    rw [renamed, lowerTerm, lowerTerm]
    apply renames_ofValue
    exact ((renames_term apart function .value left front).append (renames_term apart function .value right back)).append
      (renames_combine operator)
  | position, .call callee arguments, known => by
    rw [locals] at known
    rw [renamed, lowerTerm, lowerTerm, positions_renamed]
    apply renames_ofValue
    exact (renames_arguments apart function arguments known).append (renames_invoke callee _)
  | position, .branch test accepted none, known => by
    rw [locals] at known
    obtain ⟨front, back⟩ := List.append_subset.mp known
    rw [renamed, lowerTerm, lowerTerm]
    apply renames_ofStatement
    exact renames_choice (renames_term apart function .value test front)
      (renames_term apart function .statement accepted back) renames_done
  | position, .branch test accepted (some otherwise), known => by
    rw [locals] at known
    obtain ⟨front, back⟩ := List.append_subset.mp known
    obtain ⟨front, middle⟩ := List.append_subset.mp front
    rw [renamed, lowerTerm, lowerTerm]
    apply renames_ofStatement
    exact renames_choice (renames_term apart function .value test front)
      (renames_term apart function .statement accepted middle) (renames_term apart function .statement otherwise back)
  | position, .leave none, _ => by
    rw [renamed, lowerTerm]
    exact renames_ofStatement position ((renames_code _).append (renames_code _))
  | position, .leave (some value), known => by
    rw [locals] at known
    rw [renamed, lowerTerm, lowerTerm]
    apply renames_ofStatement
    exact ((renames_term apart function .value value known).append (renames_pop _)).append (renames_code _)
  | .statement, .block body, known => by
    rw [locals] at known
    rw [renamed, lowerTerm, lowerTerm]
    exact renames_block apart function body known
  | .value, .block body, known => by
    rw [locals] at known
    rw [renamed, lowerTerm, lowerTerm]
    exact renames_blockValue apart function body known
  | position, .function name parameters body, _ => by
    rw [renamed, lowerTerm, lowerTerm]
    exact renames_ofStatement position renames_done

theorem renames_block (apart : Set.InjOn rename {name | name ∈ names}) (function : String) :
    (body : List Term) → bodyLocals body ⊆ names →
    Renames rename names (lowerBlock function body) (lowerBlock function (renamedBody rename body))
  | [], _ => by
    rw [renamedBody, lowerBlock]
    exact renames_done
  | statement :: rest, known => by
    rw [bodyLocals] at known
    obtain ⟨front, back⟩ := List.append_subset.mp known
    have first := renames_term apart function .statement statement front
    rw [renamedBody, lowerBlock, lowerBlock, returns_renamed]
    split
    · exact first
    · exact first.append (renames_block apart function rest back)

theorem renames_blockValue (apart : Set.InjOn rename {name | name ∈ names}) (function : String) :
    (body : List Term) → bodyLocals body ⊆ names →
    Renames rename names (lowerBlockValue function body) (lowerBlockValue function (renamedBody rename body))
  | [], _ => by
    rw [renamedBody, lowerBlockValue]
    exact renames_push _
  | [last], known => by
    rw [bodyLocals] at known
    obtain ⟨front, -⟩ := List.append_subset.mp known
    rw [renamedBody, renamedBody, lowerBlockValue, lowerBlockValue, isExpression_renamed]
    split
    · exact renames_term apart function .value last front
    · exact (renames_term apart function .statement last front).append (renames_push _)
  | statement :: following :: rest, known => by
    rw [bodyLocals] at known
    obtain ⟨front, back⟩ := List.append_subset.mp known
    have first := renames_term apart function .statement statement front
    have others := renames_blockValue apart function (following :: rest) back
    rw [renamedBody] at others ⊢
    rw [renamedBody, lowerBlockValue_cons _ _ (List.cons_ne_nil _ _), lowerBlockValue_cons _ _ (List.cons_ne_nil _ _),
      returns_renamed]
    split
    · exact first.append (renames_push _)
    · exact first.append others

theorem renames_arguments (apart : Set.InjOn rename {name | name ∈ names}) (function : String) :
    (arguments : List (Nat × Term)) → argumentLocals arguments ⊆ names →
    Renames rename names (lowerArguments function arguments)
      (lowerArguments function (renamedArguments rename arguments))
  | [], _ => by
    rw [renamedArguments, lowerArguments]
    exact renames_done
  | (_, value) :: rest, known => by
    rw [argumentLocals] at known
    obtain ⟨front, back⟩ := List.append_subset.mp known
    rw [renamedArguments, lowerArguments, lowerArguments]
    exact (renames_term apart function .value value front).append (renames_arguments apart function rest back)

end

private theorem renames_storeParameters (apart : Set.InjOn rename {name | name ∈ names}) {parameters : List String}
    (known : parameters ⊆ names) (registers : List Register) :
    Renames rename names (storeParameters (parameters.zip registers))
      (storeParameters ((parameters.map rename).zip registers)) := by
  induction parameters generalizing registers with
  | nil => exact renames_done
  | cons name rest ih =>
    cases registers with
    | nil => exact renames_done
    | cons register others =>
      obtain ⟨member, behind⟩ := List.cons_subset.mp known
      refine Renames.append (Renames.withSlot apart member fun distance => ?_) (ih behind others)
      exact renames_line (List.cons_subset.mpr ⟨member, List.nil_subset _⟩)

private theorem renamed_prologue (rename : String → String) (name : String) (size : Nat) :
    (prologue name size).map (renamedLine rename) = prologue name size ∧ comments (prologue name size) = [] := by
  unfold prologue
  split
  · exact ⟨rfl, rfl⟩
  · exact ⟨rfl, rfl⟩

/-- The frame of a renamed function has the size of the frame of the function, since no two of its
variables come to share a slot. -/
theorem renames_function (apart : Set.InjOn rename {name | name ∈ names}) {function : Definition}
    (known : functionLocals function ⊆ names) :
    Renames rename names (lowerFunction function) (lowerFunction (renamedDefinition rename function)) := by
  obtain ⟨parameters, body⟩ := List.append_subset.mp known
  have inner : Renames rename names (functionBody function) (functionBody (renamedDefinition rename function)) :=
    ((renames_code _).append (renames_storeParameters apart parameters argumentRegisters)).append
      (renames_block apart function.name function.body body)
  have count : (renamedDefinition rename function).parameters.length = function.parameters.length := by
    simp [renamedDefinition]
  have size (allocation : Allocation) : (renamedSlots rename allocation).frameSize = allocation.frameSize := by
    simp [Allocation.frameSize, renamedSlots]
  intro start inside
  by_cases many : maxArguments < function.parameters.length
  · simp only [lowerFunction, count, if_pos many]
    rfl
  · have lowered := inner { start with depth := 0 } inside
    simp only [lowerFunction, count, if_neg many]
    cases ran : functionBody function { start with depth := 0 } with
    | error defect =>
      rw [ran] at lowered
      have failed : functionBody (renamedDefinition rename function) { renamedSlots rename start with depth := 0 } =
          .error defect := lowered
      simp only [failed, bind, Except.bind]
    | ok reached =>
      obtain ⟨lines, final⟩ := reached
      rw [ran] at lowered
      obtain ⟨emitted, within, listed⟩ := lowered
      have emitted : functionBody (renamedDefinition rename function) { renamedSlots rename start with depth := 0 } =
          .ok (lines.map (renamedLine rename), renamedSlots rename final) := emitted
      have depth : (renamedSlots rename final).depth = final.depth := rfl
      simp only [emitted, bind, Except.bind, size, depth]
      by_cases balanced : final.depth = 0
      · simp only [if_pos balanced]
        obtain ⟨set, silent⟩ := renamed_prologue rename function.name final.frameSize
        refine ⟨?_, within, ?_⟩
        · rw [List.map_append, List.map_append, set]
          rfl
        · have around : comments (prologue function.name final.frameSize ++ lines ++ epilogue function.name) =
              comments lines := by
            rw [comments_append, comments_append, silent]
            exact List.append_nil _
          rw [around]
          exact listed
      · simp only [if_neg balanced]
        rfl

private theorem renames_functions (apart : Set.InjOn rename {name | name ∈ names}) {functions : List Definition}
    (known : ∀ function ∈ functions, functionLocals function ⊆ names) :
    Renames rename names (lowerFunctions functions) (lowerFunctions (functions.map (renamedDefinition rename))) := by
  induction functions with
  | nil => exact renames_done
  | cons function rest ih =>
    obtain ⟨first, others⟩ := List.forall_mem_cons.mp known
    exact (renames_function apart first).append (ih others)

end Terms

/-- Renaming the variables of a program renames the comments of its listing. If the program is refused,
it is refused for the same reason with its variables renamed. -/
theorem lower_renamed {rename : String → String} {program : List Term}
    (apart : Set.InjOn rename {name | name ∈ bodyLocals program}) :
    lower (renamedBody rename program) = (lower program).map (List.map (renamedLine rename)) ∧
      ∀ listing, lower program = .ok listing → comments listing ⊆ bodyLocals program := by
  have known : ∀ function ∈ ⟨entry, [], program⟩ :: definitions program,
      functionLocals function ⊆ bodyLocals program := by
    refine List.forall_mem_cons.mpr ⟨List.Subset.refl _, fun function member => ?_⟩
    exact bodyLocals_of_mention (SourceTerms.definition_mem member)
  have emitted := renames_functions apart known Allocation.empty (List.nil_subset _)
  have faults : symbolFault? (definitions (renamedBody rename program)) (calls (renamedBody rename program)) =
      symbolFault? (definitions program) (calls program) := by
    rw [calls_renamed, definitions_renamed]
    exact symbolFault?_congr (signatures_renamed _) _
  unfold lower
  rw [faults, definitions_renamed]
  cases symbolFault? (definitions program) (calls program) with
  | some fault => exact ⟨rfl, nofun⟩
  | none =>
    dsimp only
    cases ran : lowerFunctions (⟨entry, [], program⟩ :: definitions program) Allocation.empty with
    | error defect =>
      rw [ran] at emitted
      have failed : lowerFunctions (⟨entry, [], renamedBody rename program⟩ ::
          (definitions program).map (renamedDefinition rename)) Allocation.empty = .error defect := emitted
      rw [failed]
      exact ⟨rfl, nofun⟩
    | ok reached =>
      obtain ⟨lines, final⟩ := reached
      rw [ran] at emitted
      obtain ⟨again, -, listed⟩ := emitted
      have lowered : lowerFunctions (⟨entry, [], renamedBody rename program⟩ ::
          (definitions program).map (renamedDefinition rename)) Allocation.empty =
          .ok (lines.map (renamedLine rename), renamedSlots rename final) := again
      rw [lowered]
      refine ⟨rfl, fun listing same => ?_⟩
      cases same
      exact listed

end Stackwise.Proofs.RenamedLowering
