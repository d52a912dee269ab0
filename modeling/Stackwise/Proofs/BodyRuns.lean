import Stackwise.Proofs.Activations
import Stackwise.Proofs.Requirements

/-! The code of a function body does what its terms require. One induction over emitted code serves
every predicate that the logic of code admits: where the requirements of a piece are met, running
its lines leads to states that satisfy the predicate. -/

namespace Stackwise.Proofs.BodyRuns
open Assembly Machine Lowering SourceTerms EmittedCode EmittedListing Loading StackRoom Frames CodeLogic
  CodeFragments Activations Reference Requirements

/-- What a piece of code requires. The values that it pushes stand with the topmost one first. -/
def Demands (around : Surroundings) : Piece → Activation → (List Word → Activation → Prop) → Prop
  | .term .value whole, activation, onward =>
    Requires around whole activation fun value after => onward [value] after
  | .term .statement whole, activation, onward =>
    Requires around whole activation fun value after => onward [] (after.note whole value)
  | .block .value body, activation, onward =>
    RequiresBody around body activation fun value after => onward [value] after
  | .block .statement body, activation, onward =>
    RequiresBody around body activation fun _ after => onward [] after
  | .arguments values, activation, onward =>
    RequiresAll around values activation fun given after => onward given.reverse after

section
variable {around : Surroundings} {activation : Activation}

/-- The first statement of a block, and what the others require after it. -/
theorem demands_cons {position : Position} {statement : Term} {rest : List Term}
    {onward : List Word → Activation → Prop}
    (proper : position = .value → rest = [] → statement.isExpression = false)
    (required : Demands around (.block position (statement :: rest)) activation onward) :
    Requires around statement activation fun value after =>
      Demands around (.block position rest) (after.note statement value) onward := by
  cases rest with
  | nil =>
    cases position with
    | statement =>
      rw [Demands, RequiresBody] at required
      simpa only [Demands, RequiresBody] using required
    | value =>
      rw [Demands, RequiresBody, proper rfl rfl] at required
      simpa only [Demands, RequiresBody, Bool.false_eq_true, if_false] using required
  | cons next rest =>
    cases position with
    | statement => exact requiresBody_cons.mp required
    | value => exact requiresBody_cons.mp required

theorem requires_branch {test accepted : Term} {otherwise : Option Term} {onward : Int64 → Activation → Prop} :
    Requires around (.branch test accepted otherwise) activation onward ↔
      Requires around test activation fun tested after =>
        (tested = 0 → Demands around (alternative otherwise) { after with last := tested } fun _ last =>
          onward 0 last) ∧
        (tested ≠ 0 → Demands around (.term .statement accepted) { after with last := tested } fun _ last =>
          onward 0 last) := by
  cases otherwise with
  | none => simp only [Requires, alternative, Demands, RequiresBody]
  | some otherwise => simp only [Requires, alternative, Demands]

/-- A statement that is no expression has the value zero. -/
theorem requires_valueless {term : Term} {onward : Int64 → Activation → Prop}
    (valueless : term.isExpression = false) (whole : ∀ body, term ≠ .block body)
    (required : Requires around term activation onward) :
    Requires around term activation fun value after => onward 0 (after.note term value) := by
  have unnoted (after : Activation) (value : Int64) : after.note term value = after := by
    rw [Activation.note, valueless]
    rfl
  simp only [unnoted]
  cases term with
  | literal value | var name | assign target value | apply operator left right | call callee arguments =>
    cases valueless
  | block body => exact absurd rfl (whole body)
  | branch test accepted otherwise => exact requires_branch.mpr (requires_branch.mp required)
  | leave value =>
    cases value with
    | none => exact required
    | some value => exact required
  | function name parameters body =>
    rw [Requires] at required ⊢
    exact required

theorem requiresAll_length {arguments : List (Nat × Term)} {onward : List Int64 → Activation → Prop}
    (required : RequiresAll around arguments activation onward) :
    RequiresAll around arguments activation fun values after =>
      values.length = arguments.length ∧ onward values after := by
  induction arguments generalizing activation onward with
  | nil =>
    rw [RequiresAll] at required ⊢
    exact ⟨rfl, required⟩
  | cons argument rest ih =>
    rw [RequiresAll] at required ⊢
    refine required.imp argument.2 fun value after _ held => ?_
    exact (ih held).imp rest fun values last more => ⟨congrArg (· + 1) more.1, more.2⟩

/-- What a piece leads to may be widened, and it pushes as many values as it has room for. -/
theorem Demands.imp {piece : Piece} {first second : List Word → Activation → Prop}
    (required : Demands around piece activation first)
    (implies : ∀ values after, values.length = pushes piece → first values after → second values after) :
    Demands around piece activation second := by
  match piece with
  | .term .value whole | .term .statement whole =>
    exact Requires.imp whole required fun _ _ _ held => implies _ _ rfl held
  | .block .value body | .block .statement body =>
    exact RequiresBody.imp body required fun _ _ _ held => implies _ _ rfl held
  | .arguments values =>
    refine RequiresAll.imp values (requiresAll_length required) fun given after held => ?_
    exact implies _ _ (by rw [List.length_reverse, held.1]; rfl) held.2

end

/-- What is known of the variables is what their slots hold. -/
def Agrees (activation : Activation) (contents : String → Word) : Prop :=
  ∀ name value, activation.store name = some value → contents name = value

theorem Agrees.assign {activation : Activation} {contents : String → Word} (agrees : Agrees activation contents)
    (name : String) (value : Word) : Agrees (activation.assign name value) (Function.update contents name value) := by
  intro other stored same
  by_cases equal : other = name
  · subst equal
    simpa [Activation.assign] using same
  · rw [Function.update_of_ne equal]
    apply agrees
    simpa [Activation.assign, Function.update_of_ne equal] using same

theorem Agrees.note {activation : Activation} {contents : String → Word} (agrees : Agrees activation contents)
    (statement : Term) (value : Word) : Agrees (activation.note statement value) contents := by
  unfold Activation.note
  split
  · exact agrees
  · exact agrees

@[simp] theorem calls_note (activation : Activation) (statement : Term) (value : Word) :
    (activation.note statement value).calls = activation.calls := by
  unfold Activation.note
  split
  · rfl
  · rfl

/-- What running code relies on: the predicate holds where a division fails, and before a call if
it holds after every answer. -/
structure Services (permitted : String → Nat → Prop) (program : Program) (Holds : State → Prop)
    (around : Surroundings) : Prop where
  closed : Backward program Holds
  failing : around.interrupted .dividedByZero → ∀ state, step program state = .error .divisionByZero →
    Holds state
  calling : ∀ frame callee values post contents words address calls state, Identifier callee →
    permitted callee values.length → program.code[address]? = some (.ok (.call callee)) →
    Stands frame contents words address calls state → words.length % 2 = 0 →
    (argumentRegisters.take values.length).map state.registers.read = values →
    around.answer callee values (calls + 1) post →
    (∀ result made next, post result made → next.registers.read Register.rax = result →
      Stands frame contents words (address + 1) made next → Holds next) → Holds state

/-- Within the body of a function, the predicate also holds where the body is left. -/
structure Setting (permitted : String → Nat → Prop) (program : Program) (Holds : State → Prop)
    (around : Surroundings) (frame : Frame) (function : String) : Prop
    extends Services permitted program Holds around where
  returning : ∃ target, program.labels.get? (returnLabel function) = some target ∧
    ∀ value calls contents words state, around.interrupted (.returned value calls) →
      Stands frame contents words target calls state → state.registers.read Register.rax = value → Holds state

theorem arguments_kept {changed : Register} {state next : State} (kept : Keeps changed state next)
    (apart : changed ∉ argumentRegisters) (count : Nat) :
    (argumentRegisters.take count).map next.registers.read = (argumentRegisters.take count).map state.registers.read := by
  refine List.map_congr_left fun register member => ?_
  have argument := List.mem_of_mem_take member
  refine kept.read (scratch_argument argument) ?_
  rintro rfl
  exact apart argument

/-- The predicate holds wherever a piece ends with some values pushed. The value left last is in
`rax` where it is tracked and nothing was pushed over it. -/
def Lands (frame : Frame) (Holds : State → Prop) (words : List Word) (address : Nat) (tracked : Prop)
    (values : List Word) (after : Activation) : Prop :=
  ∀ contents next, Agrees after contents → Stands frame contents (values ++ words) address after.calls next →
    (tracked → values = [] → next.registers.read Register.rax = after.last) → Holds next

/-- Running the lines of a piece satisfies the predicate, if what the piece requires is met. -/
def Runs (program : Program) (Holds : State → Prop) (around : Surroundings) (frame : Frame) (piece : Piece)
    (depth : Nat) (lines : Listing) : Prop :=
  ∀ address activation contents words state tracked, Placed program address lines → words.length = depth →
    Agrees activation contents → Stands frame contents words address activation.calls state →
    (tracked → state.registers.read Register.rax = activation.last) →
    Demands around piece activation (Lands frame Holds words (address + span lines) tracked) → Holds state

section
variable {permitted : String → Nat → Prop} {program : Program} {Holds : State → Prop} {around : Surroundings}
  {frame : Frame} {function : String} {contents : String → Word} {words : List Word} {address calls depth : Nat}
  {tracked : Prop} {value : Word} {activation after : Activation} {state next : State} {lines front back : Listing}

theorem Lands.pushed (lands : Lands frame Holds words address tracked [value] after)
    (agrees : Agrees after contents) (stands : Stands frame contents (value :: words) address after.calls next) :
    Holds next := by
  refine lands contents next agrees stands fun _ none => ?_
  cases none

theorem Lands.at (lands : Lands frame Holds words address tracked [] after) {other : Nat} (same : other = address)
    (agrees : Agrees after contents) (stands : Stands frame contents words other after.calls next)
    (kept : tracked → next.registers.read Register.rax = after.last) : Holds next := by
  subst same
  exact lands contents next agrees stands fun wanted _ => kept wanted

/-- Run a term for its value, with nothing known of `rax`. -/
theorem Runs.valued {term : Term} (runs : Runs program Holds around frame (.term .value term) depth lines)
    (placed : Placed program address lines) (length : words.length = depth) (agrees : Agrees activation contents)
    (stands : Stands frame contents words address activation.calls state)
    (required : Requires around term activation fun value after => ∀ contents next, Agrees after contents →
      Stands frame contents (value :: words) (address + span lines) after.calls next → Holds next) :
    Holds state := by
  refine runs address activation contents words state False placed length agrees stands (fun none => none.elim) ?_
  exact required.imp term fun value after _ held contents next agrees there _ => held contents next agrees there

variable (setting : Setting permitted program Holds around frame function)

include setting

private theorem literal_meets (value : Int64) :
    Runs program Holds around frame (.term .value (.literal value)) depth (literalLines value) := by
  intro address activation contents words state tracked placed length agrees stands kept required
  rw [Demands, Requires] at required
  exact literal_runs setting.closed placed stands fun next there => required.pushed agrees there

private theorem var_meets {name : String} {start : Allocation} (within : (start.claim name).slots <+: frame.slots) :
    Runs program Holds around frame (.term .value (.var name)) depth
      (addressLines name ((start.claim name).distance name) ++ fetchLines) := by
  intro address activation contents words state tracked placed length agrees stands kept required
  obtain ⟨known, near⟩ := distance_claim within
  obtain ⟨aiming, fetching⟩ := placed_append.mp placed
  rw [Demands, Requires] at required
  refine address_runs setting.closed aiming near stands fun aimed there => ?_
  refine fetch_runs setting.closed fetching known there fun next last => ?_
  exact (required (contents name) fun stored same => agrees name stored same).pushed agrees last

private theorem assign_meets {target : String} {term : Term} {start : Allocation}
    (within : (start.claim target).slots <+: frame.slots)
    (inner : Runs program Holds around frame (.term .value term) (depth + 1) lines) :
    Runs program Holds around frame (.term .value (.assign target term)) depth
      (addressLines target ((start.claim target).distance target) ++ (lines ++ storeLines)) := by
  intro address activation contents words state tracked placed length agrees stands kept required
  obtain ⟨known, near⟩ := distance_claim within
  obtain ⟨aiming, rest⟩ := placed_append.mp placed
  obtain ⟨valuing, storing⟩ := placed_append.mp rest
  rw [Demands, Requires] at required
  refine address_runs setting.closed aiming near stands fun aimed there => ?_
  refine inner.valued valuing (congrArg (· + 1) length) agrees there ?_
  refine required.imp term fun value after _ held contents next agrees there => ?_
  refine assign_runs setting.closed storing known there fun last stored => ?_
  refine held.pushed (agrees.assign target value) ?_
  rwa [span_append, span_append, ← Nat.add_assoc, ← Nat.add_assoc]

private theorem apply_meets {operator : Operator} {left right : Term}
    (first : Runs program Holds around frame (.term .value left) depth front)
    (second : Runs program Holds around frame (.term .value right) (depth + 1) back) :
    Runs program Holds around frame (.term .value (.apply operator left right)) depth
      (front ++ (back ++ combineLines operator)) := by
  intro address activation contents words state tracked placed length agrees stands kept required
  obtain ⟨one, rest⟩ := placed_append.mp placed
  obtain ⟨two, combining⟩ := placed_append.mp rest
  rw [Demands, Requires] at required
  refine first.valued one length agrees stands ?_
  refine required.imp left fun dividend after _ held contents next agrees there => ?_
  refine second.valued two (congrArg (· + 1) length) agrees there ?_
  refine held.imp right fun divisor after _ held contents next agrees there => ?_
  refine combine_runs setting.closed combining there (fun result last known combined => ?_) fun last none failed => ?_
  · refine (held.1 result known).pushed agrees ?_
    rwa [span_append, span_append, ← Nat.add_assoc, ← Nat.add_assoc]
  · exact setting.failing (held.2 none) last failed

/-- A call is made from an even number of words, which padding sees to. -/
theorem called_runs {callee : String} {values : List Word} {post : Int64 → Nat → Prop}
    (identifier : Identifier callee) (allowed : permitted callee values.length)
    (placed : Placed program address (callLines words.length callee))
    (stands : Stands frame contents words address calls state)
    (given : (argumentRegisters.take values.length).map state.registers.read = values)
    (answered : around.answer callee values (calls + 1) post)
    (onward : ∀ result made next, post result made → next.registers.read Register.rax = result →
      Stands frame contents words (address + span (callLines words.length callee)) made next → Holds next) :
    Holds state := by
  unfold callLines at placed onward
  by_cases even : words.length % 2 = 0
  · rw [if_pos even] at placed onward
    exact setting.calling _ _ _ _ _ _ _ _ _ identifier allowed placed.1 stands even given answered onward
  · rw [if_neg even] at placed onward
    obtain ⟨padding, entering, clearing, -⟩ := placed
    refine pad_runs setting.closed padding stands fun padded word kept there => ?_
    have odd : (word :: words).length % 2 = 0 := by
      rw [List.length_cons]
      omega
    have same := (arguments_kept kept (by decide) values.length).trans given
    refine setting.calling _ _ _ _ _ _ _ _ _ identifier allowed entering there odd same answered ?_
    intro result made back holds held later
    refine unpad_runs setting.closed clearing later fun next kept last => ?_
    refine onward result made next holds ?_ last
    exact (kept.read scratch_rax (by decide)).trans held

private theorem call_meets {callee : String} {arguments : List (Nat × Term)} (identifier : Identifier callee)
    (allowed : permitted callee arguments.length) (few : arguments.length ≤ 6)
    (inner : Runs program Holds around frame (.arguments arguments) depth lines) :
    Runs program Holds around frame (.term .value (.call callee arguments)) depth
      (lines ++ (popLines arguments.length ++ ([.code (.mov Register.rax (.immediate 0)) none] ++
        (callLines depth callee ++ [.code (.push Register.rax) none])))) := by
  intro address activation contents words state tracked placed length agrees stands kept required
  subst length
  obtain ⟨passing, rest⟩ := placed_append.mp placed
  obtain ⟨popping, rest⟩ := placed_append.mp rest
  obtain ⟨clearing, rest⟩ := placed_append.mp rest
  obtain ⟨calling, pushing⟩ := placed_append.mp rest
  rw [Demands, Requires] at required
  refine inner address activation contents words state False passing rfl agrees stands (fun none => none.elim) ?_
  refine (requiresAll_length required).imp arguments fun values after held contents next agrees there _ => ?_
  obtain ⟨same, answered⟩ := held
  rw [← same] at popping clearing calling pushing few allowed
  refine arguments_run setting.closed few popping there fun taken given there => ?_
  refine write_runs setting.closed clearing.1 trivial rfl scratch_rax there rfl fun cleared kept _ there => ?_
  have still := (arguments_kept kept (by decide) values.length).trans given
  refine called_runs setting identifier allowed calling there still answered fun result made back holds held there => ?_
  refine push_runs setting.closed pushing.1 there fun last _ there => ?_
  have pushed : back.read Register.rax = result := held
  rw [pushed] at there
  refine holds.pushed agrees ?_
  have position : address + span (lines ++ (popLines arguments.length ++
      ([.code (.mov Register.rax (.immediate 0)) none] ++ (callLines words.length callee ++
        [.code (.push Register.rax) none])))) =
      address + span lines + span (popLines values.length) + 1 + span (callLines words.length callee) + 1 := by
    rw [same]
    simp only [span_append, span_code, span_nil]
    omega
  rwa [position]

private theorem branch_meets {test accepted : Term} {otherwise : Option Term} {number : Nat}
    {condition consequence replacement : Listing}
    (first : Runs program Holds around frame (.term .value test) depth condition)
    (second : Runs program Holds around frame (.term .statement accepted) depth consequence)
    (third : Runs program Holds around frame (alternative otherwise) depth replacement) :
    Runs program Holds around frame (.term .statement (.branch test accepted otherwise)) depth
      (condition ++ (testLines number ++ (consequence ++ (skipLines number ++
        (replacement ++ [.label (endLabel number)]))))) := by
  intro address activation contents words state tracked placed length agrees stands kept required
  obtain ⟨valuing, rest⟩ := placed_append.mp placed
  obtain ⟨testing, rest⟩ := placed_append.mp rest
  obtain ⟨accepting, rest⟩ := placed_append.mp rest
  obtain ⟨⟨skipping, refused, -⟩, rest⟩ := placed_append.mp rest
  obtain ⟨replacing, ending, -⟩ := placed_append.mp rest
  have finish : address + span (condition ++ (testLines number ++ (consequence ++ (skipLines number ++
      (replacement ++ [.label (endLabel number)]))))) =
      address + span condition + 3 + span consequence + 1 + span replacement := by
    simp only [span_append, span_label, span_nil, testLines, skipLines, span_code]
    omega
  rw [Demands, requires_branch] at required
  refine first.valued valuing length agrees stands ?_
  refine required.imp test fun tested after _ held contents next agrees there => ?_
  refine test_runs setting.closed testing refused there (fun chosen zero known there => ?_)
    fun chosen other known there => ?_
  · refine third _ { after with last := tested } contents words chosen True replacing length agrees there
      (fun _ => known) ?_
    refine (held.1 zero).imp fun values last count lands contents next agrees there kept => ?_
    rw [pushes_alternative, List.length_eq_zero_iff] at count
    subst count
    exact lands.at finish.symm agrees there fun _ => kept trivial rfl
  · refine second _ { after with last := tested } contents words chosen True accepting length agrees there
      (fun _ => known) ?_
    refine (held.2 other).imp fun values last count lands contents next agrees there kept => ?_
    have none := List.length_eq_zero_iff.mp count
    subst none
    refine jump_runs setting.closed skipping ending there fun landed same there => ?_
    refine lands.at finish.symm agrees there fun _ => ?_
    rw [same]
    exact kept trivial rfl

private theorem leave_meets :
    Runs program Holds around frame (.term .statement (.leave none)) depth
      [.code (.mov Register.rax (.immediate 0)) none, .code (.jmp (returnLabel function)) none] := by
  intro address activation contents words state tracked placed length agrees stands kept required
  obtain ⟨target, labelled, leaving⟩ := setting.returning
  obtain ⟨clearing, jumping, -⟩ := placed
  rw [Demands, Requires] at required
  refine write_runs setting.closed clearing trivial rfl scratch_rax stands rfl fun cleared _ held there => ?_
  refine jump_runs setting.closed jumping labelled there fun next same there => ?_
  refine leaving 0 _ contents words next required there ?_
  rw [same]
  exact held

private theorem leaveWith_meets {term : Term} (inner : Runs program Holds around frame (.term .value term) depth lines) :
    Runs program Holds around frame (.term .statement (.leave (some term))) depth
      (lines ++ [.code (.pop Register.rax) none, .code (.jmp (returnLabel function)) none]) := by
  intro address activation contents words state tracked placed length agrees stands kept required
  obtain ⟨target, labelled, leaving⟩ := setting.returning
  obtain ⟨valuing, popping, jumping, -⟩ := placed_append.mp placed
  rw [Demands, Requires] at required
  refine inner.valued valuing length agrees stands ?_
  refine required.imp term fun result after _ held contents next agrees there => ?_
  refine pop_runs setting.closed popping scratch_rax there fun popped _ known there => ?_
  refine jump_runs setting.closed jumping labelled there fun next same there => ?_
  refine leaving result _ contents words next held there ?_
  rw [same]
  exact known

private theorem expression_meets {term : Term} (valued : term.isExpression)
    (inner : Runs program Holds around frame (.term .value term) depth lines) :
    Runs program Holds around frame (.term .statement term) depth (lines ++ [.code (.pop Register.rax) none]) := by
  intro address activation contents words state tracked placed length agrees stands kept required
  obtain ⟨valuing, popping, -⟩ := placed_append.mp placed
  rw [Demands] at required
  refine inner.valued valuing length agrees stands ?_
  refine required.imp term fun value after _ held contents next agrees there => ?_
  refine pop_runs setting.closed popping scratch_rax there fun popped _ known there => ?_
  refine held.at (by rw [span_append, ← Nat.add_assoc]) (agrees.note term value) ?_ fun _ => ?_
  · rwa [calls_note]
  · rw [known, Activation.note, if_pos valued]

private theorem statement_meets {term : Term} (valueless : term.isExpression = false) (whole : ∀ body, term ≠ .block body)
    (inner : Runs program Holds around frame (.term .statement term) depth lines) :
    Runs program Holds around frame (.term .value term) depth (lines ++ [.code (.push (.immediate 0)) none]) := by
  intro address activation contents words state tracked placed length agrees stands kept required
  obtain ⟨running, pushing, -⟩ := placed_append.mp placed
  rw [Demands] at required
  refine inner address activation contents words state False running length agrees stands (fun none => none.elim) ?_
  refine (requires_valueless valueless whole required).imp term fun value after _ held contents next agrees there _ => ?_
  refine push_runs setting.closed pushing there fun last _ there => held.pushed agrees ?_
  rwa [span_append, ← Nat.add_assoc]

private theorem zero_meets : Runs program Holds around frame (.block .value []) depth
    [.code (.push (.immediate 0)) none] := by
  intro address activation contents words state tracked placed length agrees stands kept required
  rw [Demands, RequiresBody] at required
  exact push_runs setting.closed placed.1 stands fun last _ there => required.pushed agrees there

omit setting

/-- Code without lines ends where it begins. -/
theorem empty_meets {piece : Piece} (empty : ∀ activation onward, Demands around piece activation onward →
      onward [] activation) : Runs program Holds around frame piece depth [] := by
  intro address activation contents words state tracked placed length agrees stands kept required
  exact (empty _ _ required).at rfl agrees stands kept

private theorem last_meets {term : Term} (valued : term.isExpression)
    (inner : Runs program Holds around frame (.term .value term) depth lines) :
    Runs program Holds around frame (.block .value [term]) depth lines := by
  intro address activation contents words state tracked placed length agrees stands kept required
  rw [Demands, RequiresBody] at required
  refine inner.valued placed length agrees stands ?_
  refine required.imp term fun value after _ held contents next agrees there => ?_
  rw [if_pos valued] at held
  refine held.pushed (agrees.note term value) ?_
  rwa [calls_note]

private theorem next_meets {position : Position} {term : Term} {rest : List Term}
    (proper : position = .value → rest = [] → term.isExpression = false)
    (first : Runs program Holds around frame (.term .statement term) depth front)
    (second : Runs program Holds around frame (.block position (if term.returns then [] else rest)) depth back) :
    Runs program Holds around frame (.block position (term :: rest)) depth (front ++ back) := by
  intro address activation contents words state tracked placed length agrees stands kept required
  obtain ⟨one, two⟩ := placed_append.mp placed
  refine first address activation contents words state tracked one length agrees stands kept ?_
  refine (demands_cons proper required).imp term fun value after stays held contents next agrees there kept => ?_
  rw [stays] at second
  refine second _ _ contents words next tracked two length agrees there (fun wanted => kept wanted rfl) ?_
  rwa [Nat.add_assoc, ← span_append]

private theorem argument_meets {position : Nat} {term : Term} {rest : List (Nat × Term)}
    (first : Runs program Holds around frame (.term .value term) depth front)
    (second : Runs program Holds around frame (.arguments rest) (depth + 1) back) :
    Runs program Holds around frame (.arguments ((position, term) :: rest)) depth (front ++ back) := by
  intro address activation contents words state tracked placed length agrees stands kept required
  obtain ⟨one, two⟩ := placed_append.mp placed
  rw [Demands, RequiresAll] at required
  refine first.valued one length agrees stands ?_
  refine required.imp term fun value after _ held contents next agrees there => ?_
  refine second _ after contents (value :: words) next False two (congrArg (· + 1) length) agrees there
    (fun none => none.elim) ?_
  refine held.imp rest fun values after held contents next agrees there _ => ?_
  refine held contents next agrees ?_ fun _ none => ?_
  · rw [List.reverse_cons, List.append_assoc, span_append, ← Nat.add_assoc]
    exact there
  · rw [List.reverse_cons] at none
    exact absurd none (by simp)

end

/-- The code of every piece runs as required. -/
theorem runs_of_emits {permitted : String → Nat → Prop} {program : Program} {Holds : State → Prop}
    {around : Surroundings} {frame : Frame} {function : String} {piece : Piece} {start final : Allocation}
    {lines : Listing} (setting : Setting permitted program Holds around frame function)
    (emitted : Emits permitted function piece start lines final) (within : final.slots <+: frame.slots) :
    Runs program Holds around frame piece start.depth lines := by
  induction emitted with
  | literal => exact literal_meets setting _
  | var _ => exact var_meets setting within
  | assign _ inner ih =>
    have runs := ih within
    simp only [pushed, depth_claim] at runs
    exact assign_meets setting (inner.grows.slots.trans within) runs
  | apply first second ih₁ ih₂ =>
    have runs := ih₂ within
    rw [first.grows.depth] at runs
    exact apply_meets setting (ih₁ (second.grows.slots.trans within)) runs
  | call identifier allowed few inner ih =>
    have depth := inner.grows.depth
    simp only [pushes] at depth
    rw [depth, Nat.add_sub_cancel]
    exact call_meets setting identifier allowed few (ih within)
  | branch first second third ih₁ ih₂ ih₃ =>
    have later := third.grows.slots.trans within
    have runs₂ := ih₂ later
    have runs₃ := ih₃ within
    have depth₂ := second.grows.depth
    have depth₁ := first.grows.depth
    simp only [popped, pushes, room] at depth₁ depth₂ runs₂
    rw [depth₂, depth₁] at runs₃
    rw [depth₁] at runs₂
    exact branch_meets setting (ih₁ (second.grows.slots.trans later)) runs₂ runs₃
  | leave => exact leave_meets setting
  | leaveWith _ ih => exact leaveWith_meets setting (ih within)
  | function =>
    refine empty_meets fun activation onward required => ?_
    rw [Demands, Requires] at required
    exact required
  | expression valued _ ih => exact expression_meets setting valued (ih within)
  | statement valueless whole _ ih => exact statement_meets setting valueless whole (ih within)
  | @block position body start final lines _ ih =>
    have runs := ih within
    cases position with
    | value => simpa only [Runs, Demands, Requires] using runs
    | statement =>
      simpa only [Runs, Demands, Requires, Activation.note, Term.isExpression, Bool.false_eq_true, if_false] using runs
  | finish =>
    refine empty_meets fun activation onward required => ?_
    rw [Demands, RequiresBody] at required
    exact required
  | zero => exact zero_meets setting
  | last valued _ ih => exact last_meets valued (ih within)
  | next proper first second ih₁ ih₂ =>
    have runs := ih₂ within
    rw [first.grows.depth] at runs
    exact next_meets proper (ih₁ (second.grows.slots.trans within)) runs
  | noArgument =>
    refine empty_meets fun activation onward required => ?_
    rw [Demands, RequiresAll] at required
    exact required
  | argument first second ih₁ ih₂ =>
    have runs := ih₂ within
    rw [first.grows.depth] at runs
    exact argument_meets (ih₁ (second.grows.slots.trans within)) runs

section
variable {permitted : String → Nat → Prop} {program : Program} {Holds : State → Prop} {around : Surroundings}
  {frame : Frame} {contents : String → Word} {words : List Word} {address calls : Nat} {state : State}

def storeAll (registers : Registers) (stored : List (String × Register)) (contents : String → Word) : String → Word :=
  stored.foldl (fun contents (name, register) => Function.update contents name (registers.read register)) contents

private theorem parameters_run (closed : Backward program Holds) {stored : List (String × Register)} {start : Allocation}
    (within : (claimAll start stored).slots <+: frame.slots)
    (placed : Placed program address (parameterLines start stored))
    (stands : Stands frame contents words address calls state)
    (onward : ∀ next, next.registers = state.registers →
      Stands frame (storeAll state.registers stored contents) words (address + span (parameterLines start stored))
        calls next → Holds next) : Holds state := by
  induction stored generalizing start contents address state with
  | nil => exact onward state rfl stands
  | cons pair rest ih =>
    obtain ⟨name, register⟩ := pair
    obtain ⟨storing, placed⟩ := placed
    obtain ⟨known, near⟩ := distance_claim ((slots_claimAll _ rest).trans within)
    have aimed : state.wordAddress Register.rbp ((start.claim name).distance name) = Int64.ofInt (frame.slot name) := by
      rw [State.wordAddress, stands.framed.base, ← Int64.ofInt_sub, near]
      rfl
    refine store_runs closed storing stands known aimed fun next same there => ?_
    refine ih within placed there fun last equal there => onward last (equal.trans same) ?_
    rw [parameterLines, span_code, Nat.add_comm _ 1, ← Nat.add_assoc]
    rwa [same] at there

private theorem agrees_storeAll (registers : Registers) (stored : List (String × Register)) {store : String → Option Word}
    {last : Word} (agrees : Agrees ⟨store, last, calls⟩ contents) :
    Agrees ⟨(stored.map fun (name, register) => (name, registers.read register)).foldl
        (fun store (name, value) => Function.update store name (some value)) store, last, calls⟩
      (storeAll registers stored contents) := by
  induction stored generalizing store contents with
  | nil => exact agrees
  | cons pair rest ih => exact ih (agrees.assign pair.1 (registers.read pair.2))

private theorem bound_eq {parameters : List String} {values : List Word} {registers : Registers}
    (given : (argumentRegisters.take values.length).map registers.read = values)
    (enough : parameters.length ≤ values.length) :
    bound parameters values =
      ((parameters.zip argumentRegisters).map fun (name, register) => (name, registers.read register)).foldl
        (fun store (name, value) => Function.update store name (some value)) fun _ => none := by
  have taken : parameters.zip (argumentRegisters.take values.length) = parameters.zip argumentRegisters :=
    calc parameters.zip (argumentRegisters.take values.length)
        = (parameters.take values.length).zip (argumentRegisters.take values.length) := by
          rw [List.take_of_length_le enough]
      _ = (parameters.zip argumentRegisters).take values.length := List.take_zipWith.symm
      _ = parameters.zip argumentRegisters := by
          rw [List.take_of_length_le]
          rw [List.length_zip]
          omega
  have zipped : parameters.zip values =
      (parameters.zip argumentRegisters).map fun (name, register) => (name, registers.read register) := by
    rw [← taken]
    nth_rewrite 1 [← given]
    exact List.zip_map_right
  rw [bound, zipped]

private theorem storeAll_congr {registers others : Registers} {stored : List (String × Register)}
    (same : ∀ entry ∈ stored, registers.read entry.2 = others.read entry.2) (contents : String → Word) :
    storeAll registers stored contents = storeAll others stored contents := by
  induction stored generalizing contents with
  | nil => rfl
  | cons pair rest ih =>
    obtain ⟨name, register⟩ := pair
    obtain ⟨first, further⟩ := List.forall_mem_cons.mp same
    have equal : registers.read register = others.read register := first
    calc storeAll registers ((name, register) :: rest) contents
      _ = storeAll registers rest (Function.update contents name (registers.read register)) := rfl
      _ = storeAll others rest (Function.update contents name (others.read register)) := by
        rw [equal, ih further]

/-- A function that is entered meets what its body requires of an activation that knows its
parameters, and may know what its other variables hold. -/
theorem function_runs_held {around : (String → Word) → Surroundings}
    (services : ∀ held, Services permitted program Holds (around held)) {function : Definition}
    {start final : Allocation} {body : Listing} {stack : Int} {store : (String → Word) → String → Option Word}
    (installed : Installed permitted program function start final body address) (entry : Entry stack state)
    (here : state.address = address)
    (agrees : ∀ held, Agrees ⟨store held, 0, state.calls⟩
      (storeAll state.registers (function.parameters.zip argumentRegisters) held))
    (returning : ∀ held value made last, (around held).interrupted (.returned value made) →
      Finished program stack state last → last.calls = made → last.registers.read Register.rax = value → Holds last)
    (required : ∀ held, RequiresBody (around held) function.body ⟨store held, 0, state.calls⟩
      fun _ after => (around held).interrupted (.returned after.last after.calls)) : Holds state := by
  obtain ⟨opening, rest⟩ := placed_append.mp installed.placed
  obtain ⟨clearing, rest⟩ := placed_append.mp rest
  obtain ⟨storing, rest⟩ := placed_append.mp rest
  obtain ⟨running, closing⟩ := placed_append.mp rest
  have closed := (services fun _ => 0).closed
  have even : final.frameSize % 16 = 0 := by
    rw [Allocation.frameSize]
    omega
  refine prologue_runs closed opening even (slots_le_frameSize final) entry here
    fun frame held opened opens slots there kept => ?_
  refine write_runs closed clearing.1 trivial rfl scratch_rax there rfl fun cleared only zero there => ?_
  have within : (bodyStart function start).slots <+: frame.slots := by
    rw [slots]
    exact installed.code.emitted.grows.slots
  have untouched : storeAll cleared.registers (function.parameters.zip argumentRegisters) held =
      storeAll state.registers (function.parameters.zip argumentRegisters) held := by
    refine storeAll_congr (fun entry member => ?_) held
    have argument := (List.of_mem_zip member).2
    have scratch := scratch_argument argument
    have apart : entry.2 ≠ Register.rax := by
      intro same
      rw [same] at argument
      revert argument
      decide
    exact (only.read scratch apart).trans (kept entry.2 scratch.1 scratch.2.1 scratch.2.2)
  refine parameters_run closed within storing there fun bodied same there => ?_
  have setting : Setting permitted program Holds (around held) frame function.name := by
    refine ⟨services held, _, closing.1, fun value made contents words left accepted there result => ?_⟩
    refine epilogue_runs closed closing opens there fun last finished count kept => ?_
    exact returning held value made last accepted finished count (kept.trans result)
  have runs := runs_of_emits setting installed.code.emitted (slots ▸ List.prefix_refl _)
  rw [bodyStart, depth_claimAll] at runs
  refine runs _ _ _ [] bodied True running rfl (untouched ▸ agrees held) there (fun _ => ?_) ?_
  · rw [same]
    exact zero
  · refine (required held).imp function.body fun _ after _ accepted contents next agrees there result => ?_
    refine epilogue_runs closed closing opens there fun last finished count kept => ?_
    exact returning held _ _ last accepted finished count (kept.trans (result trivial rfl))

/-- A function that is entered meets what its body requires of a fresh activation. -/
theorem function_runs (services : Services permitted program Holds around) {function : Definition}
    {start final : Allocation} {body : Listing} {stack : Int} {values : List Word}
    (installed : Installed permitted program function start final body address) (entry : Entry stack state)
    (here : state.address = address)
    (given : (argumentRegisters.take values.length).map state.registers.read = values)
    (enough : function.parameters.length ≤ values.length)
    (returning : ∀ value made last, around.interrupted (.returned value made) → Finished program stack state last →
      last.calls = made → last.registers.read Register.rax = value → Holds last)
    (required : RequiresBody around function.body ⟨bound function.parameters values, 0, state.calls⟩
      fun _ after => around.interrupted (.returned after.last after.calls)) : Holds state := by
  refine function_runs_held (fun _ => services) installed entry here (fun held => ?_)
    (fun _ => returning) fun _ => required
  rw [bound_eq given enough]
  refine agrees_storeAll state.registers _ fun name value known => ?_
  cases known

end

end Stackwise.Proofs.BodyRuns
