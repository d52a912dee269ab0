import Stackwise.Lowering.Program
import Stackwise.Proofs.EmittedCode

/-! When terms can be lowered. Nothing but an argument without a register stops an emission,
and only one of a call that is emitted. Whatever is emitted pushes as many values as its
position asks for, so no function is left unbalanced. -/

namespace Stackwise.Proofs.EmissionSuccess
open Assembly Lowering Emission EmittedCode

/-- A term is emitted as part of another one: it stands in the same function, and no statement
in front of it or of a statement around it, in the same list, leaves the function. -/
inductive EmittedIn (inner : Term) : Term → Prop where
  | whole : EmittedIn inner inner
  | assigned {target : String} {value : Term} (within : EmittedIn inner value) :
      EmittedIn inner (.assign target value)
  | left {operator : Operator} {left right : Term} (within : EmittedIn inner left) :
      EmittedIn inner (.apply operator left right)
  | right {operator : Operator} {left right : Term} (within : EmittedIn inner right) :
      EmittedIn inner (.apply operator left right)
  | test {test accepted : Term} {otherwise : Option Term} (within : EmittedIn inner test) :
      EmittedIn inner (.branch test accepted otherwise)
  | accepted {test accepted : Term} {otherwise : Option Term} (within : EmittedIn inner accepted) :
      EmittedIn inner (.branch test accepted otherwise)
  | otherwise {test accepted otherwise : Term} (within : EmittedIn inner otherwise) :
      EmittedIn inner (.branch test accepted (some otherwise))
  | returned {value : Term} (within : EmittedIn inner value) : EmittedIn inner (.leave (some value))
  | argument {callee : String} {arguments : List (Nat × Term)} {position : Nat} {value : Term}
      (member : (position, value) ∈ arguments) (within : EmittedIn inner value) :
      EmittedIn inner (.call callee arguments)
  | listed {before after : List Term} {statement : Term}
      (reached : ∀ earlier ∈ before, earlier.returns = false) (within : EmittedIn inner statement) :
      EmittedIn inner (.block (before ++ statement :: after))

/-- Every argument of a call that is emitted has a register. -/
def Supplied (term : Term) : Prop :=
  ∀ callee arguments, EmittedIn (.call callee arguments) term →
    ∀ argument ∈ arguments, argument.1 ≤ 5

section Supplied

variable {term : Term}

theorem supplied_leaf (leaf : ∀ callee arguments, ¬ EmittedIn (.call callee arguments) term) :
    Supplied term :=
  fun callee arguments within => (leaf callee arguments within).elim

private theorem supplied_assign {target : String} {value : Term} :
    Supplied (.assign target value) ↔ Supplied value := by
  constructor
  · intro supplied callee arguments within
    exact supplied callee arguments (.assigned within)
  · intro supplied callee arguments within
    cases within with
    | assigned within => exact supplied callee arguments within

private theorem supplied_apply {operator : Operator} {left right : Term} :
    Supplied (.apply operator left right) ↔ Supplied left ∧ Supplied right := by
  constructor
  · intro supplied
    exact ⟨fun callee arguments within => supplied callee arguments (.left within),
      fun callee arguments within => supplied callee arguments (.right within)⟩
  · rintro ⟨first, second⟩ callee arguments within
    cases within with
    | left within => exact first callee arguments within
    | right within => exact second callee arguments within

private theorem supplied_branch {test accepted : Term} {otherwise : Option Term} :
    Supplied (.branch test accepted otherwise) ↔
      Supplied test ∧ Supplied accepted ∧ ∀ term, otherwise = some term → Supplied term := by
  constructor
  · intro supplied
    refine ⟨fun callee arguments within => supplied callee arguments (.test within),
      fun callee arguments within => supplied callee arguments (.accepted within), ?_⟩
    rintro term rfl callee arguments within
    exact supplied callee arguments (.otherwise within)
  · rintro ⟨first, second, third⟩ callee arguments within
    cases within with
    | test within => exact first callee arguments within
    | accepted within => exact second callee arguments within
    | otherwise within => exact third _ rfl callee arguments within

private theorem supplied_leaveWith {value : Term} : Supplied (.leave (some value)) ↔ Supplied value := by
  constructor
  · intro supplied callee arguments within
    exact supplied callee arguments (.returned within)
  · intro supplied callee arguments within
    cases within with
    | returned within => exact supplied callee arguments within

private theorem supplied_call {callee : String} {arguments : List (Nat × Term)} :
    Supplied (.call callee arguments) ↔
      (∀ argument ∈ arguments, Supplied argument.2) ∧ ∀ argument ∈ arguments, argument.1 ≤ 5 := by
  constructor
  · intro supplied
    exact ⟨fun argument member other values within =>
      supplied other values (.argument member within), supplied callee arguments .whole⟩
  · rintro ⟨inner, few⟩ other values within
    cases within with
    | whole => exact few
    | argument member within => exact inner _ member other values within

theorem supplied_nil : Supplied (.block []) := by
  apply supplied_leaf
  intro callee arguments within
  generalize empty : Term.block [] = term at within
  cases within with
  | listed => simp at empty
  | _ => cases empty

/-- Behind a statement that leaves the function nothing is emitted. -/
theorem supplied_cons {statement : Term} {rest : List Term} :
    Supplied (.block (statement :: rest)) ↔
      Supplied statement ∧ (statement.returns = false → Supplied (.block rest)) := by
  constructor
  · intro supplied
    constructor
    · intro callee arguments within
      have first : EmittedIn (.call callee arguments) (.block ([] ++ statement :: rest)) :=
        .listed (List.forall_mem_nil _) within
      exact supplied callee arguments first
    intro falls callee arguments within
    apply supplied callee arguments
    generalize whole : Term.block rest = term at within
    cases within with
    | @listed before after found reached within =>
      cases whole
      have longer : ∀ earlier ∈ statement :: before, earlier.returns = false :=
        List.forall_mem_cons.mpr ⟨falls, reached⟩
      exact EmittedIn.listed longer within
    | _ => cases whole
  · rintro ⟨first, others⟩ callee arguments within
    generalize whole : Term.block (statement :: rest) = term at within
    cases within with
    | @listed before after found reached within =>
      cases before with
      | nil =>
        cases whole
        exact first callee arguments within
      | cons head before =>
        cases whole
        obtain ⟨falls, reached⟩ := List.forall_mem_cons.mp reached
        exact others falls callee arguments (.listed reached within)
    | _ => cases whole

end Supplied

/-- An emission succeeds exactly under a condition, whatever was allocated before it, and has
then a fixed effect on the number of values on the stack. When it fails, an argument has no
register. -/
def Settles (emission : Emission) (effect : Nat → Nat) (condition : Prop) : Prop :=
  ∀ start, (condition → ∃ lines final, emission start = .ok (lines, final) ∧
      final.depth = effect start.depth) ∧
    (¬ condition → ∃ position callee, emission start = .error (.noRegister position callee))

theorem append_eq_error {first second : Emission} {start : Allocation} {defect : Defect}
    (fails : first start = .error defect ∨
      ∃ lines between, first start = .ok (lines, between) ∧ second between = .error defect) :
    (first ++ second) start = .error defect := by
  change (first start >>= fun reached => second reached.2 >>= fun finished =>
    pure (reached.1 ++ finished.1, finished.2)) = _
  obtain begun | ⟨lines, between, begun, ended⟩ := fails
  · rw [begun]
    rfl
  · rw [begun]
    simp only [bind, Except.bind, ended]

namespace Settles

variable {first second : Emission} {effect after : Nat → Nat} {condition other : Prop}

theorem congr (settles : Settles first effect condition) (same : ∀ depth, effect depth = after depth)
    (equivalent : condition ↔ other) : Settles first after other := by
  obtain rfl : effect = after := funext same
  exact propext equivalent ▸ settles

/-- An emission that cannot fail. -/
theorem of_ok (succeeds : ∀ start, ∃ lines final, first start = .ok (lines, final) ∧
    final.depth = effect start.depth) : Settles first effect True :=
  fun start => ⟨fun _ => succeeds start, fun fails => (fails trivial).elim⟩

theorem append (one : Settles first effect condition) (two : Settles second after other) :
    Settles (first ++ second) (after ∘ effect) (condition ∧ other) := by
  intro start
  constructor
  · rintro ⟨holds, also⟩
    obtain ⟨front, between, begun, reached⟩ := (one start).1 holds
    obtain ⟨back, final, ended, finished⟩ := (two between).1 also
    refine ⟨front ++ back, final, append_eq_ok_iff.mpr ⟨_, _, _, begun, ended, rfl⟩, ?_⟩
    rw [finished, reached]
    rfl
  · intro fails
    by_cases holds : condition
    · obtain ⟨front, between, begun, reached⟩ := (one start).1 holds
      obtain ⟨position, callee, ended⟩ := (two between).2 fun also => fails ⟨holds, also⟩
      exact ⟨position, callee, append_eq_error (.inr ⟨front, between, begun, ended⟩)⟩
    · obtain ⟨position, callee, begun⟩ := (one start).2 holds
      exact ⟨position, callee, append_eq_error (.inl begun)⟩

/-- Fixed code behind an emission does not change when it succeeds. -/
theorem fixed (one : Settles first effect condition) (two : Settles second after True) :
    Settles (first ++ second) (after ∘ effect) condition :=
  (one.append two).congr (fun _ => rfl) (by simp)

theorem withSlot {name : String} {body : Nat → Emission}
    (inner : ∀ distance, Settles (body distance) effect condition) :
    Settles (Emission.withSlot name body) effect condition := by
  intro start
  have claimed := inner ((start.claim name).distance name) (start.claim name)
  rwa [depth_claim] at claimed

private theorem withLabel {body : Nat → Emission} (inner : ∀ number, Settles (body number) effect condition) :
    Settles (Emission.withLabel body) effect condition :=
  fun start => inner start.labels { start with labels := start.labels + 1 }

end Settles

section Fixed

theorem settles_done : Settles done id True := .of_ok fun start => ⟨[], start, rfl, rfl⟩

theorem settles_line (text : Line) : Settles (line text) id True :=
  .of_ok fun start => ⟨[text], start, rfl, rfl⟩

theorem settles_code (instruction : Instruction) : Settles (code instruction) id True :=
  settles_line _

theorem settles_push (source : Operand) : Settles (push source) (· + 1) True :=
  .of_ok fun _ => ⟨_, _, rfl, rfl⟩

theorem settles_pop (target : Register) : Settles (pop target) (· - 1) True :=
  .of_ok fun _ => ⟨_, _, rfl, rfl⟩

theorem settles_address (name : String) : Settles (address name) (· + 1) True :=
  .withSlot fun _ => ((settles_code _).fixed (settles_line _)).fixed (settles_push _)

private theorem settles_literal (value : Int64) : Settles (literal value) (· + 1) True := by
  unfold literal
  split
  · exact settles_push _
  · exact (settles_code _).fixed (settles_push _)

private theorem settles_fetch (name : String) : Settles (fetch name) (· + 1) True :=
  (((settles_address name).fixed (settles_pop _)).fixed (settles_code _)).fixed (settles_push _)

private theorem settles_comparison (condition : Condition) : Settles (comparison condition) id True :=
  ((settles_code _).fixed (settles_code _)).fixed (settles_code _)

private theorem settles_operation (operator : Operator) : Settles (operation operator) id True := by
  cases operator with
  | plus | minus | times => exact settles_code _
  | «over» => exact (settles_code _).fixed (settles_code _)
  | equal | unequal | less | atMost => exact settles_comparison _

private theorem settles_store : Settles store (· - 2 + 1) True :=
  ((((settles_pop _).fixed (settles_pop _)).fixed (settles_code _)).fixed (settles_push _)).congr
    (fun _ => rfl) .rfl

private theorem settles_combine (operator : Operator) : Settles (combine operator) (· - 2 + 1) True :=
  ((((settles_pop _).fixed (settles_pop _)).fixed (settles_operation operator)).fixed
    (settles_push _)).congr (fun _ => rfl) .rfl

private theorem settles_enter (callee : String) : Settles (call callee) id True := by
  apply Settles.of_ok
  intro start
  exact ⟨_, _, call_eq callee start, rfl⟩

private theorem settles_popArguments (callee : String) (positions : List Nat) :
    Settles (popArguments callee positions) (· - positions.length)
      (∀ position ∈ positions, position ≤ 5) := by
  induction positions with
  | nil => exact settles_done.congr (fun _ => rfl) (by simp)
  | cons position rest ih =>
    rw [popArguments]
    split
    next register found =>
      have inside : position ≤ 5 := by
        have := (List.getElem?_eq_some_iff.mp found).1
        exact Nat.le_of_lt_succ this
      apply ((settles_pop register).append ih).congr
      · intro depth
        simp only [Function.comp_apply, List.length_cons]
        omega
      · simp [inside]
    next missing =>
      have outside : ¬ position ≤ 5 := by
        have := List.getElem?_eq_none_iff.mp missing
        exact Nat.not_le_of_lt this
      intro start
      constructor
      · intro few
        exact (outside (few position List.mem_cons_self)).elim
      · exact fun _ => ⟨position, callee, rfl⟩

private theorem settles_invoke (callee : String) (positions : List Nat) :
    Settles (invoke callee positions) (· - positions.length + 1) (∀ position ∈ positions, position ≤ 5) :=
  ((((settles_popArguments callee positions.reverse).fixed (settles_code _)).fixed
    (settles_enter callee)).fixed (settles_push _)).congr (by simp) (by simp)

end Fixed

section Combined

variable {pushing balanced : Emission} {condition : Prop}

private theorem settles_ofValue (position : Position) (inner : Settles pushing (· + 1) condition) :
    Settles (position.ofValue pushing) (· + room position) condition := by
  cases position with
  | value => exact inner
  | statement => exact (inner.fixed (settles_pop _)).congr (fun _ => rfl) .rfl

private theorem settles_ofStatement (position : Position) (inner : Settles balanced id condition) :
    Settles (position.ofStatement balanced) (· + room position) condition := by
  cases position with
  | statement => exact inner
  | value => exact inner.fixed (settles_push _)

private theorem settles_choice {test accepted otherwise : Emission} {first second third : Prop}
    (tests : Settles test (· + 1) first) (accepts : Settles accepted id second)
    (others : Settles otherwise id third) :
    Settles (choice test accepted otherwise) id (first ∧ second ∧ third) := by
  apply Settles.withLabel
  intro number
  have tested := ((tests.fixed (settles_pop Register.rax)).fixed
    (settles_code (.cmp Register.rax (.immediate 0)))).fixed (settles_code (.je (elseLabel number)))
  have chosen := ((tested.append accepts).fixed (settles_code (.jmp (endLabel number)))).fixed
    (settles_line (.label (elseLabel number)))
  exact ((chosen.append others).fixed (settles_line _)).congr (fun _ => rfl) and_assoc

end Combined

theorem lowerBlockValue_cons (function : String) (statement : Term) {rest : List Term} (more : rest ≠ []) :
    lowerBlockValue function (statement :: rest) =
      if statement.returns then lowerTerm function .statement statement ++ push (.immediate 0)
      else lowerTerm function .statement statement ++ lowerBlockValue function rest := by
  cases rest with
  | nil => exact (more rfl).elim
  | cons next others =>
    rw [lowerBlockValue]
    simp

mutual

theorem settles_term (function : String) : (position : Position) → (term : Term) →
    Settles (lowerTerm function position term) (· + room position) (Supplied term)
  | position, .literal value => by
    rw [lowerTerm]
    apply (settles_ofValue position (settles_literal value)).congr (fun _ => rfl)
    exact iff_of_true trivial (supplied_leaf fun _ _ within => nomatch within)
  | position, .var name => by
    rw [lowerTerm]
    apply (settles_ofValue position (settles_fetch name)).congr (fun _ => rfl)
    exact iff_of_true trivial (supplied_leaf fun _ _ within => nomatch within)
  | position, .assign target value => by
    rw [lowerTerm, supplied_assign]
    apply settles_ofValue
    have inner := (settles_address target).append (settles_term function .value value)
    exact (inner.fixed settles_store).congr (fun _ => rfl) (by simp)
  | position, .apply operator left right => by
    rw [lowerTerm, supplied_apply]
    apply settles_ofValue
    have operands := (settles_term function .value left).append (settles_term function .value right)
    exact (operands.fixed (settles_combine operator)).congr (fun _ => rfl) .rfl
  | position, .call callee arguments => by
    rw [lowerTerm, supplied_call]
    apply settles_ofValue
    have inner := (settles_arguments function arguments).append
      (settles_invoke callee (arguments.map (·.1)))
    apply inner.congr
    · intro depth
      simp
    · simp
  | position, .branch test accepted none => by
    rw [lowerTerm, supplied_branch]
    apply settles_ofStatement
    have inner := settles_choice (settles_term function .value test)
      (settles_term function .statement accepted) settles_done
    exact inner.congr (fun _ => rfl) (by simp)
  | position, .branch test accepted (some otherwise) => by
    rw [lowerTerm, supplied_branch]
    apply settles_ofStatement
    have inner := settles_choice (settles_term function .value test)
      (settles_term function .statement accepted) (settles_term function .statement otherwise)
    exact inner.congr (fun _ => rfl) (by simp)
  | position, .leave none => by
    rw [lowerTerm]
    apply settles_ofStatement
    apply ((settles_code _).fixed (settles_code _)).congr (fun _ => rfl)
    exact iff_of_true trivial (supplied_leaf fun _ _ within => nomatch within)
  | position, .leave (some value) => by
    rw [lowerTerm, supplied_leaveWith]
    apply settles_ofStatement
    have inner := settles_term function .value value
    exact ((inner.fixed (settles_pop _)).fixed (settles_code _)).congr (fun _ => rfl) .rfl
  | .statement, .block body => by
    rw [lowerTerm]
    exact settles_block function body
  | .value, .block body => by
    rw [lowerTerm]
    exact settles_blockValue function body
  | position, .function name parameters body => by
    rw [lowerTerm]
    apply settles_ofStatement
    apply settles_done.congr (fun _ => rfl)
    exact iff_of_true trivial (supplied_leaf fun _ _ within => nomatch within)

theorem settles_block (function : String) : (body : List Term) →
    Settles (lowerBlock function body) id (Supplied (.block body))
  | [] => by
    rw [lowerBlock]
    exact settles_done.congr (fun _ => rfl) (iff_of_true trivial supplied_nil)
  | statement :: rest => by
    rw [lowerBlock, supplied_cons]
    have first := settles_term function .statement statement
    split
    next leaves => exact first.congr (fun _ => rfl) (by simp [leaves])
    next falls =>
      exact (first.append (settles_block function rest)).congr (fun _ => rfl) (by simp [falls])

theorem settles_blockValue (function : String) : (body : List Term) →
    Settles (lowerBlockValue function body) (· + 1) (Supplied (.block body))
  | [] => by
    rw [lowerBlockValue]
    exact (settles_push _).congr (fun _ => rfl) (iff_of_true trivial supplied_nil)
  | [last] => by
    have alone : Supplied last ↔ Supplied (.block [last]) := by simp [supplied_cons, supplied_nil]
    rw [lowerBlockValue]
    split
    next => exact (settles_term function .value last).congr (fun _ => rfl) alone
    next =>
      exact ((settles_term function .statement last).fixed (settles_push _)).congr (fun _ => rfl) alone
  | statement :: next :: rest => by
    rw [lowerBlockValue, supplied_cons]
    · have first := settles_term function .statement statement
      split
      next leaves => exact (first.fixed (settles_push _)).congr (fun _ => rfl) (by simp [leaves])
      next falls =>
        exact (first.append (settles_blockValue function (next :: rest))).congr (fun _ => rfl)
          (by simp [falls])
    · simp

theorem settles_arguments (function : String) : (arguments : List (Nat × Term)) →
    Settles (lowerArguments function arguments) (· + arguments.length)
      (∀ argument ∈ arguments, Supplied argument.2)
  | [] => by
    rw [lowerArguments]
    exact settles_done.congr (fun _ => rfl) (by simp)
  | (position, value) :: rest => by
    rw [lowerArguments]
    apply ((settles_term function .value value).append (settles_arguments function rest)).congr
    · intro depth
      simp only [Function.comp_apply, room, List.length_cons]
      omega
    · simp

end

private theorem settles_storeParameters (parameters : List (String × Register)) :
    Settles (storeParameters parameters) id True := by
  induction parameters with
  | nil => exact settles_done
  | cons parameter rest ih =>
    exact (Settles.withSlot fun _ => settles_line _).fixed ih

theorem settles_functionBody (function : Definition) :
    Settles (functionBody function) id (Supplied (.block function.body)) :=
  (((settles_code _).fixed (settles_storeParameters _)).append
    (settles_block function.name function.body)).congr (fun _ => rfl) (by simp)

def Supported (function : Definition) : Prop :=
  function.parameters.length ≤ maxArguments ∧ Supplied (.block function.body)

def Unsupported : Defect → Prop
  | .noRegister .. | .parameterCount .. => True
  | .reservedName _ | .unbalanced .. => False

theorem lowerFunction_ok {function : Definition} (supported : Supported function) (start : Allocation) :
    ∃ lines final, lowerFunction function start = .ok (lines, final) := by
  obtain ⟨body, final, lowered, balanced⟩ :=
    (settles_functionBody function { start with depth := 0 }).1 supported.2
  have none : final.depth = 0 := balanced
  have few : ¬ maxArguments < function.parameters.length := Nat.not_lt.mpr supported.1
  refine ⟨prologue function.name final.frameSize ++ body ++ epilogue function.name, final, ?_⟩
  simp only [lowerFunction, if_neg few, lowered, bind, Except.bind, if_pos none]
  rfl

theorem lowerFunction_error {function : Definition} (unsupported : ¬ Supported function)
    (start : Allocation) : ∃ defect, lowerFunction function start = .error defect ∧ Unsupported defect := by
  by_cases many : maxArguments < function.parameters.length
  · refine ⟨.parameterCount function.name function.parameters.length, ?_, trivial⟩
    simp only [lowerFunction, if_pos many]
    rfl
  · obtain ⟨position, callee, failed⟩ := (settles_functionBody function { start with depth := 0 }).2
      fun supplied => unsupported ⟨Nat.not_lt.mp many, supplied⟩
    refine ⟨.noRegister position callee, ?_, trivial⟩
    simp only [lowerFunction, if_neg many, failed, bind, Except.bind]

theorem lowerFunctions_ok {functions : List Definition}
    (supported : ∀ function ∈ functions, Supported function) (start : Allocation) :
    ∃ lines final, lowerFunctions functions start = .ok (lines, final) := by
  induction functions generalizing start with
  | nil => exact ⟨[], start, rfl⟩
  | cons function rest ih =>
    obtain ⟨first, others⟩ := List.forall_mem_cons.mp supported
    obtain ⟨front, between, begun⟩ := lowerFunction_ok first start
    obtain ⟨back, final, ended⟩ := ih others between
    exact ⟨front ++ back, final, append_eq_ok_iff.mpr ⟨_, _, _, begun, ended, rfl⟩⟩

theorem lowerFunctions_error {functions : List Definition}
    (unsupported : ¬ ∀ function ∈ functions, Supported function) (start : Allocation) :
    ∃ defect, lowerFunctions functions start = .error defect ∧ Unsupported defect := by
  induction functions generalizing start with
  | nil => exact (unsupported (List.forall_mem_nil _)).elim
  | cons function rest ih =>
    by_cases first : Supported function
    · obtain ⟨front, between, begun⟩ := lowerFunction_ok first start
      obtain ⟨defect, ended, kind⟩ :=
        ih (fun others => unsupported (List.forall_mem_cons.mpr ⟨first, others⟩)) between
      exact ⟨defect, append_eq_error (.inr ⟨front, between, begun, ended⟩), kind⟩
    · obtain ⟨defect, failed, kind⟩ := lowerFunction_error first start
      exact ⟨defect, append_eq_error (.inl failed), kind⟩

end Stackwise.Proofs.EmissionSuccess
