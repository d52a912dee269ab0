import Stackwise.Proofs.LoweringVerdicts

/-! The count of the values on the evaluation stack. A pop lowers the count, and at zero it leaves it
there, which would hide that a value is missing. So the lowering is restated with any other way to take
a value off the stack, one that may fail or do something else when there is none. It is the lowering all
the same: every emission takes off only what it has pushed itself, and what stays is one value for a term
in value position and none for a statement. -/

namespace Stackwise.Proofs.DepthAccounting
open Assembly Lowering Emission EmittedCode EmissionSuccess LoweringVerdicts

/-- A way to take a value off the stack: `pop` while there is a value, and anything at all while there is
none. -/
structure Taking where
  take : Register → Emission
  agrees : ∀ {register : Register} {start : Allocation}, 0 < start.depth → take register start = pop register start

namespace Taking

def strict (defect : Defect) : Taking where
  take register start := if start.depth = 0 then .error defect else pop register start
  agrees filled := if_neg (Nat.ne_of_gt filled)

variable (taking : Taking)

def ofValue (position : Position) (pushing : Emission) : Emission :=
  match position with
  | .statement => pushing ++ taking.take Register.rax
  | .value => pushing

def fetch (name : String) : Emission :=
  address name ++ taking.take Register.rax ++
    code (.mov Register.rax (Place.memory Register.rax 0)) ++ push Register.rax

def store : Emission :=
  taking.take Register.rdi ++ taking.take Register.rax ++
    code (.mov (.memory Register.rax 0) Register.rdi) ++ push Register.rdi

def combine (operator : Operator) : Emission :=
  taking.take Register.rdi ++ taking.take Register.rax ++ operation operator ++ push Register.rax

def choice (test accepted otherwise : Emission) : Emission :=
  withLabel fun number =>
    test ++ taking.take Register.rax ++ code (.cmp Register.rax (.immediate 0)) ++
      code (.je (elseLabel number)) ++ accepted ++ code (.jmp (endLabel number)) ++
      line (.label (elseLabel number)) ++ otherwise ++ line (.label (endLabel number))

def popArguments (callee : String) : List Nat → Emission
  | [] => done
  | position :: rest =>
    match argumentRegisters[position]? with
    | some register => taking.take register ++ popArguments callee rest
    | none => fail (.noRegister position callee)

def invoke (callee : String) (positions : List Nat) : Emission :=
  taking.popArguments callee positions.reverse ++ code (.mov Register.rax (.immediate 0)) ++
    call callee ++ push Register.rax

mutual

def term (function : String) (position : Position) : Term → Emission
  | .literal value => taking.ofValue position (literal value)
  | .var name => taking.ofValue position (taking.fetch name)
  | .assign target value =>
    taking.ofValue position (address target ++ term function .value value ++ taking.store)
  | .apply operator left right =>
    taking.ofValue position
      (term function .value left ++ term function .value right ++ taking.combine operator)
  | .call callee values =>
    taking.ofValue position (arguments function values ++ taking.invoke callee (values.map (·.1)))
  | .branch test accepted none =>
    position.ofStatement
      (taking.choice (term function .value test) (term function .statement accepted) done)
  | .branch test accepted (some otherwise) =>
    position.ofStatement
      (taking.choice (term function .value test) (term function .statement accepted)
        (term function .statement otherwise))
  | .leave none =>
    position.ofStatement
      (code (.mov Register.rax (.immediate 0)) ++ code (.jmp (returnLabel function)))
  | .leave (some value) =>
    position.ofStatement
      (term function .value value ++ taking.take Register.rax ++ code (.jmp (returnLabel function)))
  | .block body =>
    match position with
    | .statement => block function body
    | .value => blockValue function body
  | .function .. => position.ofStatement done

def block (function : String) : List Term → Emission
  | [] => done
  | statement :: rest =>
    if statement.returns then term function .statement statement
    else term function .statement statement ++ block function rest

def blockValue (function : String) : List Term → Emission
  | [] => push (.immediate 0)
  | [last] =>
    if last.isExpression then term function .value last
    else term function .statement last ++ push (.immediate 0)
  | statement :: rest =>
    if statement.returns then term function .statement statement ++ push (.immediate 0)
    else term function .statement statement ++ blockValue function rest

def arguments (function : String) : List (Nat × Term) → Emission
  | [] => done
  | (_, value) :: rest => term function .value value ++ arguments function rest

end

end Taking

/-- The values on the stack behind lines, counted from the pushes and pops among them. There is no count
if a pop finds no value. -/
def tally (depth : Nat) : Listing → Option Nat
  | [] => some depth
  | .code (.push _) _ :: rest => tally (depth + 1) rest
  | .code (.pop _) _ :: rest => if depth = 0 then none else tally (depth - 1) rest
  | _ :: rest => tally depth rest

private theorem tally_append (depth : Nat) (front back : Listing) :
    tally depth (front ++ back) = (tally depth front).bind (tally · back) := by
  fun_induction tally depth front with
  | case1 => rfl
  | case2 depth source comment rest ih => simpa only [List.cons_append, tally] using ih
  | case3 target comment rest => rfl
  | case4 depth target comment rest filled ih => simpa only [List.cons_append, tally, if_neg filled] using ih
  | case5 depth text rest unpushed unpopped ih =>
    rw [List.cons_append, tally, ih]
    · exact unpushed
    · exact unpopped

/-- With `needs` values or more on the stack, the first emission is the second one. When it succeeds, it
has replaced `needs` values by `leaves`, and its lines count as many. -/
structure Accounts (needs leaves : Nat) (one two : Emission) : Prop where
  same : ∀ {start : Allocation}, needs ≤ start.depth → one start = two start
  ends : ∀ {start final : Allocation} {lines : Listing}, two start = .ok (lines, final) → needs ≤ start.depth →
    final.depth + needs = start.depth + leaves ∧ tally start.depth lines = some final.depth

namespace Accounts

variable {needs between leaves : Nat} {one two three four : Emission}

theorem append (first : Accounts needs between one two) (second : Accounts between leaves three four) :
    Accounts needs leaves (one ++ three) (two ++ four) where
  same := by
    intro start filled
    change (one start >>= fun reached => three reached.2 >>= fun finished =>
      pure (reached.1 ++ finished.1, finished.2)) = (two start >>= fun reached => four reached.2 >>=
      fun finished => pure (reached.1 ++ finished.1, finished.2))
    rw [first.same filled]
    cases begun : two start with
    | error defect => rfl
    | ok reached =>
      have middle := (first.ends begun filled).1
      change (three reached.2 >>= _) = (four reached.2 >>= _)
      rw [second.same (by omega)]
  ends := by
    intro start final lines emitted filled
    obtain ⟨front, reached, back, begun, ended, rfl⟩ := append_eq_ok_iff.mp emitted
    obtain ⟨middle, counted⟩ := first.ends begun filled
    obtain ⟨last, further⟩ := second.ends ended (by omega)
    refine ⟨by omega, ?_⟩
    rw [tally_append, counted]
    exact further

/-- Values further down do not matter. -/
theorem deeper (accounts : Accounts needs leaves one two) (more : Nat) :
    Accounts (needs + more) (leaves + more) one two where
  same filled := accounts.same (by omega)
  ends := by
    intro start final lines emitted filled
    obtain ⟨changed, counted⟩ := accounts.ends emitted (by omega)
    exact ⟨by omega, counted⟩

/-- An emission that takes nothing off the stack. -/
theorem untaken (emits : ∀ start, ∃ lines final, one start = .ok (lines, final) ∧
    final.depth = start.depth + leaves ∧ tally start.depth lines = some final.depth) : Accounts 0 leaves one one where
  same _ := rfl
  ends := by
    intro start final lines emitted _
    obtain ⟨_, _, succeeded, changed, counted⟩ := emits start
    rw [emitted] at succeeded
    cases succeeded
    exact ⟨changed, counted⟩

private theorem fail (needs leaves : Nat) (defect : Defect) :
    Accounts needs leaves (Emission.fail defect) (Emission.fail defect) where
  same _ := rfl
  ends emitted _ := nomatch emitted

private theorem withLabel {body other : Nat → Emission}
    (inner : ∀ number, Accounts needs leaves (body number) (other number)) :
    Accounts needs leaves (Emission.withLabel body) (Emission.withLabel other) where
  same {start} filled := (inner start.labels).same filled
  ends := by
    intro start final lines emitted filled
    change other start.labels { start with labels := start.labels + 1 } = _ at emitted
    have ended := (inner start.labels).ends emitted filled
    exact ended

end Accounts

section Parts

variable (taking : Taking)

theorem accounts_done : Accounts 0 0 done done :=
  .untaken fun start => ⟨[], start, rfl, rfl, rfl⟩

/-- A line that is no push and no pop. -/
theorem accounts_line {text : Line} (level : ∀ depth, tally depth [text] = some depth) :
    Accounts 0 0 (line text) (line text) :=
  .untaken fun start => ⟨[text], start, rfl, rfl, level start.depth⟩

theorem accounts_code {instruction : Instruction}
    (level : ∀ depth, tally depth [.code instruction none] = some depth) :
    Accounts 0 0 (code instruction) (code instruction) :=
  accounts_line level

theorem accounts_push (source : Operand) : Accounts 0 1 (push source) (push source) :=
  .untaken fun _ => ⟨_, _, rfl, rfl, rfl⟩

theorem accounts_take (register : Register) : Accounts 1 0 (taking.take register) (pop register) where
  same := taking.agrees
  ends := by
    intro start final lines emitted filled
    cases emitted
    exact ⟨Nat.sub_add_cancel filled, if_neg (Nat.ne_of_gt filled)⟩

theorem accounts_address (name : String) : Accounts 0 1 (address name) (address name) := by
  apply Accounts.untaken
  intro start
  refine ⟨_, _, address_eq name start, ?_, ?_⟩
  · rw [pushed, depth_claim]
  · rw [pushed, depth_claim]
    rfl

private theorem accounts_literal (value : Int64) : Accounts 0 1 (literal value) (literal value) := by
  unfold literal
  split
  · exact accounts_push _
  · exact (accounts_code fun _ => rfl).append (accounts_push _)

private theorem accounts_operation (operator : Operator) : Accounts 0 0 (operation operator) (operation operator) := by
  have compares (condition : Condition) : Accounts 0 0 (comparison condition) (comparison condition) :=
    ((accounts_code fun _ => rfl).append (accounts_code fun _ => rfl)).append (accounts_code fun _ => rfl)
  cases operator with
  | plus | minus | times => exact accounts_code fun _ => rfl
  | «over» => exact (accounts_code fun _ => rfl).append (accounts_code fun _ => rfl)
  | equal | unequal | less | atMost => exact compares _

/-- The padding of a call is no value, so it is not counted. -/
theorem accounts_enter (callee : String) : Accounts 0 0 (call callee) (call callee) := by
  apply Accounts.untaken
  intro start
  refine ⟨_, _, call_eq callee start, rfl, ?_⟩
  unfold callLines
  split
  · rfl
  · rfl

private theorem accounts_fetch (name : String) : Accounts 0 1 (taking.fetch name) (fetch name) :=
  (((accounts_address name).append (accounts_take taking _)).append (accounts_code fun _ => rfl)).append
    (accounts_push _)

/-- Two values are taken off the stack, and code that leaves it as it is follows. -/
theorem accounts_pair {first second : Register} {inner : Emission} (level : Accounts 0 0 inner inner)
    (source : Operand) :
    Accounts 2 1 (taking.take first ++ taking.take second ++ inner ++ push source)
      (pop first ++ pop second ++ inner ++ push source) :=
  ((((accounts_take taking first).deeper 1).append (accounts_take taking second)).append level).append
    (accounts_push source)

private theorem accounts_store : Accounts 2 1 taking.store store :=
  accounts_pair taking (accounts_code fun _ => rfl) _

private theorem accounts_combine (operator : Operator) : Accounts 2 1 (taking.combine operator) (combine operator) :=
  accounts_pair taking (accounts_operation operator) _

private theorem accounts_popArguments (callee : String) (positions : List Nat) :
    Accounts positions.length 0 (taking.popArguments callee positions) (popArguments callee positions) := by
  induction positions with
  | nil => exact accounts_done
  | cons position rest ih =>
    rw [Taking.popArguments, popArguments]
    cases argumentRegisters[position]? with
    | none => exact .fail _ _ _
    | some register =>
      have first := (accounts_take taking register).deeper rest.length
      rw [Nat.add_comm, Nat.zero_add] at first
      exact first.append ih

private theorem accounts_invoke (callee : String) (positions : List Nat) :
    Accounts positions.length 1 (taking.invoke callee positions) (invoke callee positions) := by
  have popped := accounts_popArguments taking callee positions.reverse
  rw [List.length_reverse] at popped
  exact ((popped.append (accounts_code fun _ => rfl)).append (accounts_enter callee)).append (accounts_push _)

variable {one two : Emission}

private theorem accounts_ofValue (position : Position) (inner : Accounts 0 1 one two) :
    Accounts 0 (room position) (taking.ofValue position one) (position.ofValue two) := by
  cases position with
  | statement => exact inner.append (accounts_take taking _)
  | value => exact inner

private theorem accounts_ofStatement (position : Position) (inner : Accounts 0 0 one two) :
    Accounts 0 (room position) (position.ofStatement one) (position.ofStatement two) := by
  cases position with
  | statement => exact inner
  | value => exact inner.append (accounts_push _)

private theorem accounts_choice {test accepted otherwise tested chosen replaced : Emission}
    (tests : Accounts 0 1 test tested) (accepts : Accounts 0 0 accepted chosen)
    (others : Accounts 0 0 otherwise replaced) :
    Accounts 0 0 (taking.choice test accepted otherwise) (choice tested chosen replaced) := by
  apply Accounts.withLabel
  intro number
  have compares : Accounts 0 0 (code (.cmp Register.rax (.immediate 0))) (code (.cmp Register.rax (.immediate 0))) :=
    accounts_code fun _ => rfl
  have skips : Accounts 0 0 (code (.je (elseLabel number))) (code (.je (elseLabel number))) :=
    accounts_code fun _ => rfl
  have tested := ((tests.append (accounts_take taking Register.rax)).append compares).append skips
  have leaves : Accounts 0 0 (code (.jmp (endLabel number))) (code (.jmp (endLabel number))) :=
    accounts_code fun _ => rfl
  have marks (label : String) : Accounts 0 0 (line (.label label)) (line (.label label)) :=
    accounts_line fun _ => rfl
  exact ((((tested.append accepts).append leaves).append (marks _)).append others).append (marks _)

end Parts

mutual

theorem accounts_term (taking : Taking) (function : String) : (position : Position) → (term : Term) →
    Accounts 0 (room position) (taking.term function position term) (lowerTerm function position term)
  | position, .literal value => by
    rw [Taking.term, lowerTerm]
    exact accounts_ofValue taking position (accounts_literal value)
  | position, .var name => by
    rw [Taking.term, lowerTerm]
    exact accounts_ofValue taking position (accounts_fetch taking name)
  | position, .assign target value => by
    rw [Taking.term, lowerTerm]
    apply accounts_ofValue taking
    have inner := (accounts_term taking function .value value).deeper 1
    exact ((accounts_address target).append inner).append (accounts_store taking)
  | position, .apply operator left right => by
    rw [Taking.term, lowerTerm]
    apply accounts_ofValue taking
    have second := (accounts_term taking function .value right).deeper 1
    exact ((accounts_term taking function .value left).append second).append (accounts_combine taking operator)
  | position, .call callee values => by
    rw [Taking.term, lowerTerm]
    apply accounts_ofValue taking
    have passed := accounts_arguments taking function values
    have invoked := accounts_invoke taking callee (values.map (·.1))
    rw [List.length_map] at invoked
    exact passed.append invoked
  | position, .branch test accepted none => by
    rw [Taking.term, lowerTerm]
    apply accounts_ofStatement
    exact accounts_choice taking (accounts_term taking function .value test)
      (accounts_term taking function .statement accepted) accounts_done
  | position, .branch test accepted (some otherwise) => by
    rw [Taking.term, lowerTerm]
    apply accounts_ofStatement
    exact accounts_choice taking (accounts_term taking function .value test)
      (accounts_term taking function .statement accepted) (accounts_term taking function .statement otherwise)
  | position, .leave none => by
    rw [Taking.term, lowerTerm]
    exact accounts_ofStatement position ((accounts_code fun _ => rfl).append (accounts_code fun _ => rfl))
  | position, .leave (some value) => by
    rw [Taking.term, lowerTerm]
    apply accounts_ofStatement
    exact ((accounts_term taking function .value value).append (accounts_take taking _)).append (accounts_code fun _ => rfl)
  | .statement, .block body => by
    rw [Taking.term, lowerTerm]
    exact accounts_block taking function body
  | .value, .block body => by
    rw [Taking.term, lowerTerm]
    exact accounts_blockValue taking function body
  | position, .function name parameters body => by
    rw [Taking.term, lowerTerm]
    exact accounts_ofStatement position accounts_done

theorem accounts_block (taking : Taking) (function : String) : (body : List Term) →
    Accounts 0 0 (taking.block function body) (lowerBlock function body)
  | [] => by
    rw [Taking.block, lowerBlock]
    exact accounts_done
  | statement :: rest => by
    rw [Taking.block, lowerBlock]
    have first := accounts_term taking function .statement statement
    split
    next => exact first
    next => exact first.append (accounts_block taking function rest)

theorem accounts_blockValue (taking : Taking) (function : String) : (body : List Term) →
    Accounts 0 1 (taking.blockValue function body) (lowerBlockValue function body)
  | [] => by
    rw [Taking.blockValue, lowerBlockValue]
    exact accounts_push _
  | [last] => by
    rw [Taking.blockValue, lowerBlockValue]
    split
    next => exact accounts_term taking function .value last
    next => exact (accounts_term taking function .statement last).append (accounts_push _)
  | statement :: next :: rest => by
    rw [Taking.blockValue, lowerBlockValue]
    · have first := accounts_term taking function .statement statement
      split
      next => exact first.append (accounts_push _)
      next => exact first.append (accounts_blockValue taking function (next :: rest))
    · simp
    · simp

theorem accounts_arguments (taking : Taking) (function : String) : (values : List (Nat × Term)) →
    Accounts 0 values.length (taking.arguments function values) (lowerArguments function values)
  | [] => by
    rw [Taking.arguments, lowerArguments]
    exact accounts_done
  | (position, value) :: rest => by
    rw [Taking.arguments, lowerArguments]
    have others := (accounts_arguments taking function rest).deeper 1
    rw [Nat.zero_add] at others
    exact (accounts_term taking function .value value).append others

end

/-- The text of values left on the stack begins with their number, and no text of another defect does. -/
theorem unbalanced_text {defect : Defect} (other : ∀ name count, defect ≠ .unbalanced name count) (function : String)
    (number : Nat) : defect.description ≠ (Defect.unbalanced function number).description := by
  intro same
  obtain ⟨digit, digits, printed⟩ := List.exists_cons_of_ne_nil (@Nat.toDigits_ne_nil number 10)
  have numeric : digit.isDigit :=
    Nat.isDigit_of_mem_toDigits (by decide) (by decide) (printed ▸ List.mem_cons_self)
  have counted : (toString number).toList.head? = some digit := by
    change (Nat.repr number).toList.head? = _
    rw [Nat.toList_repr, printed, List.head?_cons]
  have clash {text front back : String} {letter : Char} (begins : text.toList.head? = some letter)
      (plain : letter.isDigit = false) (equal : text ++ front = toString number ++ back) : False := by
    have first := head_eq_of_append equal begins counted
    rw [first, numeric] at plain
    cases plain
  have reserved : "function name '".toList.head? = some 'f' := rfl
  have missing : "argument index ".toList.head? = some 'a' := rfl
  have many : "'".toList.head? = some '\'' := rfl
  cases defect with
  | reservedName name =>
    change "function name '" ++ name ++ _ = toString number ++ _ ++ function ++ _ at same
    simp only [String.append_assoc] at same
    exact clash reserved (by decide) same
  | noRegister position callee =>
    change "argument index " ++ toString position ++ _ ++ callee ++ _ = toString number ++ _ ++ function ++ _ at same
    simp only [String.append_assoc] at same
    exact clash missing (by decide) same
  | parameterCount name count =>
    change "'" ++ name ++ _ ++ toString count ++ _ = toString number ++ _ ++ function ++ _ at same
    simp only [String.append_assoc] at same
    exact clash many (by decide) same
  | unbalanced name count => exact other name count rfl

/-- Whenever the emission succeeds, it has raised the number of values on the stack by the given one, and
no pop among its lines finds the stack empty. -/
def Raises (count : Nat) (emission : Emission) : Prop :=
  ∀ start lines final, emission start = .ok (lines, final) →
    final.depth = start.depth + count ∧ tally start.depth lines = some final.depth

private theorem Accounts.raises {count : Nat} {one two : Emission} (accounts : Accounts 0 count one two) : Raises count two :=
  fun _ _ _ emitted => accounts.ends emitted (Nat.zero_le _)

private theorem Accounts.eq {count : Nat} {one two : Emission} (accounts : Accounts 0 count one two) : one = two :=
  funext fun _ => accounts.same (Nat.zero_le _)

private theorem lowerFunction_balanced (function : Definition) (start : Allocation) (name : String) (count : Nat) :
    lowerFunction function start ≠ .error (.unbalanced name count) := by
  intro left
  by_cases supported : Supported function
  · obtain ⟨lines, final, lowered⟩ := lowerFunction_ok supported start
    rw [left] at lowered
    cases lowered
  · obtain ⟨defect, failed, kind⟩ := lowerFunction_error supported start
    rw [left] at failed
    cases failed
    exact kind

private theorem lower_balanced (program : List Term) (name : String) (count : Nat) :
    lower program ≠ .error (.defect (Defect.unbalanced name count).description) := by
  have result := outcome program
  generalize lower program = verdict at result ⊢
  cases result with
  | redefined | lowered => simp
  | @reserved callee =>
    have text : (Defect.reservedName callee).description ≠ _ := unbalanced_text (by simp) name count
    simpa using text
  | miscalled free _ found =>
    obtain ⟨_, _, _, _, _, _, rfl⟩ := (wrongCall?_eq_some_iff (redefinition?_eq_none_iff.mp free)).mp found
    simp
  | @overloaded defect _ _ _ _ kind =>
    have text : defect.description ≠ _ := unbalanced_text (fun _ _ same => by subst same; exact kind) name count
    simpa using text

/-- The number of values on the stack is exact for every term, in every function and from every
allocation. A term in value position raises it by one and statements leave it as it is, conditionals and
terms that leave the function among them. No emission, whether it succeeds or fails, takes a value off the
stack where there is none, so it is the same however that would be done. Hence no function and no program
is ever refused for values left on the stack. -/
theorem depth_accounted (function : String) :
    (∀ term, Raises 1 (lowerTerm function .value term)) ∧
    (∀ term, Raises 0 (lowerTerm function .statement term)) ∧
    (∀ body, Raises 0 (lowerBlock function body)) ∧
    (∀ (taking : Taking) position term, taking.term function position term = lowerTerm function position term) ∧
    (∀ (taking : Taking) body, taking.block function body = lowerBlock function body) ∧
    (∀ definition start name count, lowerFunction definition start ≠ .error (.unbalanced name count)) ∧
    ∀ program name count, lower program ≠ .error (.defect (Defect.unbalanced name count).description) := by
  have term_accounts := accounts_term (.strict (.unbalanced function 0)) function
  have block_accounts := accounts_block (.strict (.unbalanced function 0)) function
  refine ⟨fun term => ?_, fun term => ?_, fun body => ?_, fun taking position term => ?_, fun taking body => ?_,
    lowerFunction_balanced, lower_balanced⟩
  · exact (term_accounts .value term).raises
  · exact (term_accounts .statement term).raises
  · exact (block_accounts body).raises
  · exact (accounts_term taking function position term).eq
  · exact (accounts_block taking function body).eq

def tangled (last : Nat) : Term :=
  .apply .plus (.leave (some (.literal 1)))
    (.call "f" [(0, .block [.leave none, .var "x"]), (0, .branch (.var "a") (.literal 2) none), (last, .var "b")])

/-- An emission of it from an odd number of values, and one that fails for want of a register and not for
want of a value. -/
theorem tangled_depth_accounted :
    (∃ lines final, lowerTerm "f" .value (tangled 5) ⟨["a"], 7, 1⟩ = .ok (lines, final) ∧ final.depth = 2) ∧
    (Taking.strict (.unbalanced "f" 0)).term "f" .statement (tangled 6) ⟨["a"], 7, 0⟩ = .error (.noRegister 6 "f") := by
  obtain ⟨raises, _, _, same, _⟩ := depth_accounted "f"
  constructor
  · have succeeds : (lowerTerm "f" .value (tangled 5) ⟨["a"], 7, 1⟩).isOk = true := by decide +kernel
    cases emitted : lowerTerm "f" .value (tangled 5) ⟨["a"], 7, 1⟩ with
    | error defect =>
      rw [emitted] at succeeds
      cases succeeds
    | ok reached => exact ⟨_, _, rfl, (raises _ _ _ _ emitted).1⟩
  · rw [same]
    decide +kernel

end Stackwise.Proofs.DepthAccounting
