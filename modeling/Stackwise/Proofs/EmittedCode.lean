import Stackwise.Proofs.SourceTerms

/-! The code of a term, as a relation. It says which lines stand for which term, with the
allocations before and after them, and has one rule for each form of a term. Whatever the
lowering emits for a regular term is so related, so the facts about emitted code go by induction
on the rules. -/

namespace Stackwise.Proofs.EmittedCode
open Assembly Lowering Emission ListingText SourceTerms

/-- What code is emitted for: a term in a position, the statements of a block in a position, or
the arguments of a call. -/
inductive Piece where
  | term (position : Position) (whole : Term)
  | block (position : Position) (body : List Term)
  | arguments (values : List (Nat × Term))

def room : Position → Nat
  | .statement => 0
  | .value => 1

def pushes : Piece → Nat
  | .term position _ | .block position _ => room position
  | .arguments values => values.length

def pushed (allocation : Allocation) : Allocation := { allocation with depth := allocation.depth + 1 }

def popped (allocation : Allocation) : Allocation := { allocation with depth := allocation.depth - 1 }

def addressLines (name : String) (distance : Nat) : Listing :=
  [.code (.mov Register.rax Register.rbp) none,
    .code (.arithmetic .sub Register.rax (.immediate distance)) (some name),
    .code (.push Register.rax) none]

def literalLines (value : Int64) : Listing :=
  if -0x80000000 ≤ value.toInt ∧ value.toInt < 0x80000000 then
    [.code (.push (.immediate value.toInt)) none]
  else [.code (.mov Register.rax (.immediate value.toInt)) none, .code (.push Register.rax) none]

def fetchLines : Listing :=
  [.code (.pop Register.rax) none, .code (.mov Register.rax (Place.memory Register.rax 0)) none,
    .code (.push Register.rax) none]

def storeLines : Listing :=
  [.code (.pop Register.rdi) none, .code (.pop Register.rax) none,
    .code (.mov (.memory Register.rax 0) Register.rdi) none, .code (.push Register.rdi) none]

def comparisonLines (condition : Condition) : Listing :=
  [.code (.cmp Register.rax Register.rdi) none, .code (.set condition Register.al) none,
    .code (.movzb Register.rax Register.al) none]

def operationLines : Operator → Listing
  | .plus => [.code (.arithmetic .add Register.rax Register.rdi) none]
  | .minus => [.code (.arithmetic .sub Register.rax Register.rdi) none]
  | .times => [.code (.arithmetic .imul Register.rax Register.rdi) none]
  | .over => [.code .cqo none, .code (.idiv Register.rdi) none]
  | .equal => comparisonLines .equal
  | .unequal => comparisonLines .unequal
  | .less => comparisonLines .less
  | .atMost => comparisonLines .atMost

def combineLines (operator : Operator) : Listing :=
  [.code (.pop Register.rdi) none, .code (.pop Register.rax) none] ++
    (operationLines operator ++ [.code (.push Register.rax) none])

def popLines (count : Nat) : Listing :=
  (argumentRegisters.take count).reverse.map fun (register : Register) => .code (.pop register) none

def callLines (depth : Nat) (callee : String) : Listing :=
  if depth % 2 = 0 then [.code (.call callee) none]
  else
    [.code (.arithmetic .sub Register.rsp (.immediate 8)) none, .code (.call callee) none,
      .code (.arithmetic .add Register.rsp (.immediate 8)) none]

def testLines (number : Nat) : Listing :=
  [.code (.pop Register.rax) none, .code (.cmp Register.rax (.immediate 0)) none,
    .code (.je (elseLabel number)) none]

def skipLines (number : Nat) : Listing :=
  [.code (.jmp (endLabel number)) none, .label (elseLabel number)]

def alternative : Option Term → Piece
  | none => .block .statement []
  | some otherwise => .term .statement otherwise

/-- The lines of a piece in the body of `function`. -/
inductive Emits (permitted : String → Nat → Prop) (function : String) :
    Piece → Allocation → Listing → Allocation → Prop where
  | literal {value : Int64} {start : Allocation} :
      Emits permitted function (.term .value (.literal value)) start (literalLines value) (pushed start)
  | var {name : String} {start : Allocation} (identifier : Identifier name) :
      Emits permitted function (.term .value (.var name)) start
        (addressLines name ((start.claim name).distance name) ++ fetchLines) (pushed (start.claim name))
  | assign {target : String} {value : Term} {start final : Allocation} {lines : Listing}
      (identifier : Identifier target)
      (inner : Emits permitted function (.term .value value) (pushed (start.claim target)) lines final) :
      Emits permitted function (.term .value (.assign target value)) start
        (addressLines target ((start.claim target).distance target) ++ (lines ++ storeLines))
        (popped final)
  | apply {operator : Operator} {left right : Term} {start between final : Allocation}
      {front back : Listing}
      (first : Emits permitted function (.term .value left) start front between)
      (second : Emits permitted function (.term .value right) between back final) :
      Emits permitted function (.term .value (.apply operator left right)) start
        (front ++ (back ++ combineLines operator)) (popped final)
  | call {callee : String} {arguments : List (Nat × Term)} {start final : Allocation}
      {lines : Listing} (identifier : Identifier callee)
      (allowed : permitted callee arguments.length) (few : arguments.length ≤ 6)
      (inner : Emits permitted function (.arguments arguments) start lines final) :
      Emits permitted function (.term .value (.call callee arguments)) start
        (lines ++ (popLines arguments.length ++ ([.code (.mov Register.rax (.immediate 0)) none] ++
          (callLines (final.depth - arguments.length) callee ++ [.code (.push Register.rax) none]))))
        { final with depth := final.depth - arguments.length + 1 }
  | branch {test accepted : Term} {otherwise : Option Term} {start tested chosen final : Allocation}
      {condition consequence replacement : Listing}
      (first : Emits permitted function (.term .value test) { start with labels := start.labels + 1 }
        condition tested)
      (second : Emits permitted function (.term .statement accepted) (popped tested) consequence chosen)
      (third : Emits permitted function (alternative otherwise) chosen replacement final) :
      Emits permitted function (.term .statement (.branch test accepted otherwise)) start
        (condition ++ (testLines start.labels ++ (consequence ++ (skipLines start.labels ++
          (replacement ++ [.label (endLabel start.labels)]))))) final
  | leave {start : Allocation} :
      Emits permitted function (.term .statement (.leave none)) start
        [.code (.mov Register.rax (.immediate 0)) none, .code (.jmp (returnLabel function)) none] start
  | leaveWith {value : Term} {start final : Allocation} {lines : Listing}
      (inner : Emits permitted function (.term .value value) start lines final) :
      Emits permitted function (.term .statement (.leave (some value))) start
        (lines ++ [.code (.pop Register.rax) none, .code (.jmp (returnLabel function)) none])
        (popped final)
  | function {name : String} {parameters : List String} {body : List Term} {start : Allocation} :
      Emits permitted function (.term .statement (.function name parameters body)) start [] start
  | expression {term : Term} {start final : Allocation} {lines : Listing} (valued : term.isExpression)
      (inner : Emits permitted function (.term .value term) start lines final) :
      Emits permitted function (.term .statement term) start
        (lines ++ [.code (.pop Register.rax) none]) (popped final)
  | statement {term : Term} {start final : Allocation} {lines : Listing}
      (valueless : term.isExpression = false) (whole : ∀ body, term ≠ .block body)
      (inner : Emits permitted function (.term .statement term) start lines final) :
      Emits permitted function (.term .value term) start
        (lines ++ [.code (.push (.immediate 0)) none]) (pushed final)
  | block {position : Position} {body : List Term} {start final : Allocation} {lines : Listing}
      (inner : Emits permitted function (.block position body) start lines final) :
      Emits permitted function (.term position (.block body)) start lines final
  | finish {start : Allocation} : Emits permitted function (.block .statement []) start [] start
  | zero {start : Allocation} :
      Emits permitted function (.block .value []) start [.code (.push (.immediate 0)) none] (pushed start)
  | last {term : Term} {start final : Allocation} {lines : Listing} (valued : term.isExpression)
      (inner : Emits permitted function (.term .value term) start lines final) :
      Emits permitted function (.block .value [term]) start lines final
  | next {position : Position} {term : Term} {rest : List Term} {start between final : Allocation}
      {front back : Listing}
      (proper : position = .value → rest = [] → term.isExpression = false)
      (first : Emits permitted function (.term .statement term) start front between)
      (second : Emits permitted function (.block position (if term.returns then [] else rest)) between
        back final) :
      Emits permitted function (.block position (term :: rest)) start (front ++ back) final
  | noArgument {start : Allocation} : Emits permitted function (.arguments []) start [] start
  | argument {position : Nat} {value : Term} {rest : List (Nat × Term)} {start between final : Allocation}
      {front back : Listing}
      (first : Emits permitted function (.term .value value) start front between)
      (second : Emits permitted function (.arguments rest) between back final) :
      Emits permitted function (.arguments ((position, value) :: rest)) start (front ++ back) final

@[simp] theorem depth_claim (allocation : Allocation) (name : String) :
    (allocation.claim name).depth = allocation.depth := by
  unfold Allocation.claim
  split
  · rfl
  · rfl

@[simp] theorem labels_claim (allocation : Allocation) (name : String) :
    (allocation.claim name).labels = allocation.labels := by
  unfold Allocation.claim
  split
  · rfl
  · rfl

theorem slots_claim (allocation : Allocation) (name : String) :
    allocation.slots <+: (allocation.claim name).slots := by
  unfold Allocation.claim
  split
  · exact List.prefix_refl _
  · exact List.prefix_append _ _

/-- What the code of a piece does to the allocation. Slots and labels are never given back. -/
structure Grows (piece : Piece) (start final : Allocation) : Prop where
  depth : final.depth = start.depth + pushes piece
  slots : start.slots <+: final.slots
  labels : start.labels ≤ final.labels

theorem pushes_alternative (otherwise : Option Term) : pushes (alternative otherwise) = 0 := by
  cases otherwise with
  | none => rfl
  | some term => rfl

section
variable {permitted : String → Nat → Prop} {function : String} {piece : Piece} {start final : Allocation}
  {lines : Listing}

theorem Emits.grows (emitted : Emits permitted function piece start lines final) :
    Grows piece start final := by
  induction emitted with
  | literal | zero => exact ⟨rfl, List.prefix_refl _, Nat.le_refl _⟩
  | leave | function | finish | noArgument => exact ⟨rfl, List.prefix_refl _, Nat.le_refl _⟩
  | var => exact ⟨by simp [pushed, pushes, room], slots_claim _ _, by simp [pushed]⟩
  | assign _ _ ih =>
    have depth := ih.depth
    have labels := ih.labels
    simp only [pushed, depth_claim, labels_claim, pushes, room] at depth labels
    exact ⟨by simp [popped, pushes, room, depth], (slots_claim _ _).trans ih.slots, labels⟩
  | apply _ _ first second =>
    have depth := second.depth
    rw [first.depth] at depth
    simp only [pushes, room] at depth
    exact ⟨by simp [popped, pushes, room, depth], first.slots.trans second.slots, Nat.le_trans first.labels second.labels⟩
  | call _ _ _ _ ih =>
    have depth := ih.depth
    simp only [pushes] at depth
    exact ⟨by simp [pushes, room, depth], ih.slots, ih.labels⟩
  | branch _ _ _ first second third =>
    have depth := first.depth
    have fewer := second.depth
    have rest := third.depth
    have labels := Nat.le_trans first.labels second.labels
    rw [pushes_alternative] at rest
    simp only [popped, pushes, room] at depth fewer
    refine ⟨by simp only [pushes, room]; omega, (first.slots.trans second.slots).trans third.slots, ?_⟩
    exact Nat.le_trans (Nat.le_succ _) (Nat.le_trans labels third.labels)
  | leaveWith _ ih | expression _ _ ih =>
    have depth := ih.depth
    simp only [pushes, room] at depth
    exact ⟨by simp [popped, pushes, room, depth], ih.slots, ih.labels⟩
  | statement _ _ _ ih =>
    have depth := ih.depth
    simp only [pushes, room] at depth
    exact ⟨by simp [pushed, pushes, room, depth], ih.slots, ih.labels⟩
  | block _ ih | last _ _ ih => exact ⟨ih.depth, ih.slots, ih.labels⟩
  | next _ _ _ first second =>
    have depth := second.depth
    rw [first.depth] at depth
    exact ⟨depth, first.slots.trans second.slots, Nat.le_trans first.labels second.labels⟩
  | argument _ _ first second =>
    have depth := second.depth
    rw [first.depth] at depth
    simp only [pushes, room] at depth
    refine ⟨?_, first.slots.trans second.slots, Nat.le_trans first.labels second.labels⟩
    simp only [pushes, List.length_cons]
    omega

end

theorem address_eq (name : String) (start : Allocation) :
    address name start =
      .ok (addressLines name ((start.claim name).distance name), pushed (start.claim name)) := rfl

private theorem literal_eq (value : Int64) (start : Allocation) :
    literal value start = .ok (literalLines value, pushed start) := by
  unfold literal literalLines
  split
  · rfl
  · rfl

private theorem fetch_eq (name : String) (start : Allocation) :
    fetch name start =
      .ok (addressLines name ((start.claim name).distance name) ++ fetchLines, pushed (start.claim name)) := by
  simp [fetch, fetchLines]
  rfl

private theorem store_eq {start : Allocation} (two : 2 ≤ start.depth) :
    store start = .ok (storeLines, popped start) := by
  have depth : start.depth - 1 - 1 + 1 = start.depth - 1 := by omega
  have stored : store start = .ok (storeLines, { start with depth := start.depth - 1 - 1 + 1 }) := rfl
  rw [stored, depth]
  rfl

private theorem combine_eq {start : Allocation} (operator : Operator) (two : 2 ≤ start.depth) :
    combine operator start = .ok (combineLines operator, popped start) := by
  have depth : start.depth - 1 - 1 + 1 = start.depth - 1 := by omega
  have combined : combine operator start =
      .ok (combineLines operator, { start with depth := start.depth - 1 - 1 + 1 }) := by
    cases operator <;> rfl
  rw [combined, depth]
  rfl

theorem call_eq (callee : String) (start : Allocation) :
    Emission.call callee start = .ok (callLines start.depth callee, start) := by
  unfold Emission.call callLines
  split
  · rfl
  · rfl

/-- Popping succeeds only when every position has a register. -/
theorem popArguments_eq_ok {callee : String} {positions : List Nat} {start final : Allocation}
    {lines : Listing} (popped : popArguments callee positions start = .ok (lines, final)) :
    ∃ registers : List Register, positions.map (argumentRegisters[·]?) = registers.map some ∧
      lines = registers.map (fun register => .code (.pop register) none) ∧
      final = { start with depth := start.depth - positions.length } := by
  induction positions generalizing start lines with
  | nil =>
    cases popped
    exact ⟨[], rfl, rfl, rfl⟩
  | cons position rest ih =>
    simp only [popArguments] at popped
    cases found : argumentRegisters[position]? with
    | none =>
      rw [found] at popped
      cases popped
    | some register =>
      rw [found] at popped
      obtain ⟨front, between, back, first, second, rfl⟩ := append_eq_ok_iff.mp popped
      cases first
      obtain ⟨registers, known, rfl, rfl⟩ := ih second
      refine ⟨register :: registers, by simp [found, known], rfl, ?_⟩
      simp only [List.length_cons, Nat.sub_sub, Nat.add_comm]

private theorem few_of_registers {count : Nat} {registers : List Register}
    (known : (List.range count).map (argumentRegisters[·]?) = registers.map some) :
    count ≤ 6 ∧ registers = argumentRegisters.take count := by
  have few : count ≤ 6 := by
    by_contra many
    have seventh : ((List.range count).map (argumentRegisters[·]?))[6]? = some none := by
      simp [List.getElem?_range (show 6 < count by omega), argumentRegisters]
    rw [known, List.getElem?_map] at seventh
    cases beyond : registers[6]? with
    | none => simp [beyond] at seventh
    | some register => simp [beyond] at seventh
  refine ⟨few, ?_⟩
  have taken : (List.range count).map (argumentRegisters[·]?) = (argumentRegisters.take count).map some := by
    apply List.ext_getElem?
    intro index
    by_cases inside : index < count
    · have bounded : index < argumentRegisters.length := by
        simp only [argumentRegisters, List.length_cons, List.length_nil]
        omega
      simp [List.getElem?_range inside, List.getElem?_take_of_lt inside, bounded]
    · have past : ((argumentRegisters.take count).map some).length ≤ index := by
        rw [List.length_map, List.length_take]
        omega
      rw [List.getElem?_eq_none past, List.getElem?_eq_none (by simpa using inside)]
  exact (List.map_injective_iff.mpr fun _ _ => Option.some.inj) (known.symm.trans taken)

private theorem popArguments_numbered {callee : String} {count : Nat} {start final : Allocation}
    {lines : Listing}
    (popped : popArguments callee (List.range count).reverse start = .ok (lines, final)) :
    count ≤ 6 ∧ lines = popLines count ∧ final = { start with depth := start.depth - count } := by
  obtain ⟨registers, known, rfl, rfl⟩ := popArguments_eq_ok popped
  have reversed : (List.range count).map (argumentRegisters[·]?) = registers.reverse.map some := by
    rw [List.map_reverse] at known
    rw [List.map_reverse, ← known, List.reverse_reverse]
  obtain ⟨few, same⟩ := few_of_registers reversed
  refine ⟨few, ?_, by simp⟩
  rw [popLines, ← same, List.reverse_reverse]

section
variable {permitted : String → Nat → Prop} {function : String} {start final : Allocation} {lines : Listing}

private theorem emits_ofValue {term : Term} {position : Position} {pushing : Emission} (valued : term.isExpression)
    (emits : ∀ {lines final}, pushing start = .ok (lines, final) →
      Emits permitted function (.term .value term) start lines final)
    (lowered : position.ofValue pushing start = .ok (lines, final)) :
    Emits permitted function (.term position term) start lines final := by
  cases position with
  | value => exact emits lowered
  | statement =>
    obtain ⟨front, between, back, first, second, rfl⟩ := append_eq_ok_iff.mp lowered
    cases second
    exact .expression valued (emits first)

private theorem emits_ofStatement {term : Term} {position : Position} {balanced : Emission}
    (valueless : term.isExpression = false) (whole : ∀ body, term ≠ .block body)
    (emits : ∀ {lines final}, balanced start = .ok (lines, final) →
      Emits permitted function (.term .statement term) start lines final)
    (lowered : position.ofStatement balanced start = .ok (lines, final)) :
    Emits permitted function (.term position term) start lines final := by
  cases position with
  | statement => exact emits lowered
  | value =>
    obtain ⟨front, between, back, first, second, rfl⟩ := append_eq_ok_iff.mp lowered
    cases second
    exact .statement valueless whole (emits first)

/-- The lines of a conditional, from those of its parts. -/
theorem emits_choice {test accepted : Term} {otherwise : Option Term} {tests accepts others : Emission}
    (testing : ∀ {start final lines}, tests start = .ok (lines, final) →
      Emits permitted function (.term .value test) start lines final)
    (accepting : ∀ {start final lines}, accepts start = .ok (lines, final) →
      Emits permitted function (.term .statement accepted) start lines final)
    (replacing : ∀ {start final lines}, others start = .ok (lines, final) →
      Emits permitted function (alternative otherwise) start lines final)
    (lowered : choice tests accepts others start = .ok (lines, final)) :
    Emits permitted function (.term .statement (.branch test accepted otherwise)) start lines final := by
  simp only [choice, withLabel, append_eq_ok_iff] at lowered
  obtain ⟨_, _, _, ⟨_, _, _, ⟨_, _, _, ⟨_, _, _, ⟨_, _, _, ⟨_, _, _, ⟨_, _, _, ⟨condition, tested, _,
    first, popping, rfl⟩, comparing, rfl⟩, jumping, rfl⟩, second, rfl⟩, skipping, rfl⟩, labelling, rfl⟩,
    third, rfl⟩, ending, rfl⟩ := lowered
  cases popping
  cases comparing
  cases jumping
  cases skipping
  cases labelling
  cases ending
  simpa [testLines, skipLines] using Emits.branch (testing first) (accepting second) (replacing third)

end

mutual

/-- What the lowering emits for a regular term are its lines. -/
theorem lowerTerm_emits {permitted : String → Nat → Prop} {function : String} :
    ∀ {term : Term} {position : Position} {start final : Allocation} {lines : Listing},
    Regular permitted term → lowerTerm function position term start = .ok (lines, final) →
    Emits permitted function (.term position term) start lines final
  | .literal value, _, start, _, _, _, lowered => by
    rw [lowerTerm] at lowered
    refine emits_ofValue rfl (fun pushing => ?_) lowered
    rw [literal_eq] at pushing
    cases pushing
    exact .literal
  | .var name, _, start, _, _, regular, lowered => by
    rw [lowerTerm] at lowered
    refine emits_ofValue rfl (fun pushing => ?_) lowered
    rw [fetch_eq] at pushing
    cases pushing
    exact .var regular
  | .assign target value, _, start, _, _, regular, lowered => by
    rw [lowerTerm] at lowered
    refine emits_ofValue rfl (fun pushing => ?_) lowered
    obtain ⟨_, between, _, first, second, rfl⟩ := append_eq_ok_iff.mp pushing
    obtain ⟨_, claimed, _, addressed, evaluated, rfl⟩ := append_eq_ok_iff.mp first
    rw [address_eq] at addressed
    cases addressed
    have inner := lowerTerm_emits regular.2 evaluated
    have deep : 2 ≤ between.depth := by
      rw [inner.grows.depth]
      simp [pushed, pushes, room]
    rw [store_eq deep] at second
    cases second
    rw [List.append_assoc]
    exact .assign regular.1 inner
  | .apply operator left right, _, start, _, _, regular, lowered => by
    rw [lowerTerm] at lowered
    refine emits_ofValue rfl (fun pushing => ?_) lowered
    obtain ⟨_, between, _, first, second, rfl⟩ := append_eq_ok_iff.mp pushing
    obtain ⟨_, _, _, one, two, rfl⟩ := append_eq_ok_iff.mp first
    have front := lowerTerm_emits regular.1 one
    have back := lowerTerm_emits regular.2 two
    have deep : 2 ≤ between.depth := by
      rw [back.grows.depth, front.grows.depth]
      simp [pushes, room]
    rw [combine_eq operator deep] at second
    cases second
    rw [List.append_assoc]
    exact .apply front back
  | .call callee arguments, _, start, _, _, regular, lowered => by
    rw [lowerTerm] at lowered
    refine emits_ofValue rfl (fun pushing => ?_) lowered
    obtain ⟨_, between, _, first, second, rfl⟩ := append_eq_ok_iff.mp pushing
    have inner := lowerArguments_emits regular.2.2.2 first
    rw [regular.2.2.1] at second
    simp only [invoke, append_eq_ok_iff] at second
    obtain ⟨_, _, _, ⟨_, _, _, ⟨_, _, _, popping, clearing, rfl⟩, calling, rfl⟩, keeping, rfl⟩ := second
    obtain ⟨few, rfl, rfl⟩ := popArguments_numbered popping
    cases clearing
    rw [call_eq] at calling
    cases calling
    cases keeping
    simpa using Emits.call regular.1 regular.2.1 few inner
  | .branch test accepted none, _, _, _, _, regular, lowered => by
    rw [lowerTerm] at lowered
    refine emits_ofStatement rfl (by simp) (fun balanced => ?_) lowered
    refine emits_choice (lowerTerm_emits regular.1) (lowerTerm_emits regular.2) (fun skipped => ?_) balanced
    cases skipped
    exact .finish
  | .branch test accepted (some otherwise), _, _, _, _, regular, lowered => by
    rw [lowerTerm] at lowered
    refine emits_ofStatement rfl (by simp) (fun balanced => ?_) lowered
    exact emits_choice (lowerTerm_emits regular.1) (lowerTerm_emits regular.2.1)
      (lowerTerm_emits regular.2.2) balanced
  | .leave none, _, _, _, _, _, lowered => by
    rw [lowerTerm] at lowered
    refine emits_ofStatement rfl (by simp) (fun balanced => ?_) lowered
    obtain ⟨_, _, _, first, second, rfl⟩ := append_eq_ok_iff.mp balanced
    cases first
    cases second
    exact .leave
  | .leave (some value), _, _, _, _, regular, lowered => by
    rw [lowerTerm] at lowered
    refine emits_ofStatement rfl (by simp) (fun balanced => ?_) lowered
    simp only [append_eq_ok_iff] at balanced
    obtain ⟨_, _, _, ⟨_, _, _, first, popping, rfl⟩, jumping, rfl⟩ := balanced
    have inner := @lowerTerm_emits permitted function value _ _ _ _ regular first
    cases popping
    cases jumping
    rw [List.append_assoc]
    exact .leaveWith inner
  | .block body, .statement, _, _, _, regular, lowered => by
    rw [lowerTerm] at lowered
    exact .block (@lowerBlock_emits permitted function body _ _ _ regular lowered)
  | .block body, .value, _, _, _, regular, lowered => by
    rw [lowerTerm] at lowered
    exact .block (@lowerBlockValue_emits permitted function body _ _ _ regular lowered)
  | .function _ _ _, _, _, _, _, _, lowered => by
    rw [lowerTerm] at lowered
    refine emits_ofStatement rfl (by simp) (fun balanced => ?_) lowered
    cases balanced
    exact .function

theorem lowerBlock_emits {permitted : String → Nat → Prop} {function : String} :
    ∀ {body : List Term} {start final : Allocation} {lines : Listing}, RegularBody permitted body →
    lowerBlock function body start = .ok (lines, final) →
    Emits permitted function (.block .statement body) start lines final
  | [], _, _, _, _, lowered => by
    rw [lowerBlock] at lowered
    cases lowered
    exact .finish
  | statement :: rest, _, _, lines, regular, lowered => by
    rw [lowerBlock] at lowered
    by_cases leaving : statement.returns
    · rw [if_pos leaving] at lowered
      have first := lowerTerm_emits regular.1 lowered
      rw [← List.append_nil lines]
      exact .next (by simp) first (by rw [if_pos leaving]; exact .finish)
    · rw [if_neg leaving] at lowered
      obtain ⟨_, _, _, front, back, rfl⟩ := append_eq_ok_iff.mp lowered
      have second := lowerBlock_emits regular.2 back
      exact .next (by simp) (lowerTerm_emits regular.1 front) (by rw [if_neg leaving]; exact second)

theorem lowerBlockValue_emits {permitted : String → Nat → Prop} {function : String} :
    ∀ {body : List Term} {start final : Allocation} {lines : Listing}, RegularBody permitted body →
    lowerBlockValue function body start = .ok (lines, final) →
    Emits permitted function (.block .value body) start lines final
  | [], _, _, _, _, lowered => by
    rw [lowerBlockValue] at lowered
    cases lowered
    exact .zero
  | [last], _, _, _, regular, lowered => by
    rw [lowerBlockValue] at lowered
    by_cases valued : last.isExpression
    · rw [if_pos valued] at lowered
      exact .last valued (lowerTerm_emits regular.1 lowered)
    · rw [if_neg valued] at lowered
      obtain ⟨_, _, _, front, back, rfl⟩ := append_eq_ok_iff.mp lowered
      cases back
      exact .next (by simpa using valued) (lowerTerm_emits regular.1 front) (by rw [ite_self]; exact .zero)
  | statement :: next :: rest, _, _, _, regular, lowered => by
    rw [lowerBlockValue] at lowered
    · by_cases leaving : statement.returns
      · rw [if_pos leaving] at lowered
        obtain ⟨_, _, _, front, back, rfl⟩ := append_eq_ok_iff.mp lowered
        cases back
        exact .next (by simp) (lowerTerm_emits regular.1 front) (by rw [if_pos leaving]; exact .zero)
      · rw [if_neg leaving] at lowered
        obtain ⟨_, _, _, front, back, rfl⟩ := append_eq_ok_iff.mp lowered
        have second := lowerBlockValue_emits regular.2 back
        exact .next (by simp) (lowerTerm_emits regular.1 front) (by rw [if_neg leaving]; exact second)
    · simp

theorem lowerArguments_emits {permitted : String → Nat → Prop} {function : String} :
    ∀ {arguments : List (Nat × Term)} {start final : Allocation} {lines : Listing},
    RegularArguments permitted arguments → lowerArguments function arguments start = .ok (lines, final) →
    Emits permitted function (.arguments arguments) start lines final
  | [], _, _, _, _, lowered => by
    rw [lowerArguments] at lowered
    cases lowered
    exact .noArgument
  | (_, value) :: rest, _, _, _, regular, lowered => by
    rw [lowerArguments] at lowered
    obtain ⟨_, _, _, front, back, rfl⟩ := append_eq_ok_iff.mp lowered
    exact .argument (lowerTerm_emits regular.1 front) (lowerArguments_emits regular.2 back)

end

end Stackwise.Proofs.EmittedCode
