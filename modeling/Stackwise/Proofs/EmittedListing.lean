import Stackwise.Proofs.EmittedCode
import Stackwise.Proofs.StackRoom

/-! The listing of a program. No label is defined twice in it, because a name belongs to one
function and a number to one conditional, and every line of it is legible as long as the frames
are smaller than the words are. So it always loads, and every function stands in the loaded
program. -/

namespace Stackwise.Proofs.EmittedListing
open Assembly Machine Lowering ListingText SourceTerms EmittedCode Loading StackRoom

theorem toDigits_injective {first second : Nat}
    (same : Nat.toDigits 10 first = Nat.toDigits 10 second) : first = second := by
  have read := congrArg (Nat.ofDigitChars 10 · 0) same
  simpa using read

theorem toList_elseLabel (number : Nat) :
    (elseLabel number).toList = ".L.else.".toList ++ Nat.toDigits 10 number := by
  show (".L.else." ++ Nat.repr number).toList = _
  rw [String.toList_append, Nat.toList_repr]

theorem toList_endLabel (number : Nat) :
    (endLabel number).toList = ".L.end.".toList ++ Nat.toDigits 10 number := by
  show (".L.end." ++ Nat.repr number).toList = _
  rw [String.toList_append, Nat.toList_repr]

theorem toList_returnLabel (function : String) :
    (returnLabel function).toList = ".L.return.".toList ++ function.toList := by
  rw [returnLabel, String.toList_append]

private theorem elseLabel_injective {first second : Nat} (same : elseLabel first = elseLabel second) :
    first = second := by
  have chars := congrArg String.toList same
  rw [toList_elseLabel, toList_elseLabel] at chars
  exact toDigits_injective (List.append_cancel_left chars)

private theorem endLabel_injective {first second : Nat} (same : endLabel first = endLabel second) :
    first = second := by
  have chars := congrArg String.toList same
  rw [toList_endLabel, toList_endLabel] at chars
  exact toDigits_injective (List.append_cancel_left chars)

private theorem returnLabel_injective {first second : String} (same : returnLabel first = returnLabel second) :
    first = second := by
  have chars := congrArg String.toList same
  rw [toList_returnLabel, toList_returnLabel] at chars
  exact String.toList_injective (List.append_cancel_left chars)

theorem elseLabel_ne_endLabel (first second : Nat) : elseLabel first ≠ endLabel second := by
  intro same
  have chars := congrArg String.toList same
  rw [toList_elseLabel, toList_endLabel] at chars
  simp at chars

def Numbered (low high : Nat) (name : String) : Prop :=
  ∃ number, low ≤ number ∧ number < high ∧ (name = elseLabel number ∨ name = endLabel number)

theorem Numbered.mono {low high least most : Nat} {name : String} (numbered : Numbered low high name)
    (below : least ≤ low) (above : high ≤ most) : Numbered least most name := by
  obtain ⟨number, lower, upper, form⟩ := numbered
  exact ⟨number, Nat.le_trans below lower, Nat.lt_of_lt_of_le upper above, form⟩

theorem Numbered.disjoint {low middle high : Nat} {name : String} (first : Numbered low middle name)
    (second : Numbered middle high name) : False := by
  obtain ⟨one, _, below, form⟩ := first
  obtain ⟨two, above, _, other⟩ := second
  have same : one = two := by
    rcases form with rfl | rfl
    · rcases other with same | same
      · exact elseLabel_injective same
      · exact absurd same (elseLabel_ne_endLabel _ _)
    · rcases other with same | same
      · exact absurd same.symm (elseLabel_ne_endLabel _ _)
      · exact endLabel_injective same
  omega

theorem Numbered.ne_returnLabel {low high : Nat} {name function : String}
    (numbered : Numbered low high name) : name ≠ returnLabel function := by
  obtain ⟨number, -, -, rfl | rfl⟩ := numbered
  · intro same
    have chars := congrArg String.toList same
    rw [toList_elseLabel, toList_returnLabel] at chars
    simp at chars
  · intro same
    have chars := congrArg String.toList same
    rw [toList_endLabel, toList_returnLabel] at chars
    simp at chars

theorem head_numbered {low high : Nat} {name : String} (numbered : Numbered low high name) :
    name.toList.head? = some '.' := by
  obtain ⟨number, -, -, rfl | rfl⟩ := numbered
  · rw [toList_elseLabel]
    rfl
  · rw [toList_endLabel]
    rfl

theorem head_returnLabel (function : String) : (returnLabel function).toList.head? = some '.' := by
  rw [toList_returnLabel]
  rfl

/-- The labels of the lines bear numbers from a range, and none is defined twice. -/
def Fresh (low high : Nat) (lines : Listing) : Prop :=
  (∀ name ∈ labelNames lines, Numbered low high name) ∧ (labelNames lines).Nodup

@[simp] theorem labelNames_append (front back : Listing) :
    labelNames (front ++ back) = labelNames front ++ labelNames back := by
  simp [labelNames]

private theorem fresh_of_unlabelled {low high : Nat} {lines : Listing} (unlabelled : labelNames lines = []) :
    Fresh low high lines := by
  rw [Fresh, unlabelled]
  exact ⟨by simp, List.nodup_nil⟩

theorem Fresh.append {low middle high : Nat} {front back : Listing} (first : Fresh low middle front)
    (second : Fresh middle high back) (below : low ≤ middle) (above : middle ≤ high) :
    Fresh low high (front ++ back) := by
  rw [Fresh, labelNames_append]
  constructor
  · intro name member
    rcases List.mem_append.mp member with member | member
    · exact (first.1 name member).mono (Nat.le_refl _) above
    · exact (second.1 name member).mono below (Nat.le_refl _)
  · refine List.nodup_append.mpr ⟨first.2, second.2, fun name here other there same => ?_⟩
    exact (first.1 name here).disjoint (same ▸ second.1 other there)

/-- Lines without labels may stand behind others. -/
theorem Fresh.extend {low high : Nat} {front back : Listing} (fresh : Fresh low high front)
    (unlabelled : labelNames back = []) : Fresh low high (front ++ back) := by
  rwa [Fresh, labelNames_append, unlabelled, List.append_nil]

private theorem unlabelled_literalLines (value : Int64) : labelNames (literalLines value) = [] := by
  unfold literalLines
  split
  · rfl
  · rfl

private theorem unlabelled_combineLines (operator : Operator) : labelNames (combineLines operator) = [] := by
  cases operator <;> rfl

private theorem unlabelled_callLines (depth : Nat) (callee : String) : labelNames (callLines depth callee) = [] := by
  unfold callLines
  split
  · rfl
  · rfl

private theorem unlabelled_popLines (count : Nat) : labelNames (popLines count) = [] := by
  rw [labelNames, popLines, List.filterMap_map]
  exact List.filterMap_eq_nil_iff.mpr fun _ _ => rfl

/-- A conditional defines the two labels of its number besides those of its parts. -/
theorem fresh_branch {number middle high : Nat} {front back : Listing} (first : Fresh (number + 1) middle front)
    (second : Fresh middle high back) (below : number + 1 ≤ middle) (above : middle ≤ high) :
    Fresh number high (front ++ (.label (elseLabel number) :: (back ++ [.label (endLabel number)]))) := by
  have parts := first.append second below above
  rw [Fresh, labelNames_append] at parts
  have names : labelNames (front ++ (.label (elseLabel number) :: (back ++ [.label (endLabel number)]))) =
      labelNames front ++ (elseLabel number :: (labelNames back ++ [endLabel number])) := by
    simp [labelNames, labelName?]
  have own (name : String) (form : name = elseLabel number ∨ name = endLabel number) :
      Numbered number (number + 1) name := ⟨number, Nat.le_refl _, Nat.lt_succ_self _, form⟩
  have apart (name : String) (form : name = elseLabel number ∨ name = endLabel number) :
      name ∉ labelNames front ++ labelNames back := by
    intro member
    exact (own name form).disjoint (parts.1 name member)
  have within : number + 1 ≤ high := Nat.le_trans below above
  have permuted : List.Perm (labelNames front ++ (elseLabel number :: (labelNames back ++ [endLabel number])))
      (elseLabel number :: endLabel number :: (labelNames front ++ labelNames back)) := by
    refine List.perm_middle.trans (List.Perm.cons _ ?_)
    rw [← List.append_assoc]
    exact List.perm_append_singleton _ _
  rw [Fresh, names]
  constructor
  · intro name member
    rcases List.mem_cons.mp (permuted.mem_iff.mp member) with rfl | member
    · exact (own _ (.inl rfl)).mono (Nat.le_refl _) within
    · rcases List.mem_cons.mp member with rfl | member
      · exact (own _ (.inr rfl)).mono (Nat.le_refl _) within
      · exact (parts.1 name member).mono (Nat.le_succ _) (Nat.le_refl _)
  · rw [permuted.nodup_iff]
    refine List.nodup_cons.mpr ⟨?_, List.nodup_cons.mpr ⟨apart _ (.inr rfl), parts.2⟩⟩
    intro member
    rcases List.mem_cons.mp member with same | member
    · exact elseLabel_ne_endLabel _ _ same
    · exact apart _ (.inl rfl) member

section
variable {permitted : String → Nat → Prop} {function : String} {piece : Piece} {start final : Allocation}
  {lines : Listing}

/-- The labels of emitted code bear the numbers that were taken for it. -/
theorem fresh_of_emits (emitted : Emits permitted function piece start lines final) :
    Fresh start.labels final.labels lines := by
  induction emitted with
  | literal => exact fresh_of_unlabelled (unlabelled_literalLines _)
  | var | leave | function | finish | zero | noArgument => exact fresh_of_unlabelled rfl
  | @assign target value start final lines _ inner ih =>
    have whole : Fresh start.labels final.labels (lines ++ storeLines) :=
      Fresh.extend (by simpa [pushed] using ih) rfl
    have opening : Fresh start.labels start.labels
        (addressLines target ((start.claim target).distance target)) := fresh_of_unlabelled rfl
    have grown := inner.grows.labels
    simp only [pushed, labels_claim] at grown
    exact opening.append whole (Nat.le_refl _) grown
  | apply first second one two =>
    rw [← List.append_assoc]
    exact (one.append two first.grows.labels second.grows.labels).extend (unlabelled_combineLines _)
  | call _ _ _ _ ih =>
    refine ih.extend ?_
    simp only [labelNames_append, unlabelled_popLines, unlabelled_callLines]
    rfl
  | @branch test accepted otherwise start tested chosen final condition consequence replacement first
      second third one two three =>
    have front : Fresh (start.labels + 1) chosen.labels
        (condition ++ testLines start.labels ++ consequence ++ [.code (.jmp (endLabel start.labels)) none]) :=
      ((one.extend rfl).append two first.grows.labels second.grows.labels).extend rfl
    have whole := fresh_branch front three (Nat.le_trans first.grows.labels second.grows.labels)
      third.grows.labels
    simpa [skipLines] using whole
  | leaveWith _ ih | expression _ _ ih | statement _ _ _ ih => exact ih.extend rfl
  | block _ ih | last _ _ ih => exact ih
  | next _ first second one two | argument first second one two =>
    exact one.append two first.grows.labels second.grows.labels

end

def Legible (lines : Listing) : Prop := ∀ line ∈ lines, LegibleLine line

theorem legible_append {front back : Listing} : Legible (front ++ back) ↔ Legible front ∧ Legible back :=
  List.forall_mem_append

theorem legible_dotted {name : String} {front back : List Char} (same : name.toList = front ++ back)
    (dotted : front.head? = some '.') (first : Solid front) (second : Solid back) : LegibleLabel name := by
  refine ⟨same ▸ first.append second, ?_⟩
  rw [same, List.head?_append, dotted]
  simp

theorem legible_elseLabel (number : Nat) : LegibleLabel (elseLabel number) :=
  legible_dotted (toList_elseLabel number) (by decide) (by decide) (solid_toDigits number)

theorem legible_endLabel (number : Nat) : LegibleLabel (endLabel number) :=
  legible_dotted (toList_endLabel number) (by decide) (by decide) (solid_toDigits number)

theorem legible_returnLabel {function : String} (identifier : Identifier function) :
    LegibleLabel (returnLabel function) :=
  legible_dotted (toList_returnLabel function) (by decide) (by decide) identifier.solid

theorem legible_comment {name : String} (identifier : Identifier name) :
    ∀ text ∈ some name, '\n' ∉ text.toList := by
  intro text same
  cases same
  exact identifier.solid.free (by decide)

private theorem legible_addressLines {name : String} {distance : Nat} (identifier : Identifier name)
    (small : distance < 0x8000000000000000) : Legible (addressLines name distance) := by
  have fits : Representable distance := by
    constructor
    · omega
    · omega
  simp [Legible, addressLines, LegibleLine, LegibleInstruction, LegibleOperand, registers, fits,
    legible_comment identifier]

private theorem legible_literalLines (value : Int64) : Legible (literalLines value) := by
  have fits : Representable value.toInt := ⟨value.le_toInt, value.toInt_lt⟩
  unfold literalLines
  split
  · simp [Legible, LegibleLine, LegibleInstruction, LegibleOperand, fits]
  · simp [Legible, LegibleLine, LegibleInstruction, LegibleOperand, registers, fits]

private theorem legible_fetchLines : Legible fetchLines := by
  simp [Legible, fetchLines, LegibleLine, LegibleInstruction, LegibleOperand, registers, Representable]

private theorem legible_storeLines : Legible storeLines := by
  simp [Legible, storeLines, LegibleLine, LegibleInstruction, LegibleOperand, registers, Representable]

private theorem legible_combineLines (operator : Operator) : Legible (combineLines operator) := by
  cases operator <;>
    simp [Legible, combineLines, operationLines, comparisonLines, LegibleLine, LegibleInstruction,
      LegibleOperand, registers]

private theorem legible_popLines (count : Nat) : Legible (popLines count) := by
  intro line member
  obtain ⟨register, taken, rfl⟩ := List.mem_map.mp member
  have known : register ∈ argumentRegisters := List.mem_of_mem_take (List.mem_reverse.mp taken)
  have subset : argumentRegisters ⊆ registers := by decide
  simp [LegibleLine, LegibleInstruction, LegibleOperand, subset known]

private theorem legible_callLines {callee : String} (depth : Nat) (identifier : Identifier callee) :
    Legible (callLines depth callee) := by
  unfold callLines
  split
  · simp [Legible, LegibleLine, LegibleInstruction, identifier.legible]
  · simp [Legible, LegibleLine, LegibleInstruction, LegibleOperand, registers, Representable, identifier.legible]

private theorem legible_testLines (number : Nat) : Legible (testLines number) := by
  simp [Legible, testLines, LegibleLine, LegibleInstruction, LegibleOperand, registers, Representable,
    legible_elseLabel]

private theorem legible_skipLines (number : Nat) : Legible (skipLines number) := by
  simp [Legible, skipLines, LegibleLine, LegibleInstruction, legible_endLabel, (legible_elseLabel number).1]

private theorem legible_zero : Legible [.code (.push (.immediate 0)) none] := by
  simp [Legible, LegibleLine, LegibleInstruction, LegibleOperand, Representable]

private theorem legible_pop : Legible [.code (.pop Register.rax) none] := by
  simp [Legible, LegibleLine, LegibleInstruction, LegibleOperand, registers]

theorem legible_clear : Legible [.code (.mov Register.rax (.immediate 0)) none] := by
  simp [Legible, LegibleLine, LegibleInstruction, LegibleOperand, registers, Representable]

private theorem legible_push : Legible [.code (.push Register.rax) none] := by
  simp [Legible, LegibleLine, LegibleInstruction, LegibleOperand, registers]

private theorem legible_leave {function : String} (identifier : Identifier function) :
    Legible [.code (.jmp (returnLabel function)) none] := by
  simp [Legible, LegibleLine, LegibleInstruction, legible_returnLabel identifier]

private theorem legible_end (number : Nat) : Legible [.label (endLabel number)] := by
  simp [Legible, LegibleLine, (legible_endLabel number).1]

/-- A slot that lies in the frame is no further from its base than the frame is large. -/
theorem distance_claim_le (start : Allocation) (name : String) :
    (start.claim name).distance name ≤ 8 * (start.claim name).slots.length := by
  have inside := List.idxOf_lt_length_of_mem (start.mem_slots_claim name)
  rw [Allocation.distance]
  omega

section
variable {permitted : String → Nat → Prop} {function : String} {piece : Piece} {start final : Allocation}
  {lines : Listing}

private theorem legible_of_emits (identifier : Identifier function)
    (emitted : Emits permitted function piece start lines final)
    (small : 8 * final.slots.length < 0x8000000000000000) : Legible lines := by
  induction emitted with
  | literal => exact legible_literalLines _
  | @var name start identifier =>
    have near := distance_claim_le start name
    simp only [pushed] at small
    exact legible_append.mpr ⟨legible_addressLines identifier (by omega), legible_fetchLines⟩
  | @assign target value start final lines identifier inner ih =>
    have near := distance_claim_le start target
    have grown := inner.grows.slots.length_le
    simp only [pushed, popped] at grown small
    exact legible_append.mpr ⟨legible_addressLines identifier (by omega),
      legible_append.mpr ⟨ih small, legible_storeLines⟩⟩
  | apply first second one two =>
    have grown := second.grows.slots.length_le
    simp only [popped] at small
    exact legible_append.mpr ⟨one (by omega), legible_append.mpr ⟨two small, legible_combineLines _⟩⟩
  | call identifier _ _ _ ih =>
    simp only [legible_append]
    exact ⟨ih small, legible_popLines _, legible_clear, legible_callLines _ identifier, legible_push⟩
  | branch first second third one two three =>
    have chosen := third.grows.slots.length_le
    have tested := second.grows.slots.length_le
    simp only [popped] at tested
    simp only [legible_append]
    exact ⟨one (by omega), legible_testLines _, two (by omega), legible_skipLines _, three small, legible_end _⟩
  | leave => exact legible_append.mpr ⟨legible_clear, legible_leave identifier⟩
  | leaveWith _ ih =>
    exact legible_append.mpr ⟨ih small, legible_append.mpr ⟨legible_pop, legible_leave identifier⟩⟩
  | function | finish | noArgument =>
    intro line member
    cases member
  | expression _ _ ih => exact legible_append.mpr ⟨ih small, legible_pop⟩
  | statement _ _ _ ih => exact legible_append.mpr ⟨ih small, legible_zero⟩
  | block _ ih | last _ _ ih => exact ih small
  | zero => exact legible_zero
  | next _ _ second one two | argument _ second one two =>
    have grown := second.grows.slots.length_le
    exact legible_append.mpr ⟨one (by omega), two small⟩

end

def parameterLines (start : Allocation) : List (String × Register) → Listing
  | [] => []
  | (name, register) :: rest =>
    .code (.mov (.memory Register.rbp ((start.claim name).distance name)) register) (some name) ::
      parameterLines (start.claim name) rest

def claimAll (start : Allocation) : List (String × Register) → Allocation
  | [] => start
  | (name, _) :: rest => claimAll (start.claim name) rest

private theorem storeParameters_eq (stored : List (String × Register)) (start : Allocation) :
    storeParameters stored start = .ok (parameterLines start stored, claimAll start stored) := by
  induction stored generalizing start with
  | nil => rfl
  | cons pair rest ih =>
    obtain ⟨name, register⟩ := pair
    exact Emission.append_eq_ok_iff.mpr ⟨_, _, _, rfl, ih (start.claim name), rfl⟩

theorem slots_claimAll (start : Allocation) (stored : List (String × Register)) :
    start.slots <+: (claimAll start stored).slots := by
  induction stored generalizing start with
  | nil => exact List.prefix_refl _
  | cons pair rest ih => exact (slots_claim start pair.1).trans (ih (start.claim pair.1))

@[simp] theorem labels_claimAll (start : Allocation) (stored : List (String × Register)) :
    (claimAll start stored).labels = start.labels := by
  induction stored generalizing start with
  | nil => rfl
  | cons pair rest ih => exact (ih (start.claim pair.1)).trans (labels_claim start pair.1)

@[simp] theorem depth_claimAll (start : Allocation) (stored : List (String × Register)) :
    (claimAll start stored).depth = start.depth := by
  induction stored generalizing start with
  | nil => rfl
  | cons pair rest ih => exact (ih (start.claim pair.1)).trans (depth_claim start pair.1)

def bodyStart (function : Definition) (start : Allocation) : Allocation :=
  claimAll { start with depth := 0 } (function.parameters.zip argumentRegisters)

def functionLines (function : Definition) (start : Allocation) (size : Nat) (body : Listing) : Listing :=
  prologue function.name size ++ ([.code (.mov Register.rax (.immediate 0)) none] ++
    (parameterLines { start with depth := 0 } (function.parameters.zip argumentRegisters) ++
      (body ++ epilogue function.name)))

/-- The code of a function: a frame that holds every slot up to its end, and its body in it. -/
structure FunctionCode (permitted : String → Nat → Prop) (function : Definition) (start final : Allocation)
    (body : Listing) : Prop where
  few : function.parameters.length ≤ 6
  emitted : Emits permitted function.name (.block .statement function.body) (bodyStart function start) body final

private theorem lowerFunction_code {permitted : String → Nat → Prop} {function : Definition}
    {start final : Allocation} {lines : Listing} (regular : RegularDefinition permitted function)
    (lowered : lowerFunction function start = .ok (lines, final)) :
    ∃ body, FunctionCode permitted function start final body ∧
      lines = functionLines function start final.frameSize body := by
  unfold lowerFunction at lowered
  split at lowered
  · cases lowered
  · next few =>
    cases ran : functionBody function { start with depth := 0 } with
    | error defect =>
      rw [ran] at lowered
      cases lowered
    | ok result =>
      obtain ⟨inner, last⟩ := result
      rw [ran] at lowered
      simp only [functionBody, Emission.append_eq_ok_iff] at ran
      obtain ⟨_, _, body, ⟨_, _, _, cleared, stored, rfl⟩, emitted, rfl⟩ := ran
      cases cleared
      rw [storeParameters_eq] at stored
      cases stored
      have code := lowerBlock_emits regular.2.2 emitted
      have balanced : last.depth = 0 := by
        rw [code.grows.depth]
        simp [pushes, room]
      simp only [bind, Except.bind, balanced, if_true] at lowered
      cases lowered
      exact ⟨body, ⟨Nat.not_lt.mp few, code⟩, by simp [functionLines]⟩

/-- The code of functions in a row, each with the slots and labels of those before it. -/
inductive Functions (permitted : String → Nat → Prop) : List Definition → Allocation → Listing → Allocation → Prop where
  | nil {start : Allocation} : Functions permitted [] start [] start
  | cons {function : Definition} {rest : List Definition} {start between final : Allocation}
      {body back : Listing} (head : FunctionCode permitted function start between body)
      (tail : Functions permitted rest between back final) :
      Functions permitted (function :: rest) start
        (functionLines function start between.frameSize body ++ back) final

theorem lowerFunctions_code {permitted : String → Nat → Prop} {functions : List Definition}
    {start final : Allocation} {lines : Listing}
    (regular : ∀ function ∈ functions, RegularDefinition permitted function)
    (lowered : lowerFunctions functions start = .ok (lines, final)) :
    Functions permitted functions start lines final := by
  induction functions generalizing start lines with
  | nil =>
    cases lowered
    exact .nil
  | cons function rest ih =>
    obtain ⟨_, _, _, first, second, rfl⟩ := Emission.append_eq_ok_iff.mp lowered
    obtain ⟨body, code, rfl⟩ := lowerFunction_code (regular function (by simp)) first
    exact .cons code (ih (fun other member => regular other (by simp [member])) second)

private theorem unlabelled_parameterLines (start : Allocation) (stored : List (String × Register)) :
    labelNames (parameterLines start stored) = [] := by
  induction stored generalizing start with
  | nil => rfl
  | cons pair rest ih => exact ih (start.claim pair.1)

private theorem labelNames_prologue (name : String) (size : Nat) : labelNames (prologue name size) = [name] := by
  unfold prologue
  split
  · rfl
  · rfl

theorem labelNames_functionLines (function : Definition) (start : Allocation) (size : Nat) (body : Listing) :
    labelNames (functionLines function start size body) =
      function.name :: (labelNames body ++ [returnLabel function.name]) := by
  simp only [functionLines, labelNames_append, labelNames_prologue, unlabelled_parameterLines]
  rfl

def Owned (functions : List Definition) (name : String) : Prop :=
  ∃ function ∈ functions, name = function.name ∨ name = returnLabel function.name

section
variable {permitted : String → Nat → Prop}

private theorem FunctionCode.labels {function : Definition} {start final : Allocation} {body : Listing}
    (code : FunctionCode permitted function start final body) : start.labels ≤ final.labels := by
  have grown := code.emitted.grows.labels
  rwa [bodyStart, labels_claimAll] at grown

theorem FunctionCode.fresh {function : Definition} {start final : Allocation} {body : Listing}
    (code : FunctionCode permitted function start final body) : Fresh start.labels final.labels body := by
  have fresh := fresh_of_emits code.emitted
  rwa [bodyStart, labels_claimAll] at fresh

/-- A name and a return label are no label of another function, and no numbered one. -/
theorem not_owned {function : Definition} {others : List Definition} {low high : Nat} {name label : String}
    (identifier : Identifier function.name) (identifiers : ∀ other ∈ others, Identifier other.name)
    (unique : ∀ other ∈ others, function.name ≠ other.name)
    (form : label = function.name ∨ label = returnLabel function.name)
    (owned : Numbered low high name ∨ Owned others name) : label ≠ name := by
  have undotted {function : Definition} (identifier : Identifier function.name) {label : String}
      (dotted : label.toList.head? = some '.') : function.name ≠ label := by
    intro same
    exact identifier.head_ne (by decide) (same ▸ dotted)
  intro same
  subst same
  rcases owned with numbered | ⟨other, member, owned⟩
  · rcases form with same | same
    · exact undotted identifier (head_numbered numbered) same.symm
    · exact numbered.ne_returnLabel same
  · rcases form with rfl | rfl
    · rcases owned with same | same
      · exact unique other member same
      · exact undotted identifier (head_returnLabel _) same
    · rcases owned with same | same
      · exact undotted (identifiers other member) (head_returnLabel _) same.symm
      · exact unique other member (returnLabel_injective same)

theorem functions_labels {functions : List Definition} {start final : Allocation} {lines : Listing}
    (code : Functions permitted functions start lines final)
    (identifiers : ∀ function ∈ functions, Identifier function.name)
    (distinct : (functions.map (·.name)).Nodup) :
    start.labels ≤ final.labels ∧
      (∀ name ∈ labelNames lines, Numbered start.labels final.labels name ∨ Owned functions name) ∧
      (labelNames lines).Nodup := by
  induction code with
  | nil => exact ⟨Nat.le_refl _, by simp [labelNames], List.nodup_nil⟩
  | @cons function rest start between final body back head tail ih =>
    obtain ⟨fresh, others⟩ := List.nodup_cons.mp distinct
    have named : ∀ other ∈ rest, Identifier other.name := fun other member =>
      identifiers other (List.mem_cons_of_mem _ member)
    have identifier : Identifier function.name := identifiers function (List.mem_cons_self ..)
    have unique : ∀ other ∈ rest, function.name ≠ other.name := by
      intro other member same
      exact fresh (List.mem_map.mpr ⟨other, member, same.symm⟩)
    obtain ⟨grown, known, nodup⟩ := ih named others
    obtain ⟨inside, apart⟩ := head.fresh
    have first := head.labels
    rw [labelNames_append, labelNames_functionLines]
    refine ⟨Nat.le_trans first grown, ?_, ?_⟩
    · intro name member
      rcases List.mem_append.mp member with member | member
      · rcases List.mem_cons.mp member with rfl | member
        · exact .inr ⟨function, List.mem_cons_self .., .inl rfl⟩
        · rcases List.mem_append.mp member with member | member
          · exact .inl ((inside name member).mono (Nat.le_refl _) grown)
          · exact .inr ⟨function, List.mem_cons_self .., .inr (List.mem_singleton.mp member)⟩
      · rcases known name member with numbered | ⟨other, there, owned⟩
        · exact .inl (numbered.mono first (Nat.le_refl _))
        · exact .inr ⟨other, List.mem_cons_of_mem _ there, owned⟩
    · have own (label : String) (form : label = function.name ∨ label = returnLabel function.name)
          (name : String) (member : name ∈ labelNames body ∨ name ∈ labelNames back) : label ≠ name := by
        refine @not_owned function rest start.labels final.labels name label identifier named unique form ?_
        rcases member with member | member
        · exact .inl ((inside name member).mono (Nat.le_refl _) grown)
        · rcases known name member with numbered | owned
          · exact .inl (numbered.mono first (Nat.le_refl _))
          · exact .inr owned
      have returned : function.name ≠ returnLabel function.name := by
        intro same
        have dotted := congrArg (·.toList.head?) same
        exact identifier.head_ne (show Lexeme.startsWord '.' = false by decide)
          (dotted.trans (head_returnLabel function.name))
      have crossed (name : String) (here : name ∈ labelNames body) (there : name ∈ labelNames back) : False := by
        rcases known name there with numbered | owned
        · exact (inside name here).disjoint numbered
        · obtain ⟨other, member, owned⟩ := owned
          have dotted := head_numbered (inside name here)
          rcases owned with rfl | rfl
          · exact (named other member).head_ne (by decide) dotted
          · exact (inside _ here).ne_returnLabel rfl
      simp only [List.nodup_append, List.cons_append, List.nodup_cons, List.mem_append, List.mem_singleton]
      refine ⟨?_, ⟨apart, by simp, ?_⟩, nodup, ?_⟩
      · rintro ((member | same) | member)
        · exact own _ (.inl rfl) _ (.inl member) rfl
        · exact returned same
        · exact own _ (.inl rfl) _ (.inr member) rfl
      · intro name here other same
        rintro rfl
        exact own _ (.inr rfl) _ (.inl here) same.symm
      · intro name here other there same
        subst same
        rcases here with here | same
        · exact crossed name here there
        · exact own _ (.inr rfl) _ (.inr there) same.symm

theorem slots_le_frameSize (allocation : Allocation) : 8 * allocation.slots.length ≤ allocation.frameSize := by
  rw [Allocation.frameSize]
  omega

private theorem legible_parameterLines {start : Allocation} {stored : List (String × Register)}
    (known : ∀ pair ∈ stored, Identifier pair.1 ∧ pair.2 ∈ argumentRegisters)
    (small : 8 * (claimAll start stored).slots.length < 0x8000000000000000) :
    Legible (parameterLines start stored) := by
  induction stored generalizing start with
  | nil =>
    intro line member
    cases member
  | cons pair rest ih =>
    obtain ⟨name, register⟩ := pair
    obtain ⟨identifier, argument⟩ := known (name, register) (by simp)
    have near := distance_claim_le start name
    have grown := (slots_claimAll (start.claim name) rest).length_le
    have fits : Representable ((start.claim name).distance name : Nat) := by
      simp only [claimAll] at small
      constructor
      · omega
      · omega
    have subset : argumentRegisters ⊆ registers := by decide
    intro line member
    rcases List.mem_cons.mp member with rfl | member
    · refine ⟨⟨⟨by decide, by omega, fits⟩, subset argument⟩, legible_comment identifier⟩
    · exact ih (fun pair inside => known pair (by simp [inside])) small line member

private theorem legible_prologue {name : String} {size : Nat} (identifier : Identifier name)
    (small : size < 0x8000000000000000) : Legible (prologue name size) := by
  have fits : Representable size := by
    constructor
    · omega
    · omega
  unfold prologue
  split
  · simp [Legible, LegibleLine, LegibleInstruction, LegibleOperand, registers, identifier.solid]
  · simp [Legible, LegibleLine, LegibleInstruction, LegibleOperand, registers, identifier.solid, fits]

private theorem legible_epilogue {name : String} (identifier : Identifier name) : Legible (epilogue name) := by
  simp [Legible, epilogue, LegibleLine, LegibleInstruction, LegibleOperand, registers,
    (legible_returnLabel identifier).1]

private theorem legible_functionLines {function : Definition} {start final : Allocation} {body : Listing}
    (regular : RegularDefinition permitted function) (code : FunctionCode permitted function start final body)
    (small : final.frameSize < 0x8000000000000000) :
    Legible (functionLines function start final.frameSize body) := by
  have covered := slots_le_frameSize final
  have grown := code.emitted.grows.slots.length_le
  rw [bodyStart] at grown
  simp only [functionLines, legible_append]
  refine ⟨legible_prologue regular.1 small, legible_clear, legible_parameterLines ?_ (by omega),
    legible_of_emits regular.1 code.emitted (by omega), legible_epilogue regular.1⟩
  intro pair member
  obtain ⟨parameter, register⟩ := List.of_mem_zip member
  exact ⟨regular.2.1 _ parameter, register⟩

theorem frameSize_of_worded {function : Definition} {start final : Allocation} {body : Listing}
    (sizes : Worded (functionLines function start final.frameSize body)) :
    final.frameSize < 0x8000000000000000 := by
  by_cases none : final.frameSize = 0
  · omega
  · have reserved : .arithmetic .sub Register.rsp (.immediate final.frameSize) ∈
        instructions (functionLines function start final.frameSize body) := by
      simp [functionLines, prologue, none, instructions, instruction?]
    have bounded := sizes _ reserved
    simp only [descent, if_true] at bounded
    omega

structure Installed (permitted : String → Nat → Prop) (program : Program) (function : Definition)
    (start final : Allocation) (body : Listing) (address : Nat) : Prop where
  code : FunctionCode permitted function start final body
  placed : Placed program address (functionLines function start final.frameSize body)
  small : final.frameSize < 0x8000000000000000

theorem Installed.labelled {program : Program} {function : Definition} {start final : Allocation} {body : Listing}
    {address : Nat} (installed : Installed permitted program function start final body address) :
    program.labels.get? function.name = some address :=
  (placed_append.mp (placed_append.mp installed.placed).1).1.1

private theorem functions_installed {functions : List Definition} {start final : Allocation} {lines : Listing}
    (code : Functions permitted functions start lines final) {program : Program} {address : Nat}
    (sizes : Worded lines) (placed : Placed program address lines) {function : Definition}
    (member : function ∈ functions) :
    ∃ start final body address, Installed permitted program function start final body address := by
  induction code generalizing address with
  | nil => cases member
  | cons head tail ih =>
    obtain ⟨here, there⟩ := placed_append.mp placed
    obtain ⟨first, second⟩ := worded_append.mp sizes
    rcases List.mem_cons.mp member with rfl | member
    · exact ⟨_, _, _, _, head, here, frameSize_of_worded first⟩
    · exact ih second there member

private theorem functions_legible {functions : List Definition} {start final : Allocation} {lines : Listing}
    (code : Functions permitted functions start lines final)
    (regular : ∀ function ∈ functions, RegularDefinition permitted function) (sizes : Worded lines) :
    Legible lines := by
  induction code with
  | nil =>
    intro line member
    cases member
  | cons head tail ih =>
    obtain ⟨first, second⟩ := worded_append.mp sizes
    refine legible_append.mpr ⟨?_, ?_⟩
    · exact legible_functionLines (regular _ (List.mem_cons_self ..)) head (frameSize_of_worded first)
    · exact ih (fun function member => regular function (List.mem_cons_of_mem _ member)) second

end

private theorem names_of_redefinition? {earlier : List String} {functions : List Definition}
    (none : redefinition? earlier functions = .none) :
    (functions.map (·.name)).Nodup ∧ ∀ function ∈ functions, function.name ∉ earlier := by
  induction functions generalizing earlier with
  | nil => exact ⟨List.nodup_nil, by simp⟩
  | cons function rest ih =>
    unfold redefinition? at none
    by_cases taken : function.name ∈ earlier
    · rw [if_pos taken] at none
      cases none
    · rw [if_neg taken] at none
      obtain ⟨distinct, apart⟩ := ih none
      refine ⟨List.nodup_cons.mpr ⟨?_, distinct⟩, ?_⟩
      · intro repeated
        obtain ⟨other, member, same⟩ := List.mem_map.mp repeated
        exact apart other member (by simp [same])
      · intro other member
        rcases List.mem_cons.mp member with rfl | member
        · exact taken
        · exact fun known => apart other member (List.mem_cons_of_mem _ known)

/-- A function is found by its name if no other one has it. -/
theorem find?_name {functions : List Definition} (distinct : (functions.map (·.name)).Nodup)
    {function : Definition} (member : function ∈ functions) :
    functions.find? (·.name = function.name) = some function := by
  obtain ⟨front, back, rfl⟩ := List.append_of_mem member
  rw [List.map_append, List.nodup_append] at distinct
  have before : front.find? (·.name = function.name) = none := by
    rw [List.find?_eq_none]
    intro other inside
    have different := distinct.2.2 other.name (List.mem_map_of_mem inside) function.name (by simp)
    simpa using different
  rw [List.find?_append, before, List.find?_cons_of_pos (by simp)]
  rfl

structure Symbols (program : List Term) : Prop where
  distinct : ((functions program).map (·.name)).Nodup
  arity : ∀ callee count, (callee, count) ∈ calls program → ∀ function ∈ functions program,
    function.name = callee → function.parameters.length ≤ count

private theorem symbols_of_symbolFault? {program : List Term}
    (none : symbolFault? (definitions program) (calls program) = .none) : Symbols program := by
  unfold symbolFault? at none
  cases repeated : redefinition? [entry] (definitions program) with
  | some name =>
    rw [repeated] at none
    cases none
  | none =>
    rw [repeated] at none
    cases reserved : reservedName? (definitions program) (calls program) with
    | some name =>
      rw [reserved] at none
      cases none
    | none =>
      rw [reserved] at none
      obtain ⟨distinct, apart⟩ := names_of_redefinition? repeated
      refine ⟨List.nodup_cons.mpr ⟨?_, distinct⟩, ?_⟩
      · intro repeated
        obtain ⟨other, member, same⟩ := List.mem_map.mp repeated
        exact apart other member (by simp [same])
      · intro callee count called function member named
        rcases List.mem_cons.mp member with rfl | member
        · exact Nat.zero_le _
        · have checked := List.findSome?_eq_none_iff.mp none (callee, count) called
          subst named
          simp only [find?_name distinct member] at checked
          by_cases same : function.parameters.length = count
          · exact Nat.le_of_eq same
          · rw [if_neg same] at checked
            cases checked

/-- The listing of a source loads, every function of the source stands in the loaded program, and
a name that belongs to no function is no label of it. -/
structure Image (program : List Term) (listing : Listing) (machine : Program) : Prop where
  loaded : Program.load (Listing.text listing) = .ok machine
  assembled : Program.empty.addAll (listing.filterMap entry?) = .ok machine
  placed : Placed machine 0 listing
  size : machine.code.size = span listing
  installed : ∀ function ∈ functions program, ∃ start final body address,
    Installed (fun callee count => (callee, count) ∈ calls program) machine function start final body address
  missing : ∀ callee, Identifier callee → (∀ function ∈ functions program, function.name ≠ callee) →
    machine.labels.get? callee = none

/-- The entry of the program is where its first function stands. -/
theorem Image.entered {program : List Term} {listing : Listing} {machine : Program}
    (image : Image program listing machine) {address : Nat} (target : machine.target entry = .ok address) :
    ∃ start final body, Installed (fun callee count => (callee, count) ∈ calls program) machine
      ⟨entry, [], program⟩ start final body address := by
  obtain ⟨start, final, body, place, installed⟩ := image.installed ⟨entry, [], program⟩ (List.mem_cons_self ..)
  have labelled : machine.labels.get? entry = some place := installed.labelled
  rw [Program.target, labelled] at target
  cases target
  exact ⟨start, final, body, installed⟩

theorem Image.target_entry {program : List Term} {listing : Listing} {machine : Program}
    (image : Image program listing machine) : ∃ address, machine.target entry = .ok address := by
  obtain ⟨start, final, body, place, installed⟩ := image.installed ⟨entry, [], program⟩ (List.mem_cons_self ..)
  have labelled : machine.labels.get? entry = some place := installed.labelled
  exact ⟨place, by rw [Program.target, labelled]⟩

theorem Image.mem_of_found {program : List Term} {listing : Listing} {machine : Program}
    (image : Image program listing machine) {address : Nat} {instruction : Instruction}
    (found : machine.code[address]? = some (.ok instruction)) : instruction ∈ instructions listing := by
  have inside := (Array.getElem?_eq_some_iff.mp found).1
  rw [image.size] at inside
  obtain ⟨other, member, same⟩ := image.placed.found inside
  rw [Nat.zero_add, found] at same
  cases same
  exact member

theorem Image.succ_lt {program : List Term} {listing : Listing} {machine : Program}
    (image : Image program listing machine) (sized : span listing < 0x8000000000000000) {address : Nat}
    {instruction : Instruction} (found : machine.code[address]? = some (.ok instruction)) :
    address + 1 < 0x8000000000000000 := by
  have inside := (Array.getElem?_eq_some_iff.mp found).1
  rw [image.size] at inside
  omega

/-- A lowered program has no fault in its symbols, and its listing is that of its functions. -/
theorem functions_of_lower {program : List Term} {listing : Listing} (lowered : lower program = .ok listing) :
    symbolFault? (definitions program) (calls program) = .none ∧ ∃ lines final,
      lowerFunctions (functions program) Allocation.empty = .ok (lines, final) ∧ listing = header ++ lines := by
  unfold lower at lowered
  cases faulty : symbolFault? (definitions program) (calls program) with
  | some fault =>
    rw [faulty] at lowered
    cases lowered
  | none =>
    rw [faulty] at lowered
    cases ran : lowerFunctions (⟨entry, [], program⟩ :: definitions program) Allocation.empty with
    | error defect =>
      simp only [ran] at lowered
      cases lowered
    | ok result =>
      simp only [ran] at lowered
      cases lowered
      exact ⟨rfl, result.1, result.2, ran, rfl⟩

/-- The listing of a source is that of the functions of its program. -/
theorem compile_functions {source : String} {listing : Listing} (compiled : compile source = .ok listing) :
    ∃ program lines final, readSource source = .ok program ∧ Symbols program ∧
      (∀ function ∈ functions program,
        RegularDefinition (fun callee count => (callee, count) ∈ calls program) function) ∧
      Functions (fun callee count => (callee, count) ∈ calls program) (functions program) Allocation.empty lines
        final ∧
      listing = header ++ lines := by
  obtain ⟨program, accepted, lowered⟩ := GrammarSoundness.bind_eq_ok.mp compiled
  have regular : ∀ function ∈ functions program, RegularDefinition _ function := fun function member =>
    regular_functions accepted member
  obtain ⟨faultless, lines, final, ran, rfl⟩ := functions_of_lower lowered
  exact ⟨program, lines, final, accepted, symbols_of_symbolFault? faultless, regular,
    lowerFunctions_code regular ran, rfl⟩

theorem compile_image {source : String} {listing : Listing} (compiled : compile source = .ok listing)
    (sizes : Worded listing) :
    ∃ program machine, readSource source = .ok program ∧ Symbols program ∧ Image program listing machine := by
  obtain ⟨program, lines, final, accepted, symbols, regular, code, rfl⟩ := compile_functions compiled
  have worded := (worded_append.mp sizes).2
  have identifiers : ∀ function ∈ functions program, Identifier function.name :=
    fun function member => (regular function member).1
  obtain ⟨-, known, nodup⟩ := functions_labels code identifiers symbols.distinct
  have legible : Legible (header ++ lines) := by
    refine legible_append.mpr ⟨?_, functions_legible code regular worded⟩
    intro line member
    simp only [header, List.mem_cons, List.not_mem_nil, or_false] at member
    rcases member with rfl | rfl
    · simp [LegibleLine]
    · simp [LegibleLine, entry]
  have unlabelled : labelNames (header ++ lines) = labelNames lines := rfl
  obtain ⟨machine, loaded, assembled, placed, size, labels⟩ := load_listing legible (unlabelled ▸ nodup)
  refine ⟨program, machine, accepted, symbols, loaded, assembled, placed, size, fun function member => ?_, ?_⟩
  · exact functions_installed code worded placed member
  · intro callee identifier other
    by_contra found
    rcases known callee (labels callee found) with numbered | ⟨function, member, owned⟩
    · exact identifier.head_ne (by decide) (head_numbered numbered)
    · rcases owned with rfl | rfl
      · exact other function member rfl
      · exact identifier.head_ne (by decide) (head_returnLabel _)

end Stackwise.Proofs.EmittedListing
