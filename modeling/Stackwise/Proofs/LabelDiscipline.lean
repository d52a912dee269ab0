import Stackwise.Proofs.LoweringVerdicts
import Stackwise.Proofs.Sections

/-! The labels of a listing. Jumps stay in the function that they belong to, because the code of a
term defines every label that it jumps to but the one that returns lead to. The functions of the
listing are the entry and the definitions of the program, in the order in which they stand there. -/

namespace Stackwise.Proofs.LabelDiscipline
open Assembly Lowering SourceTerms EmittedCode Loading EmittedListing LoweringVerdicts Sections

def jump? : Instruction → Option String
  | .je label | .jmp label => some label
  | _ => none

def callee? : Instruction → Option String
  | .call label => some label
  | _ => none

def jumps (lines : Listing) : List String := (instructions lines).filterMap jump?

def callees (lines : Listing) : List String := (instructions lines).filterMap callee?

@[simp] theorem jumps_append (front back : Listing) : jumps (front ++ back) = jumps front ++ jumps back := by
  simp [jumps, instructions]

@[simp] theorem callees_append (front back : Listing) :
    callees (front ++ back) = callees front ++ callees back := by
  simp [callees, instructions]

/-- The lines jump to labels of their own or leave the function, and call what is permitted. -/
structure Directed (permitted : String → Nat → Prop) (function : String) (lines : Listing) : Prop where
  jumps : ∀ target ∈ jumps lines, target ∈ labelNames lines ∨ target = returnLabel function
  calls : ∀ callee ∈ callees lines, Identifier callee ∧ ∃ count, permitted callee count

section
variable {permitted : String → Nat → Prop} {function : String} {front back lines : Listing}

theorem Directed.append (first : Directed permitted function front) (second : Directed permitted function back) :
    Directed permitted function (front ++ back) := by
  constructor
  · intro target member
    rw [labelNames_append, List.mem_append]
    rw [jumps_append] at member
    rcases List.mem_append.mp member with member | member
    · exact (first.jumps target member).imp_left .inl
    · exact (second.jumps target member).imp_left .inr
  · intro callee member
    rw [callees_append] at member
    rcases List.mem_append.mp member with member | member
    · exact first.calls callee member
    · exact second.calls callee member

theorem directed_of_straight (unjumped : jumps lines = []) (uncalled : callees lines = []) :
    Directed permitted function lines :=
  ⟨by simp [unjumped], by simp [uncalled]⟩

private theorem directed_literalLines (value : Int64) : Directed permitted function (literalLines value) := by
  unfold literalLines
  split
  · exact directed_of_straight rfl rfl
  · exact directed_of_straight rfl rfl

private theorem directed_combineLines (operator : Operator) : Directed permitted function (combineLines operator) := by
  cases operator <;> exact directed_of_straight rfl rfl

private theorem directed_popLines (count : Nat) : Directed permitted function (popLines count) := by
  have popped : ∀ instruction ∈ instructions (popLines count),
      ∃ register : Register, instruction = .pop register := by
    intro instruction member
    obtain ⟨line, listed, found⟩ := List.mem_filterMap.mp member
    obtain ⟨register, -, rfl⟩ := List.mem_map.mp listed
    cases found
    exact ⟨register, rfl⟩
  apply directed_of_straight
  · refine List.filterMap_eq_nil_iff.mpr fun instruction member => ?_
    obtain ⟨register, rfl⟩ := popped instruction member
    rfl
  · refine List.filterMap_eq_nil_iff.mpr fun instruction member => ?_
    obtain ⟨register, rfl⟩ := popped instruction member
    rfl

private theorem directed_callLines {callee : String} {count : Nat} (depth : Nat) (identifier : Identifier callee)
    (allowed : permitted callee count) : Directed permitted function (callLines depth callee) := by
  have only : jumps (callLines depth callee) = [] ∧ callees (callLines depth callee) = [callee] := by
    unfold callLines
    split
    · exact ⟨rfl, rfl⟩
    · exact ⟨rfl, rfl⟩
  refine ⟨by simp [only.1], fun other member => ?_⟩
  rw [only.2] at member
  rw [List.mem_singleton.mp member]
  exact ⟨identifier, count, allowed⟩

/-- A conditional defines the labels that it jumps to. -/
theorem directed_branch {condition consequence replacement : Listing} (number : Nat)
    (first : Directed permitted function condition) (second : Directed permitted function consequence)
    (third : Directed permitted function replacement) :
    Directed permitted function (condition ++ (testLines number ++ (consequence ++ (skipLines number ++
      (replacement ++ [.label (endLabel number)]))))) := by
  have targets : jumps (testLines number) = [elseLabel number] ∧ jumps (skipLines number) = [endLabel number] ∧
      jumps [.label (endLabel number)] = [] := ⟨rfl, rfl, rfl⟩
  have labels : labelNames (testLines number) = [] ∧ labelNames (skipLines number) = [elseLabel number] ∧
      labelNames [.label (endLabel number)] = [endLabel number] := ⟨rfl, rfl, rfl⟩
  have uncalled : callees (testLines number) = [] ∧ callees (skipLines number) = [] ∧
      callees [.label (endLabel number)] = [] := ⟨rfl, rfl, rfl⟩
  constructor
  · intro target member
    simp only [jumps_append, targets, List.mem_append, List.mem_singleton, List.not_mem_nil, or_false] at member
    simp only [labelNames_append, labels, List.mem_append, List.mem_singleton, List.not_mem_nil, false_or]
    rcases member with member | rfl | member | rfl | member
    · exact (first.jumps target member).imp_left .inl
    · exact .inl (.inr (.inr (.inl rfl)))
    · exact (second.jumps target member).imp_left fun own => .inr (.inl own)
    · exact .inl (.inr (.inr (.inr (.inr rfl))))
    · exact (third.jumps target member).imp_left fun own => .inr (.inr (.inr (.inl own)))
  · intro callee member
    simp only [callees_append, uncalled, List.mem_append, List.not_mem_nil, false_or, or_false] at member
    rcases member with member | member | member
    · exact first.calls callee member
    · exact second.calls callee member
    · exact third.calls callee member

variable {piece : Piece} {start final : Allocation}

private theorem directed_of_emits (emitted : Emits permitted function piece start lines final) :
    Directed permitted function lines := by
  induction emitted with
  | literal => exact directed_literalLines _
  | var | function | finish | zero | noArgument => exact directed_of_straight rfl rfl
  | assign _ _ ih => exact (directed_of_straight rfl rfl).append (ih.append (directed_of_straight rfl rfl))
  | apply _ _ one two => exact one.append (two.append (directed_combineLines _))
  | call identifier allowed _ _ ih =>
    refine ih.append ((directed_popLines _).append ((directed_of_straight rfl rfl).append ?_))
    exact (directed_callLines _ identifier allowed).append (directed_of_straight rfl rfl)
  | branch _ _ _ one two three => exact directed_branch _ one two three
  | leave => exact ⟨fun target member => .inr (List.mem_singleton.mp member), nofun⟩
  | leaveWith _ ih => exact ih.append ⟨fun target member => .inr (List.mem_singleton.mp member), nofun⟩
  | expression _ _ ih | statement _ _ _ ih => exact ih.append (directed_of_straight rfl rfl)
  | block _ ih | last _ _ ih => exact ih
  | next _ _ _ one two | argument _ _ one two => exact one.append two

private theorem directed_parameterLines (start : Allocation) (stored : List (String × Register)) :
    Directed permitted function (parameterLines start stored) := by
  induction stored generalizing start with
  | nil => exact directed_of_straight rfl rfl
  | cons pair rest ih => exact (directed_of_straight rfl rfl : Directed _ _ [_]).append (ih (start.claim pair.1))

private theorem directed_frameLines (size : Nat) : Directed permitted function (frameLines size) := by
  unfold frameLines
  split
  · exact directed_of_straight rfl rfl
  · exact directed_of_straight rfl rfl

end

section
variable {permitted : String → Nat → Prop} {start final : Allocation}

private theorem directed_interior {function : Definition} {body : Listing}
    (code : FunctionCode permitted function start final body) :
    Directed permitted function.name (interior function start final.frameSize body) := by
  refine (directed_frameLines _).append ((directed_of_straight rfl rfl).append ?_)
  refine (directed_parameterLines _ _).append ?_
  exact (directed_of_emits code.emitted).append (directed_of_straight rfl rfl)

/-- Every section jumps to labels of its own, and calls what is permitted. -/
theorem functions_directed {functions : List Definition} {lines : Listing}
    (code : Functions permitted functions start lines final)
    (identifiers : ∀ function ∈ functions, Identifier function.name) :
    ∀ part ∈ sections lines, (∀ target ∈ jumps part.lines, target ∈ labelNames part.lines) ∧
      ∀ callee ∈ callees part.lines, Identifier callee ∧ ∃ count, permitted callee count := by
  induction code with
  | nil => nofun
  | cons head tail ih =>
    rw [sections_functionLines identifiers head tail]
    refine List.forall_mem_cons.mpr ⟨⟨fun target member => ?_, (directed_interior head).calls⟩, ?_⟩
    · rcases (directed_interior head).jumps target member with own | rfl
      · exact own
      · simp [labelNames_interior]
    · exact ih fun other member => identifiers other (List.mem_cons_of_mem _ member)

end

def definedNames (program : List Term) : List String := ((bodyNodes program).filterMap definition?).map (·.name)

private theorem names_functions (program : List Term) :
    (functions program).map (·.name) = entry :: definedNames program := by
  rw [functions, definitions_eq, List.map_cons, definedNames]

private theorem mem_calls {program : List Term} {callee : String} {count : Nat} (called : (callee, count) ∈ calls program) :
    ∃ arguments, .call callee arguments ∈ bodyNodes program := by
  rw [calls_eq] at called
  obtain ⟨node, member, found⟩ := List.mem_filterMap.mp called
  cases node with
  | call callee arguments =>
    cases found
    exact ⟨arguments, member⟩
  | _ => cases found

/-- The labels of the listing of a program: they are distinct, those that open functions belong to
the entry and the definitions in their order, jumps lead to labels of their own section, and calls
to functions or to names that are defined nowhere. -/
structure Disciplined (program : List Term) (listing : Listing) : Prop where
  whole : listing = header ++ (sections listing).flatMap Section.whole
  distinct : (labelNames listing).Nodup
  hoisted : (labelNames listing).filter (fun name => !isLocal name) = entry :: definedNames program
  jumps : ∀ part ∈ sections listing, ∀ target ∈ jumps part.lines,
    target ∈ labelNames part.lines ∧ (labelNames listing).count target = 1
  calls : ∀ part ∈ sections listing, ∀ callee ∈ callees part.lines,
    (∃ arguments, .call callee arguments ∈ bodyNodes program) ∧
      (callee ∈ entry :: definedNames program ∨ callee ∉ definedNames program ∧ callee ∉ labelNames listing)

theorem labels_disciplined {source : String} {listing : Listing} (compiled : compile source = .ok listing) :
    ∃ program, readSource source = .ok program ∧ Disciplined program listing := by
  obtain ⟨program, lines, final, accepted, symbols, regular, code, rfl⟩ := compile_functions compiled
  have identifiers : ∀ function ∈ functions program, Identifier function.name :=
    fun function member => (regular function member).1
  obtain ⟨whole, names⟩ := functions_sections code identifiers
  obtain ⟨-, -, nodup⟩ := functions_labels code identifiers symbols.distinct
  have directed := functions_directed code identifiers
  have unlabelled : labelNames (header ++ lines) = labelNames lines := rfl
  have hoisted : (labelNames lines).filter (fun name => !isLocal name) = entry :: definedNames program := by
    rw [← names_sections, names, names_functions]
  refine ⟨program, accepted, ?_, nodup, hoisted, ?_, ?_⟩
  · rw [sections_header, whole]
  · intro part member target jumped
    have own := (directed part member).1 target jumped
    have labelled : target ∈ labelNames lines := by
      obtain ⟨line, inside, named⟩ := List.mem_filterMap.mp own
      rw [← whole]
      exact List.mem_filterMap.mpr
        ⟨line, List.mem_flatMap.mpr ⟨part, member, List.mem_cons_of_mem _ inside⟩, named⟩
    exact ⟨own, by rw [unlabelled, nodup.count, if_pos labelled]⟩
  · intro part member callee called
    obtain ⟨identifier, count, permitted⟩ := (directed part member).2 callee called
    refine ⟨mem_calls permitted, ?_⟩
    by_cases known : callee ∈ entry :: definedNames program
    · exact .inl known
    · refine .inr ⟨fun defined => known (List.mem_cons_of_mem _ defined), fun labelled => known ?_⟩
      rw [← hoisted]
      exact List.mem_filter.mpr ⟨labelled, by simp [isLocal_identifier identifier]⟩

def nestedDefinitions : String := "if(g(1))return 2;def f(a)\x7breturn a;def h()\x7bif(f(3))4;else 5;\x7d\x7d"

theorem nestedDefinitions_disciplined : ∃ listing, compile nestedDefinitions = .ok listing ∧
    ∃ program, readSource nestedDefinitions = .ok program ∧ Disciplined program listing := by
  have compiles : (compile nestedDefinitions).isOk = true := by decide +kernel
  cases compiled : compile nestedDefinitions with
  | error diagnostic => simp [compiled, Except.isOk, Except.toBool] at compiles
  | ok listing => exact ⟨listing, rfl, labels_disciplined compiled⟩

end Stackwise.Proofs.LabelDiscipline
