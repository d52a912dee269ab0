import Stackwise.Proofs.CompilerCorrectness

/-! Listings of any practical length do not overflow. Every variable that owns a slot is mentioned in a
line of its own, so a frame is no larger than a word for each line of the listing, and no other
instruction moves the stack pointer down by more than a word. -/

namespace Stackwise.Proofs.ModestListings
open Assembly Machine Lowering EmittedCode EmittedListing Loading StackRoom Activations SafeRuns ListingSafety
  CompilerCorrectness

/-- No instruction of the lines moves the stack pointer down by more than a number of bytes. -/
def Shallow (bound : Int) (lines : Listing) : Prop :=
  ∀ instruction ∈ instructions lines, descent instruction ≤ bound

@[simp] theorem shallow_nil (bound : Int) : Shallow bound [] := by
  intro instruction member
  cases member

@[simp] theorem shallow_label {bound : Int} {name : String} {rest : Listing} :
    Shallow bound (.label name :: rest) ↔ Shallow bound rest := Iff.rfl

@[simp] theorem shallow_code {bound : Int} {instruction : Instruction} {comment : Option String} {rest : Listing} :
    Shallow bound (.code instruction comment :: rest) ↔ descent instruction ≤ bound ∧ Shallow bound rest :=
  List.forall_mem_cons

theorem shallow_append {bound : Int} {front back : Listing} :
    Shallow bound (front ++ back) ↔ Shallow bound front ∧ Shallow bound back := by
  simp [Shallow, instructions, or_imp, forall_and]

theorem Shallow.mono {least most : Int} {lines : Listing} (shallow : Shallow least lines) (below : least ≤ most) :
    Shallow most lines := fun instruction member => Int.le_trans (shallow instruction member) below

/-- The lines move the stack pointer down by single words, and bring the number of slots from one count
to another with a line for each. -/
structure Frugal (before : Nat) (lines : Listing) (after : Nat) : Prop where
  shallow : Shallow 8 lines
  slots : after ≤ before + lines.length

theorem Frugal.append {before between after : Nat} {front back : Listing} (first : Frugal before front between)
    (second : Frugal between back after) : Frugal before (front ++ back) after := by
  have slots := first.slots
  have more := second.slots
  refine ⟨shallow_append.mpr ⟨first.shallow, second.shallow⟩, ?_⟩
  rw [List.length_append]
  omega

theorem frugal_of_shallow {count : Nat} {lines : Listing} (shallow : Shallow 8 lines) : Frugal count lines count :=
  ⟨shallow, Nat.le_add_right ..⟩

theorem length_slots_claim (start : Allocation) (name : String) :
    (start.claim name).slots.length ≤ start.slots.length + 1 := by
  unfold Allocation.claim
  split
  · exact Nat.le_succ _
  · simp

private theorem frugal_address (start : Allocation) (name : String) (distance : Nat) :
    Frugal start.slots.length (addressLines name distance) (start.claim name).slots.length := by
  have slots := length_slots_claim start name
  refine ⟨?_, ?_⟩
  · have other : Register.rax ≠ Register.rsp := by decide
    simp [addressLines, descent, other]
  · simp only [addressLines, List.length_cons, List.length_nil]
    omega

private theorem shallow_literal (value : Int64) : Shallow 8 (literalLines value) := by
  unfold literalLines
  split <;> simp [descent]

private theorem shallow_combine (operator : Operator) : Shallow 8 (combineLines operator) := by
  cases operator <;> simp [combineLines, operationLines, comparisonLines, descent]

private theorem shallow_pops (registers : List Register) :
    Shallow 8 (registers.map fun (register : Register) => .code (.pop register) none) := by
  induction registers with
  | nil => exact shallow_nil 8
  | cons register rest ih => exact shallow_code.mpr ⟨by simp [descent], ih⟩

private theorem shallow_call (depth : Nat) (callee : String) : Shallow 8 (callLines depth callee) := by
  unfold callLines
  split <;> simp [descent]

/-- Emitted code is frugal: a variable gets its slot where its address is computed. -/
theorem frugal_of_emits {permitted : String → Nat → Prop} {function : String} {piece : Piece}
    {start final : Allocation} {lines : Listing} (emitted : Emits permitted function piece start lines final) :
    Frugal start.slots.length lines final.slots.length := by
  induction emitted with
  | literal => exact frugal_of_shallow (shallow_literal _)
  | var => exact (frugal_address _ _ _).append (frugal_of_shallow (by simp [fetchLines, descent]))
  | assign _ _ ih =>
    exact (frugal_address _ _ _).append (ih.append (frugal_of_shallow (by simp [storeLines, descent])))
  | apply _ _ one two => exact one.append (two.append (frugal_of_shallow (shallow_combine _)))
  | call _ _ _ _ ih =>
    refine ih.append (frugal_of_shallow (shallow_append.mpr ⟨shallow_pops _, ?_⟩))
    simp [shallow_append, shallow_call, descent]
  | branch _ _ _ one two three =>
    refine one.append (Frugal.append (frugal_of_shallow (by simp [testLines, descent])) (two.append ?_))
    exact Frugal.append (frugal_of_shallow (by simp [skipLines, descent])) (three.append (frugal_of_shallow (by simp)))
  | leave => exact frugal_of_shallow (by simp [descent])
  | leaveWith _ ih | expression _ _ ih | statement _ _ _ ih =>
    exact ih.append (frugal_of_shallow (by simp [descent]))
  | function | finish | noArgument => exact frugal_of_shallow (shallow_nil 8)
  | block _ ih | last _ _ ih => exact ih
  | zero => exact frugal_of_shallow (by simp [descent])
  | next _ _ _ one two | argument _ _ one two => exact one.append two

private theorem frugal_parameters (start : Allocation) (stored : List (String × Register)) :
    Frugal start.slots.length (parameterLines start stored) (claimAll start stored).slots.length := by
  induction stored generalizing start with
  | nil => exact frugal_of_shallow (shallow_nil 8)
  | cons pair rest ih =>
    obtain ⟨shallow, slots⟩ := ih (start.claim pair.1)
    have claimed := length_slots_claim start pair.1
    refine ⟨shallow_code.mpr ⟨by simp [descent], shallow⟩, ?_⟩
    rw [parameterLines, claimAll, List.length_cons]
    omega

section
variable {permitted : String → Nat → Prop}

/-- What the code of functions costs, from the number of slots before it to the number after it. -/
structure Affordable (before : Nat) (lines : Listing) (after : Nat) : Prop where
  shallow : Shallow (8 * after + 16) lines
  slots : after ≤ before + lines.length
  kept : before ≤ after

private theorem shallow_prologue {name : String} {size : Nat} {bound : Int} (words : 8 ≤ bound) (frame : size ≤ bound) :
    Shallow bound (prologue name size) := by
  unfold prologue
  split <;> simp [descent] <;> omega

private theorem function_affordable {function : Definition} {start final : Allocation} {body : Listing}
    (code : FunctionCode permitted function start final body) :
    Affordable start.slots.length (functionLines function start final.frameSize body) final.slots.length := by
  have parameters := frugal_parameters { start with depth := 0 } (function.parameters.zip argumentRegisters)
  have emitted := frugal_of_emits code.emitted
  obtain ⟨inside, slots⟩ := parameters.append emitted
  have claimed := (slots_claimAll { start with depth := 0 } (function.parameters.zip argumentRegisters)).length_le
  have grown := code.emitted.grows.slots.length_le
  have frame : (final.frameSize : Int) ≤ 8 * final.slots.length + 16 := by
    rw [Allocation.frameSize]
    omega
  obtain ⟨stored, lines⟩ := shallow_append.mp (inside.mono (show 8 ≤ 8 * (final.slots.length : Int) + 16 by omega))
  refine ⟨?_, ?_, Nat.le_trans claimed grown⟩
  · have clearing : Shallow 8 [.code (.mov Register.rax (.immediate 0)) none] := by simp [descent]
    have leaving : Shallow 8 (epilogue function.name) := by simp [epilogue, descent]
    refine shallow_append.mpr ⟨shallow_prologue (by omega) frame, ?_⟩
    refine shallow_append.mpr ⟨clearing.mono (by omega), shallow_append.mpr ⟨stored, ?_⟩⟩
    exact shallow_append.mpr ⟨lines, leaving.mono (by omega)⟩
  · simp only [functionLines, List.length_append] at slots ⊢
    omega

private theorem functions_affordable {functions : List Definition} {start final : Allocation} {lines : Listing}
    (code : Functions permitted functions start lines final) :
    Affordable start.slots.length lines final.slots.length := by
  induction code with
  | nil => exact ⟨shallow_nil _, Nat.le_add_right .., Nat.le_refl _⟩
  | cons head tail ih =>
    obtain ⟨shallow, slots, kept⟩ := function_affordable head
    have more := ih.slots
    have rest := ih.kept
    refine ⟨shallow_append.mpr ⟨shallow.mono (by omega), ih.shallow⟩, ?_, Nat.le_trans kept rest⟩
    rw [List.length_append]
    omega

end

/-- Listings of up to 2³⁶ lines do not overflow. -/
theorem noOverflow_of_length {source : String} {listing : Listing} (compiled : compile source = .ok listing)
    (short : listing.length ≤ 0x1000000000) : NoOverflow listing := by
  obtain ⟨program, accepted, lowered⟩ := GrammarSoundness.bind_eq_ok.mp compiled
  obtain ⟨-, lines, final, ran, rfl⟩ := functions_of_lower lowered
  have code := lowerFunctions_code (fun function member => SourceTerms.regular_functions accepted member) ran
  obtain ⟨shallow, slots, -⟩ := functions_affordable code
  have few : final.slots.length ≤ lines.length := Nat.le_trans slots (Nat.le_of_eq (Nat.zero_add _))
  rw [List.length_append] at short
  refine noOverflow_of_modest compiled ?_ ?_
  · intro instruction member
    have below := shallow instruction member
    omega
  · have counted : span (header ++ lines) ≤ (header ++ lines).length := List.length_filterMap_le ..
    rw [List.length_append] at counted
    omega

/-- The run of a listing of up to 2³⁶ lines ends as the evaluation of its source does, if that ends, and
fails in no other way. -/
theorem short_run_foreseen {source : String} {listing : Listing} (compiled : compile source = .ok listing)
    (short : listing.length ≤ 0x1000000000) :
    ∃ program, readSource source = .ok program ∧
      (∀ fault, run (Listing.text listing) = .error fault → fault = .stepLimit ∨ Allowed program fault) ∧
      ∀ depth result, Answered result (fun value made => result = .ok ⟨value, made⟩) (Reference.outcome program depth) →
        Yields listing result := by
  have noOverflow := noOverflow_of_length compiled short
  obtain ⟨program, accepted, faults⟩ := allowed_of_run compiled noOverflow
  exact ⟨program, accepted, faults, fun depth _ answered => yields_of_answered depth compiled noOverflow accepted answered⟩

end Stackwise.Proofs.ModestListings
