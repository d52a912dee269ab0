import Stackwise.Proofs.LoweringVerdicts

/-! What the check of the function symbols looks at. Of a definition it sees the name and the number
of parameters, and a call that is left out cannot be at fault. So programs whose definitions have the
same signatures in the same order get the same verdict on the same calls. -/

namespace Stackwise.Proofs.Signatures
open Assembly Lowering LoweringVerdicts

def signature (function : Definition) : String × Nat := (function.name, function.parameters.length)

variable {one two : List Definition} {calls fewer : List (String × Nat)}

private theorem names_eq (functions : List Definition) :
    functions.map (·.name) = (functions.map signature).map (·.1) := by
  rw [List.map_map]
  rfl

private theorem redefinition?_congr (same : one.map signature = two.map signature) (earlier : List String) :
    redefinition? earlier one = redefinition? earlier two := by
  induction one generalizing two earlier with
  | nil =>
    rw [List.map_nil, eq_comm, List.map_eq_nil_iff] at same
    rw [same]
  | cons function rest ih =>
    cases two with
    | nil => cases same
    | cons other others =>
      obtain ⟨first, behind⟩ := List.cons.inj same
      have name : function.name = other.name := congrArg Prod.fst first
      rw [redefinition?, redefinition?, name, ih behind]

/-- The judgement of a call from the signatures alone. -/
theorem judgement_eq (functions : List Definition) (call : String × Nat) :
    judgement functions call =
      ((functions.map signature).find? fun taken => decide (taken.1 = call.1)).bind fun taken =>
        if taken.2 = call.2 then none else some (.arity call.1 taken.2 call.2) := by
  rw [List.find?_map, Option.bind_map, judgement]
  cases found : functions.find? fun function => decide (function.name = call.1) with
  | none =>
    have unknown : functions.find? ((fun taken => decide (taken.1 = call.1)) ∘ signature) = none := found
    rw [unknown]
    rfl
  | some function =>
    have known : functions.find? ((fun taken => decide (taken.1 = call.1)) ∘ signature) = some function := found
    rw [known]
    rfl

theorem wrongCall?_judged (functions : List Definition) (calls : List (String × Nat)) :
    wrongCall? functions calls = calls.findSome? (judgement functions) := rfl

theorem symbolFault?_congr (same : one.map signature = two.map signature) (calls : List (String × Nat)) :
    symbolFault? one calls = symbolFault? two calls := by
  have judged : judgement one = judgement two := by
    funext call
    rw [judgement_eq, judgement_eq, same]
  have named : one.map (·.name) = two.map (·.name) := by
    rw [names_eq, same, ← names_eq]
  rw [symbolFault?, symbolFault?, redefinition?_congr same, reservedName?, reservedName?, named,
    wrongCall?_judged, wrongCall?_judged, judged]

/-- Where nothing is wrong, leaving calls out leaves nothing wrong. -/
theorem symbolFault?_fewer (sound : symbolFault? one calls = none) (subset : fewer ⊆ calls) :
    symbolFault? one fewer = none := by
  unfold symbolFault? at sound ⊢
  cases clash : redefinition? [entry] one with
  | some name => simp [clash] at sound
  | none =>
    cases taken : reservedName? one calls with
    | some name => simp [clash, taken] at sound
    | none =>
      have judged : wrongCall? one calls = none := by simpa [clash, taken] using sound
      have unreserved : reservedName? one fewer = none := by
        rw [reservedName?, List.find?_eq_none] at taken ⊢
        intro name member
        refine taken name ?_
        rw [List.mem_append] at member ⊢
        exact member.imp_right fun called => List.map_subset _ subset called
      have fitting : wrongCall? one fewer = none := by
        rw [wrongCall?_judged, List.findSome?_eq_none_iff] at judged ⊢
        exact fun call member => judged call (subset member)
      simp only [unreserved, fitting]

end Stackwise.Proofs.Signatures
