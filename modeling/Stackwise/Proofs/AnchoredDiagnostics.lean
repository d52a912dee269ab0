import Stackwise.Proofs.LoweringVerdicts
import Stackwise.Proofs.ParallelReadings
import Stackwise.Proofs.Scanning

/-! Diagnostics point into the source. The token that a production gives up at is one that it was
given, what is left over is the end of the tokens, and every token stands between two characters. So
the caret of a report is placed by counting characters, and stands where the diagnostic says. -/

namespace Stackwise.Proofs.AnchoredDiagnostics
open Grammar GrammarSoundness ParallelReadings Scanning Lowering LoweringVerdicts

private def poolPairing (pool : List Token) (ending : Token) (member : ending ∈ pool) : Pairing where
  Related first second := first = second ∧ first ∈ pool
  kinds related := congrArg Token.kind related.1
  tail := []
  ending := ending
  other := ending
  inert := Pairing.inert_nil
  endings _ := ⟨rfl, member⟩

/-- Reading gives up at one of the tokens or at the end of the input. -/
theorem mismatch_mem {ending : Token} {tokens : List Token} {mismatch : Mismatch}
    (failed : program ending tokens = .error mismatch) : mismatch.token ∈ tokens ++ [ending] := by
  let pair := poolPairing (tokens ++ [ending]) ending (by simp)
  have mirrors : pair.Mirrors tokens tokens := by
    refine ⟨tokens, (List.append_nil tokens).symm, List.forall₂_same.mpr fun token member => ?_⟩
    exact ⟨rfl, List.mem_append_left _ member⟩
  have reading := pair.program_parallel mirrors
  rw [show program pair.ending tokens = .error mismatch from failed] at reading
  obtain ⟨other, -, -, -, member⟩ := reading rfl
  exact member

/-- The report of a diagnostic at an offset: a part of the source ends there, and the caret stands
under the character behind that part. -/
structure Marked (source : String) (diagnostic : Diagnostic) (offset : Nat) : Prop where
  located : diagnostic.offset? = some offset
  inside : offset ≤ source.utf8ByteSize
  boundary : ∃ front back, source = front ++ back ∧ front.utf8ByteSize = offset ∧
    Text.charsBefore? source.toList offset = some front.length ∧
    diagnostic.report source =
      "'" ++ source ++ "'\n" ++ String.ofList (List.replicate (1 + front.length) ' ') ++ "^ " ++ diagnostic.message

private theorem utf8ByteSize_toList (source : String) : source.utf8ByteSize = Text.byteSize source.toList := by
  rw [← utf8ByteSize_ofList, String.ofList_toList]

theorem marked_of_place {source : String} {diagnostic : Diagnostic} {offset : Nat}
    (located : diagnostic.offset? = some offset) (place : Place 0 source.toList offset) :
    Marked source diagnostic offset := by
  obtain ⟨front, back, cut, rfl⟩ := place
  rw [Nat.zero_add] at located ⊢
  have inside : Text.byteSize front ≤ Text.byteSize source.toList := by
    rw [cut, Text.byteSize_append]
    omega
  have counted : Text.charsBefore? source.toList (Text.byteSize front) = some front.length := by
    rw [cut]
    exact Text.charsBefore?_byteSize front back
  have column : Diagnostic.caretColumn source.toList (Text.byteSize front) = 1 + front.length := by
    rw [Diagnostic.caretColumn, Nat.min_eq_left inside, counted, Option.getD_some, Nat.add_comm]
  refine ⟨located, by rw [utf8ByteSize_toList]; exact inside, String.ofList front, String.ofList back, ?_, ?_, ?_, ?_⟩
  · rw [← String.ofList_append, ← cut, String.ofList_toList]
  · exact utf8ByteSize_ofList front
  · simpa using counted
  · rw [Diagnostic.report, located]
    simp [column]

/-- What a refusal says of the source it refuses. -/
def Anchored (source : String) : Diagnostic → Prop
  | .lexeme text offset =>
    text ≠ "" ∧ (∃ front back, source = front ++ text ++ back ∧ front.utf8ByteSize = offset) ∧
      Marked source (.lexeme text offset) offset
  | .unexpected expected found offset =>
    (∃ tokens, scan source = .ok tokens ∧ ∃ token ∈ tokens, token.offset = offset ∧ token.kind.text = found) ∧
      Marked source (.unexpected expected found offset) offset
  | .leftover read rest =>
    ∃ tokens, scan source = .ok tokens ∧ rest <:+ tokens ∧
      ∃ token others, rest = token :: others ∧ token.kind ≠ .endOfInput ∧
        Marked source (.leftover read rest) token.offset
  | diagnostic => diagnostic.offset? = none ∧ diagnostic.report source = diagnostic.message

/-- A refusal by the lowering has no place. -/
theorem anchored_of_lower {source : String} {program : List Term} {diagnostic : Diagnostic}
    (failed : lower program = .error diagnostic) : Anchored source diagnostic := by
  have result := outcome program
  rw [failed] at result
  cases result with
  | redefined | reserved | overloaded => exact ⟨rfl, rfl⟩
  | miscalled free _ found =>
    obtain ⟨callee, arguments, parameters, body, -, -, rfl⟩ :=
      (wrongCall?_eq_some_iff (redefinition?_eq_none_iff.mp free)).mp found
    exact ⟨rfl, rfl⟩

private theorem anchored_of_scan {source : String} {diagnostic : Diagnostic} (failed : scan source = .error diagnostic) :
    Anchored source diagnostic := by
  obtain ⟨front, text, back, cut, some, rfl⟩ := scan_eq_error failed
  refine ⟨by simpa using some, ⟨String.ofList front, String.ofList back, ?_, utf8ByteSize_ofList front⟩, ?_⟩
  · rw [← String.ofList_append, ← String.ofList_append, ← cut, String.ofList_toList]
  · exact marked_of_place rfl ⟨front, text ++ back, by rw [cut, List.append_assoc], by rw [Nat.zero_add]⟩

/-- Reading scanned tokens fails at one of them, or leaves the last of them over. -/
theorem refusal_of_parse {source : String} {tokens : List Token} {diagnostic : Diagnostic}
    (scanned : scan source = .ok tokens) (failed : parse tokens = .error diagnostic) :
    (∃ mismatch : Mismatch, mismatch.token ∈ tokens ∧ diagnostic = mismatch.diagnostic) ∨
    ∃ read token others, token :: others <:+ tokens ∧ token.kind ≠ .endOfInput ∧
      diagnostic = .leftover read (token :: others) := by
  obtain ⟨body, rfl, proper⟩ := (scan_eq_ok_iff.mp scanned).ended
  rw [parse_ended proper] at failed
  split at failed
  next mismatch refused =>
    cases failed
    exact .inl ⟨mismatch, mismatch_mem refused, rfl⟩
  next => cases failed
  next read left more result =>
    cases failed
    obtain ⟨used, rfl, -⟩ := program_sound result
    cases left with
    | nil => cases more rfl
    | cons token others =>
      exact .inr ⟨read, token, _, ⟨used, by rw [List.append_assoc]; rfl⟩, proper token (by simp), rfl⟩

private theorem anchored_of_parse {source : String} {tokens : List Token} {diagnostic : Diagnostic}
    (scanned : scan source = .ok tokens) (failed : parse tokens = .error diagnostic) :
    Anchored source diagnostic := by
  have places := (scan_eq_ok_iff.mp scanned).places
  obtain ⟨mismatch, member, rfl⟩ | ⟨read, token, others, left, proper, rfl⟩ := refusal_of_parse scanned failed
  · exact ⟨⟨tokens, scanned, mismatch.token, member, rfl, rfl⟩, marked_of_place rfl (places _ member)⟩
  · have member : token ∈ tokens := left.mem List.mem_cons_self
    exact ⟨tokens, scanned, left, token, others, rfl, proper, marked_of_place rfl (places _ member)⟩

/-- A refusal for what the source says is about a place in it: a text that stands there, a token that
was scanned there, or the end of the tokens from there on. The caret of its report stands at that
place, counted in characters. Any other refusal has no place. -/
theorem refusal_anchored {source : String} {diagnostic : Diagnostic}
    (refused : compile source = .error diagnostic) : Anchored source diagnostic := by
  rw [compile, readSource] at refused
  cases scanned : scan source with
  | error fault =>
    rw [scanned] at refused
    cases refused
    exact anchored_of_scan scanned
  | ok tokens =>
    cases parsed : parse tokens with
    | error fault =>
      simp only [scanned, bind, Except.bind, parsed] at refused
      cases refused
      exact anchored_of_parse scanned parsed
    | ok program =>
      simp only [scanned, bind, Except.bind, parsed] at refused
      exact anchored_of_lower refused

/-- A parenthesis is not closed. -/
theorem unclosed_refusal_anchored :
    ∃ diagnostic, compile "x=(1;" = .error diagnostic ∧ diagnostic.offset? = some 4 ∧
      Anchored "x=(1;" diagnostic := by
  have located : (compile "x=(1;").casesOn Diagnostic.offset? (fun _ => none) = some 4 := by decide +kernel
  cases refused : compile "x=(1;" with
  | ok listing =>
    rw [refused] at located
    cases located
  | error diagnostic =>
    rw [refused] at located
    exact ⟨diagnostic, rfl, located, refusal_anchored refused⟩

end Stackwise.Proofs.AnchoredDiagnostics
