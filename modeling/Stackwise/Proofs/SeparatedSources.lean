import Stackwise.Proofs.ScanVerdicts

/-! Sources with blanks between them. A blank continues no lexeme, so what scanning finds in front of
the blanks does not depend on what stands behind them, and behind them nothing but the place is kept.
The first part decides if it fails; otherwise the tokens of the second part, or its fault, are those
that it has alone, moved by the bytes in front of it. -/

namespace Stackwise.Proofs.SeparatedSources
open Scanning ScanVerdicts

def moved (distance : Nat) (token : Token) : Token := { token with offset := token.offset + distance }

def movedFault (distance : Nat) (fault : ScanFault) : ScanFault := { fault with offset := fault.offset + distance }

private theorem divides_of_blank {c : Char} (blank : Text.isBlank c) : Divides c := by
  refine ⟨(blank_plain blank).2.2.2, ?_⟩
  rintro rfl
  cases blank

private theorem scanFrom_blanks {gap : List Char} (blank : ∀ c ∈ gap, Text.isBlank c) (offset : Nat) (rest : List Char) :
    Token.scanFrom offset (gap ++ rest) = Token.scanFrom (offset + Text.byteSize gap) rest := by
  induction gap generalizing offset with
  | nil => rfl
  | cons c others ih =>
    rw [List.forall_mem_cons] at blank
    rw [List.cons_append, Token.scanFrom, if_pos blank.1, ih blank.2, Text.byteSize_cons, Nat.add_assoc]

/-- Two parts of a source with blanks between them are scanned one after the other. The end of the
first part is no end any more. -/
theorem scanFrom_separated {gap : List Char} (filled : gap ≠ []) (blank : ∀ c ∈ gap, Text.isBlank c) (offset : Nat)
    (first second : List Char) :
    Token.scanFrom offset (first ++ (gap ++ second)) = do
      let tokens ← Token.scanFrom offset first
      let others ← Token.scanFrom (offset + Text.byteSize (first ++ gap)) second
      return tokens.dropLast ++ others := by
  have apart (c : Char) (rest : List Char) : Lexeme.longest c (rest ++ (gap ++ second)) = Lexeme.longest c rest := by
    obtain ⟨mark, others, rfl⟩ := List.exists_cons_of_ne_nil filled
    exact longest_divided (divides_of_blank (blank mark (by simp))) c rest _
  fun_induction Token.scanFrom offset first with
  | case1 offset =>
    rw [List.nil_append, scanFrom_blanks blank]
    exact (bind_pure _).symm
  | case2 offset c rest isBlank ih =>
    rw [List.cons_append, Token.scanFrom, if_pos isBlank, ih, List.cons_append, Text.byteSize_cons, Nat.add_assoc]
  | case3 offset c rest dark text refused =>
    rw [List.cons_append, Token.scanFrom, if_neg dark, apart, refused]
    rfl
  | case4 offset c rest dark lexeme found size ih =>
    obtain ⟨⟨back, cut, head⟩, -⟩ := longest_eq_ok found
    have longer : c :: (rest ++ (gap ++ second)) = lexeme.chars ++ (back ++ (gap ++ second)) := by
      rw [← List.cons_append, cut, List.append_assoc]
    have place : offset + Text.byteSize (c :: rest ++ gap) = offset + size + Text.byteSize (back ++ gap) := by
      rw [cut, List.append_assoc, Text.byteSize_append, Nat.add_assoc]
    rw [drop_of_cut cut head] at ih ⊢
    rw [place, List.cons_append, Token.scanFrom, if_neg dark, apart, found]
    dsimp only
    rw [drop_of_cut longer head, ih]
    cases tail : Token.scanFrom (offset + size) back with
    | error fault => rfl
    | ok tokens =>
      have ended : tokens ≠ [] := by
        obtain ⟨body, rfl, -⟩ := (scanFrom_eq_ok_iff.mp tail).ended
        simp
      cases Token.scanFrom (offset + size + Text.byteSize (back ++ gap)) second with
      | error fault => rfl
      | ok others =>
        show Except.ok (_ :: (tokens.dropLast ++ others)) = Except.ok ((_ :: tokens).dropLast ++ others)
        rw [List.dropLast_cons_of_ne_nil ended, List.cons_append]

/-- The same characters further behind have the same tokens or the same fault, moved. -/
theorem scanFrom_moved (distance offset : Nat) (chars : List Char) :
    Token.scanFrom (offset + distance) chars =
      ((Token.scanFrom offset chars).map (List.map (moved distance))).mapError (movedFault distance) := by
  fun_induction Token.scanFrom offset chars with
  | case1 offset =>
    rw [Token.scanFrom]
    rfl
  | case2 offset c rest blank ih => rw [Token.scanFrom, if_pos blank, Nat.add_right_comm, ih]
  | case3 offset c rest dark text refused =>
    rw [Token.scanFrom, if_neg dark, refused]
    rfl
  | case4 offset c rest dark lexeme found size ih =>
    rw [Token.scanFrom, if_neg dark, found]
    dsimp only
    rw [Nat.add_right_comm, ih]
    cases Token.scanFrom (offset + size) (rest.drop (lexeme.chars.length - 1)) with
    | error fault => rfl
    | ok tokens => rfl

section
variable {source : String} {tokens : List Token}

theorem scan_ok_iff : scan source = .ok tokens ↔ Token.scan source = .ok tokens := by
  rw [scan]
  cases Token.scan source <;> simp [Except.mapError]

theorem scan_error_iff {diagnostic : Diagnostic} :
    scan source = .error diagnostic ↔ ∃ fault, Token.scan source = .error fault ∧ fault.diagnostic = diagnostic := by
  rw [scan]
  cases Token.scan source <;> simp [Except.mapError]

private theorem scan_ended (scanned : scan source = .ok tokens) :
    tokens = tokens.dropLast ++ [Token.ending source.utf8ByteSize] := by
  obtain ⟨body, rfl, -⟩ := (scan_eq_ok_iff.mp scanned).ended
  rw [List.dropLast_concat, Nat.zero_add, ← utf8ByteSize_ofList, String.ofList_toList]

end

/-- Scanning goes through two sources with blanks between them as through each of them alone. -/
theorem scan_parts {first gap second : String} (filled : gap ≠ "") (blank : ∀ c ∈ gap.toList, Text.isBlank c) :
    Token.scan (first ++ gap ++ second) = do
      let tokens ← Token.scan first
      let others ← ((Token.scan second).map (List.map (moved (first ++ gap).utf8ByteSize))).mapError
        (movedFault (first ++ gap).utf8ByteSize)
      return tokens.dropLast ++ others := by
  have size : (first ++ gap).utf8ByteSize = Text.byteSize (first.toList ++ gap.toList) := by
    rw [← utf8ByteSize_ofList, String.ofList_append, String.ofList_toList, String.ofList_toList]
  rw [Token.scan, String.toList_append, String.toList_append, List.append_assoc,
    scanFrom_separated (by simpa using filled) blank, scanFrom_moved, size]
  rfl

theorem scan_both {first gap second : String} (filled : gap ≠ "") (blank : ∀ c ∈ gap.toList, Text.isBlank c)
    {tokens others : List Token} (scanned : scan first = .ok tokens) (further : scan second = .ok others) :
    scan (first ++ gap ++ second) = .ok (tokens.dropLast ++ others.map (moved (first ++ gap).utf8ByteSize)) := by
  rw [scan_ok_iff] at scanned further ⊢
  rw [scan_parts filled blank, scanned, further]
  rfl

/-- Blanks separate what scanning finds. A source that fails does so whatever follows the blanks. If it
has tokens, what follows fails as it does alone, or has the tokens that it has alone, and they come in
the place of the end of the input. Each place is moved by the bytes in front of the second source. -/
theorem scan_separated (first gap second : String) (filled : gap ≠ "") (blank : ∀ c ∈ gap.toList, Text.isBlank c) :
    (∀ diagnostic, scan first = .error diagnostic → scan (first ++ gap ++ second) = .error diagnostic) ∧
    (∀ tokens diagnostic, scan first = .ok tokens → scan second = .error diagnostic →
      ∃ text offset, diagnostic = .lexeme text offset ∧
        scan (first ++ gap ++ second) = .error (.lexeme text (offset + (first ++ gap).utf8ByteSize))) ∧
    ∀ tokens others, scan first = .ok tokens → scan second = .ok others →
      tokens = tokens.dropLast ++ [Token.ending first.utf8ByteSize] ∧
        scan (first ++ gap ++ second) =
          .ok (tokens.dropLast ++ others.map (moved (first ++ gap).utf8ByteSize)) := by
  refine ⟨?_, ?_, fun tokens others scanned further => ⟨scan_ended scanned, scan_both filled blank scanned further⟩⟩
  · intro diagnostic failed
    rw [scan_error_iff] at failed ⊢
    obtain ⟨fault, failed, rfl⟩ := failed
    refine ⟨fault, ?_, rfl⟩
    rw [scan_parts filled blank, failed]
    rfl
  · intro tokens diagnostic scanned failed
    rw [scan_error_iff] at failed
    obtain ⟨fault, failed, rfl⟩ := failed
    refine ⟨fault.text, fault.offset, rfl, scan_error_iff.mpr ⟨movedFault _ fault, ?_, rfl⟩⟩
    rw [scan_parts filled blank, scan_ok_iff.mp scanned, failed]
    rfl

/-- A line break keeps the halves of a double mark apart: a lone `!` is a fault although an equals sign
comes next, and `<` in front of an equals sign is a token of its own. -/
theorem halves_separated :
    scan ("1!" ++ "\n" ++ "=2") = .error (.lexeme "!" 1) ∧
    scan ("a<" ++ "\n" ++ "= é") = .error (.lexeme "é" 5) ∧
    scan ("a<" ++ "\n" ++ "=1") =
      .ok [⟨.name "a", 0, 1⟩, ⟨.symbol "<", 1, 1⟩, ⟨.symbol "=", 3, 1⟩, ⟨.number 1, 4, 1⟩, .ending 5] := by
  have front : Token.scan "a<" = .ok [⟨.name "a", 0, 1⟩, ⟨.symbol "<", 1, 1⟩, .ending 2] := by decide +kernel
  have back : Token.scan "=1" = .ok [⟨.symbol "=", 0, 1⟩, ⟨.number 1, 1, 1⟩, .ending 2] := by decide +kernel
  have lone : Token.scan "1!" = .error ⟨"!", 1⟩ := by decide +kernel
  have foreign : Token.scan "= é" = .error ⟨"é", 2⟩ := by decide +kernel
  have blank : ∀ c ∈ "\n".toList, Text.isBlank c := by simp [Text.isBlank]
  refine ⟨(scan_separated "1!" "\n" "=2" (by decide) blank).1 _ (scan_error_iff.mpr ⟨_, lone, rfl⟩), ?_, ?_⟩
  · obtain ⟨text, offset, same, failed⟩ := (scan_separated "a<" "\n" "= é" (by decide) blank).2.1 _ _
      (scan_ok_iff.mpr front) (scan_error_iff.mpr ⟨_, foreign, rfl⟩)
    cases same
    exact failed
  · exact ((scan_separated "a<" "\n" "=1" (by decide) blank).2.2 _ _ (scan_ok_iff.mpr front)
      (scan_ok_iff.mpr back)).2

end Stackwise.Proofs.SeparatedSources
