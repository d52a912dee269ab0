import Stackwise.Proofs.AnchoredDiagnostics

/-! The column of the caret. It counts the characters of the whole source in front of the place that
a diagnostic is about, and so also the lines above that of the place. The caret stands under the
place if the place is in the first line, and to the right of it otherwise. -/

namespace Stackwise.Proofs.CaretColumns
open Grammar Lowering LoweringVerdicts Scanning AnchoredDiagnostics

section Lines

theorem length_lines (text : List Char) : (Text.lines text).length = text.count '\n' + 1 := by
  induction text with
  | nil => rfl
  | cons c rest ih =>
    rw [Text.lines]
    split
    next feed => simp [feed, ih]
    next other =>
      rw [List.count_cons_of_ne other]
      cases known : Text.lines rest with
      | nil => simp [known] at ih
      | cons line others => simpa [known] using ih

/-- Lines with their line feeds make up the text again. -/
theorem flatMap_lines (text : List Char) : (Text.lines text).flatMap (· ++ ['\n']) = text ++ ['\n'] := by
  induction text with
  | nil => rfl
  | cons c rest ih =>
    rw [Text.lines]
    split
    next feed => rw [List.flatMap_cons, ih, feed, List.nil_append, List.singleton_append, List.cons_append]
    next other =>
      cases known : Text.lines rest with
      | nil => simp [known] at ih
      | cons line others =>
        rw [known, List.flatMap_cons] at ih
        rw [List.flatMap_cons, List.cons_append, List.cons_append, ih, List.cons_append]

theorem lines_ne_nil (text : List Char) : Text.lines text ≠ [] := by
  intro empty
  have count := length_lines text
  simp [empty] at count

theorem exists_lines (text : List Char) : ∃ above before, Text.lines text = above ++ [before] :=
  ⟨_, _, (List.dropLast_append_getLast (lines_ne_nil text)).symm⟩

private theorem lines_single {text : List Char} (free : '\n' ∉ text) : Text.lines text = [text] := by
  induction text with
  | nil => rfl
  | cons c rest ih =>
    simp only [List.mem_cons, not_or] at free
    simp [Text.lines, Ne.symm free.1, ih free.2]

/-- The lines of a text that is cut: the line of the cut is in two parts. -/
theorem lines_cut {front back before after : List Char} {above below : List (List Char)}
    (upper : Text.lines front = above ++ [before]) (lower : Text.lines back = after :: below) :
    Text.lines (front ++ back) = above ++ (before ++ after) :: below := by
  induction front generalizing above before with
  | nil =>
    cases above with
    | nil =>
      cases upper
      exact lower
    | cons line above => simp [Text.lines] at upper
  | cons c rest ih =>
    rw [Text.lines] at upper
    rw [List.cons_append, Text.lines]
    split at upper
    next feed =>
      rw [if_pos feed]
      cases above with
      | nil => exact absurd (List.cons.inj upper).2 (lines_ne_nil rest)
      | cons line above =>
        obtain ⟨rfl, known⟩ := List.cons.inj upper
        rw [ih known, List.cons_append]
    next other =>
      rw [if_neg other]
      split at upper
      next empty => exact absurd empty (lines_ne_nil rest)
      next line others known =>
        cases above with
        | nil =>
          obtain ⟨rfl, rfl⟩ := List.cons.inj upper
          have alone : Text.lines rest = [] ++ [line] := known
          rw [ih alone]
          rfl
        | cons first above =>
          obtain ⟨rfl, rfl⟩ := List.cons.inj upper
          have led : Text.lines rest = (line :: above) ++ [before] := known
          rw [ih led]
          rfl

/-- A line feed ends the lines of what stands in front of it. -/
theorem lines_broken (front back : List Char) :
    Text.lines (front ++ '\n' :: back) = Text.lines front ++ Text.lines back := by
  obtain ⟨above, before, upper⟩ := exists_lines front
  have lower : Text.lines ('\n' :: back) = [] :: Text.lines back := by simp [Text.lines]
  rw [lines_cut upper lower, upper]
  simp

private theorem head?_lines {c : Char} {rest after : List Char} {below : List (List Char)} (other : c ≠ '\n')
    (lower : Text.lines (c :: rest) = after :: below) : after.head? = some c := by
  rw [Text.lines, if_neg other] at lower
  split at lower
  · cases lower
    rfl
  · cases lower
    rfl

end Lines

section Places

private def Dark (offset : Nat) (chars : List Char) (place : Nat) : Prop :=
  ∃ front back, chars = front ++ back ∧ place = offset + Text.byteSize front ∧
    ∀ c ∈ back.head?, Text.isBlank c = false

private theorem Dark.behind {offset place : Nat} {front chars : List Char}
    (there : Dark (offset + Text.byteSize front) chars place) : Dark offset (front ++ chars) place := by
  obtain ⟨middle, back, rfl, rfl, dark⟩ := there
  exact ⟨front ++ middle, back, by simp, by rw [Text.byteSize_append]; omega, dark⟩

def places : Except ScanFault (List Token) → List Nat
  | .ok tokens => tokens.map (·.offset)
  | .error fault => [fault.offset]

private theorem mem_places_map {result : Except ScanFault (List Token)} {token : Token} {place : Nat}
    (member : place ∈ places (result.map (token :: ·))) : place = token.offset ∨ place ∈ places result := by
  cases result with
  | ok tokens => simpa [places, Except.map] using member
  | error fault => exact .inr member

private theorem places_dark {offset place : Nat} {chars : List Char} (member : place ∈ places (Token.scanFrom offset chars)) :
    Dark offset chars place := by
  fun_induction Token.scanFrom offset chars with
  | case1 offset =>
    obtain rfl := List.mem_singleton.mp member
    exact ⟨[], [], rfl, rfl, by simp⟩
  | case2 offset c rest blank ih =>
    have there : Dark (offset + Text.byteSize [c]) rest place := ih member
    exact there.behind
  | case3 offset c rest dark text refused =>
    obtain rfl := List.mem_singleton.mp member
    exact ⟨[], c :: rest, rfl, rfl, by simpa using dark⟩
  | case4 offset c rest dark lexeme found size =>
    rename_i ih
    obtain ⟨⟨back, cut, head⟩, -⟩ := longest_eq_ok found
    rw [drop_of_cut cut head] at member ih
    rcases mem_places_map member with rfl | member
    · exact ⟨[], c :: rest, rfl, rfl, by simpa using dark⟩
    · rw [cut]
      exact (ih member).behind

private theorem offset?_of_lower {program : List Term} {diagnostic : Diagnostic} (failed : lower program = .error diagnostic) :
    diagnostic.offset? = none := by
  have result := outcome program
  rw [failed] at result
  cases result with
  | redefined | reserved | overloaded => rfl
  | miscalled free _ found =>
    obtain ⟨callee, arguments, parameters, body, -, -, rfl⟩ :=
      (wrongCall?_eq_some_iff (redefinition?_eq_none_iff.mp free)).mp found
    rfl

/-- A diagnostic that has a place names one that the scan speaks of. -/
theorem located_mem {source : String} {diagnostic : Diagnostic} {offset : Nat}
    (refused : compile source = .error diagnostic) (located : diagnostic.offset? = some offset) :
    offset ∈ places (Token.scan source) := by
  rw [compile, readSource] at refused
  cases scanned : Token.scan source with
  | error fault =>
    simp only [scan, scanned, Except.mapError, bind, Except.bind] at refused
    cases refused
    cases located
    exact List.mem_singleton_self _
  | ok tokens =>
    have known : scan source = .ok tokens := by
      rw [scan, scanned]
      rfl
    rw [known] at refused
    cases parsed : parse tokens with
    | error fault =>
      simp only [bind, Except.bind, parsed] at refused
      cases refused
      obtain ⟨mismatch, member, rfl⟩ | ⟨read, token, others, left, -, rfl⟩ := refusal_of_parse known parsed
      · cases located
        exact List.mem_map_of_mem member
      · cases located
        exact List.mem_map_of_mem (left.mem List.mem_cons_self)
    | ok program =>
      simp only [bind, Except.bind, parsed] at refused
      rw [offset?_of_lower refused] at located
      cases located

end Places

/-- The lines of a report, seen from a place in the source. The source stands between quotes, and
its line with the place is cut there. The line of the caret comes behind it. -/
structure Picture (front back report : List Char) where
  above : List (List Char)
  before : List Char
  after : List Char
  below : List (List Char)
  marker : List Char
  further : List (List Char)
  upper : Text.lines ('\'' :: front) = above ++ [before]
  lower : Text.lines (back ++ ['\'']) = after :: below
  whole : Text.lines report = above ++ (before ++ after) :: below ++ marker :: further

namespace Picture

variable {front back report : List Char}

def column (picture : Picture front back report) : Nat := picture.before.length

def caret (picture : Picture front back report) : Nat := (picture.marker.takeWhile (· ≠ '^')).length

/-- The characters of the lines above that of the place, line feeds included. -/
def raised (picture : Picture front back report) : Nat := (picture.above.flatMap (· ++ ['\n'])).length

private theorem column_add_raised (picture : Picture front back report) :
    picture.column + picture.raised = 1 + front.length := by
  have whole := flatMap_lines ('\'' :: front)
  rw [picture.upper, List.flatMap_append, List.flatMap_singleton, ← List.append_assoc] at whole
  have total := congrArg List.length (List.append_cancel_right whole)
  rw [List.length_append, List.length_cons] at total
  rw [column, raised]
  omega

/-- There is a line above exactly if there is a line feed in front. -/
theorem raised_eq_zero_iff (picture : Picture front back report) : picture.raised = 0 ↔ '\n' ∉ front := by
  have count := length_lines ('\'' :: front)
  rw [picture.upper, List.length_append, List.count_cons_of_ne (by decide)] at count
  rw [← List.count_eq_zero, raised]
  cases known : picture.above with
  | nil => simpa [known] using count.symm
  | cons line others =>
    simp only [known, List.length_cons, List.length_nil, List.flatMap_cons, List.length_append] at count ⊢
    omega

/-- Behind the cut stands the character of the place, or the closing quote at the end of the source. -/
theorem head?_after (picture : Picture front back report) (dark : ∀ c ∈ back.head?, Text.isBlank c = false) :
    picture.after.head? = some (back.headD '\'') := by
  have lower := picture.lower
  cases back with
  | nil => exact head?_lines (by decide) lower
  | cons c rest =>
    have other : c ≠ '\n' := by
      rintro rfl
      exact absurd (dark '\n' rfl) (by decide)
    exact head?_lines other lower

end Picture

/-- A report has the source between quotes, and below it the caret with the message behind it. -/
theorem exists_picture {front back message report : List Char} {column : Nat}
    (shape : report = '\'' :: front ++ (back ++ ['\'']) ++
      '\n' :: (List.replicate column ' ' ++ ['^', ' '] ++ message)) :
    ∃ picture : Picture front back report, picture.caret = column := by
  obtain ⟨above, before, upper⟩ := exists_lines ('\'' :: front)
  obtain ⟨after, below, lower⟩ := List.exists_cons_of_ne_nil (lines_ne_nil (back ++ ['\'']))
  obtain ⟨first, further, broken⟩ := List.exists_cons_of_ne_nil (lines_ne_nil message)
  let pointer : List Char := List.replicate column ' ' ++ ['^', ' ']
  have single : Text.lines pointer = [] ++ [pointer] := lines_single (by simp [pointer, List.mem_replicate])
  refine ⟨⟨above, before, after, below, pointer ++ first, further, upper, lower, ?_⟩, ?_⟩
  · rw [shape, lines_broken, lines_cut upper lower, lines_cut single broken, List.nil_append]
  · have spaces : ∀ c ∈ List.replicate column ' ', decide (c ≠ '^') = true := by
      intro c member
      rw [List.eq_of_mem_replicate member]
      rfl
    simp only [Picture.caret, pointer, List.append_assoc, List.takeWhile_append_of_pos spaces]
    simp

/-- The report of a refusal that has a place shows this place in its line. The column of the caret is
the column of the place in its line and all characters of the lines above, so the caret stands under
the place exactly if no line feed is in front of it. -/
theorem caret_counts_lines_above {source : String} {diagnostic : Diagnostic} {offset : Nat}
    (refused : compile source = .error diagnostic) (located : diagnostic.offset? = some offset) :
    ∃ front back, source.toList = front ++ back ∧ Text.byteSize front = offset ∧
      ∃ picture : Picture front back (diagnostic.report source).toList,
        picture.after.head? = some (back.headD '\'') ∧
        picture.caret = picture.column + picture.raised ∧
        (picture.caret = picture.column ↔ '\n' ∉ front) := by
  obtain ⟨front, back, cut, place, dark⟩ := places_dark (located_mem refused located)
  rw [Nat.zero_add] at place
  obtain ⟨front', back', -, -, counted, shown⟩ :=
    (marked_of_place located ⟨front, back, cut, by rw [place, Nat.zero_add]⟩).boundary
  rw [cut, place, Text.charsBefore?_byteSize, Option.some.injEq] at counted
  have shape : (diagnostic.report source).toList = '\'' :: front ++ (back ++ ['\'']) ++
      '\n' :: (List.replicate (1 + front.length) ' ' ++ ['^', ' '] ++ diagnostic.message.toList) := by
    simp [shown, cut, counted]
  obtain ⟨picture, caret⟩ := exists_picture shape
  have total := picture.column_add_raised
  refine ⟨front, back, cut, place.symm, picture, picture.head?_after dark, by omega, ?_⟩
  rw [← picture.raised_eq_zero_iff]
  omega

def stray : String := "1\n@"

theorem stray_caret_counts_lines_above :
    ∃ diagnostic, compile stray = .error diagnostic ∧ diagnostic.offset? = some 2 ∧
      ∃ front back, stray.toList = front ++ back ∧ Text.byteSize front = 2 ∧
        ∃ picture : Picture front back (diagnostic.report stray).toList,
          picture.after.head? = some (back.headD '\'') ∧
          picture.caret = picture.column + picture.raised ∧
          (picture.caret = picture.column ↔ '\n' ∉ front) := by
  have located : (compile stray).casesOn Diagnostic.offset? (fun _ => none) = some 2 := by decide +kernel
  cases refused : compile stray with
  | ok listing =>
    rw [refused] at located
    cases located
  | error diagnostic =>
    rw [refused] at located
    exact ⟨diagnostic, rfl, located, caret_counts_lines_above refused located⟩

/-- The place is the first of its line, and the caret stands three columns further. -/
theorem stray_caret_astray :
    ∃ diagnostic, compile stray = .error diagnostic ∧ diagnostic.offset? = some 2 ∧
      ∃ picture : Picture ['1', '\n'] ['@'] (diagnostic.report stray).toList,
        picture.after.head? = some '@' ∧ picture.column = 0 ∧ picture.caret = 3 := by
  let marker : List Char := "   ^ invalid token: '@'".toList
  have shown : (compile stray).casesOn
      (fun diagnostic => (diagnostic.offset?, Text.lines (diagnostic.report stray).toList)) (fun _ => (none, [])) =
      (some 2, [['\'', '1'], ['@', '\''], marker]) := by decide +kernel
  cases refused : compile stray with
  | ok listing =>
    rw [refused] at shown
    cases shown
  | error diagnostic =>
    rw [refused] at shown
    obtain ⟨located, lines⟩ := Prod.mk.inj shown
    refine ⟨diagnostic, rfl, located, ⟨[['\'', '1']], [], ['@', '\''], [], marker, [], ?_, ?_, lines⟩, rfl, rfl, ?_⟩
    · decide
    · decide
    · have spaces : (marker.takeWhile (· ≠ '^')).length = 3 := by decide
      exact spaces

end Stackwise.Proofs.CaretColumns
