import Mathlib.Data.List.TakeWhile
import Stackwise.Proofs.Tilings

/-! Which sources have tokens, and where scanning fails in the others. A source is lexical if its
characters are known, its exclamation marks stand in front of an equals sign, and the numbers at the
front of its words fit a word of the machine. Otherwise scanning stops at the first place where one of
these is violated, because whatever it has taken until then violates nothing. -/

namespace Stackwise.Proofs.ScanVerdicts
open ListingText Scanning Lexemes Tilings SourceTerms

/-- The characters of sources: blanks, letters, digits, underscores and those of the punctuators. -/
def isKnown (c : Char) : Bool :=
  Text.isBlank c || Lexeme.continuesWord c ||
    c ∈ ['\x7b', '\x7d', '(', ')', ';', ',', '+', '-', '*', '/', '<', '>', '=', '!']

/-- The characters between `front` and `back` are a run of letters, digits and underscores, and the
run is no part of a longer one. -/
structure Run (front run back : List Char) : Prop where
  filled : run ≠ []
  inside : ∀ c ∈ run, Lexeme.continuesWord c
  before : ∀ c ∈ front.getLast?, Lexeme.continuesWord c = false
  behind : ∀ c ∈ back.head?, Lexeme.continuesWord c = false

def leadingDigits (chars : List Char) : List Char := chars.takeWhile Char.isDigit

def leadingNumber (chars : List Char) : Nat := Nat.ofDigitChars 10 (leadingDigits chars) 0

/-- What every source with tokens fulfils, said of its characters alone. -/
structure Lexical (chars : List Char) : Prop where
  known : ∀ c ∈ chars, isKnown c
  paired : ∀ front back, chars = front ++ '!' :: back → back.head? = some '='
  bounded : ∀ front run back, chars = front ++ run ++ back → Run front run back →
    leadingNumber run ≤ 0x7fffffffffffffff

/-- What stands between `front` and the end of a source begins with a violation, to be complained
about with `text`. -/
inductive Violation : (front rest text : List Char) → Prop where
  | foreign {front rest : List Char} {c : Char} (unknown : isKnown c = false) : Violation front (c :: rest) [c]
  | unpaired {front rest : List Char} (alone : rest.head? ≠ some '=') : Violation front ('!' :: rest) ['!']
  | large {front run back : List Char} (maximal : Run front run back)
      (beyond : 0x7fffffffffffffff < leadingNumber run) : Violation front (run ++ back) (leadingDigits run)

/-- A source is lexical if nothing is violated in it. -/
theorem lexical_iff {chars : List Char} :
    Lexical chars ↔ ∀ front rest text, chars = front ++ rest → ¬ Violation front rest text := by
  constructor
  · intro lexical front rest text cut violation
    cases violation with
    | @foreign rest c unknown =>
      have known := lexical.known c (by rw [cut]; simp)
      simp [unknown] at known
    | unpaired alone => exact alone (lexical.paired _ _ cut)
    | large maximal beyond =>
      rw [← List.append_assoc] at cut
      exact absurd (lexical.bounded _ _ _ cut maximal) (Nat.not_le.mpr beyond)
  · intro clean
    refine ⟨fun c member => ?_, fun front back cut => ?_, fun front run back cut maximal => ?_⟩
    · obtain ⟨front, back, cut⟩ := List.append_of_mem member
      by_contra unknown
      exact clean _ _ _ cut (.foreign (by simpa using unknown))
    · by_contra alone
      exact clean _ _ _ cut (.unpaired alone)
    · by_contra large
      rw [List.append_assoc] at cut
      exact clean _ _ _ cut (.large maximal (Nat.not_le.mp large))

theorem isKnown_of_continuesWord {c : Char} (inside : Lexeme.continuesWord c) : isKnown c := by
  simp [isKnown, inside]

/-- The digits at the front of a text are those at the front of the run that it begins with. -/
theorem leadingDigits_takeWhile (chars : List Char) :
    leadingDigits (chars.takeWhile Lexeme.continuesWord) = leadingDigits chars := by
  rw [leadingDigits, leadingDigits, List.takeWhile_takeWhile]
  congr 1
  funext c
  by_cases digit : c.isDigit
  · simp [digit, continuesWord_of_isDigit digit]
  · simp [digit]

private theorem Run.leading {front run back : List Char} (maximal : Run front run back) :
    leadingDigits (run ++ back) = leadingDigits run := by
  rw [← leadingDigits_takeWhile, takeWhile_of_stop maximal.inside maximal.behind]

section
variable {front rest text : List Char} {c : Char}

/-- The forms of a violation, by the character that it begins with. -/
theorem Violation.form (violation : Violation front (c :: rest) text) :
    (isKnown c = false) ∨ (c = '!' ∧ rest.head? ≠ some '=') ∨
      (c.isDigit ∧ (∀ d ∈ front.getLast?, Lexeme.continuesWord d = false) ∧
        0x7fffffffffffffff < leadingNumber (c :: rest)) := by
  generalize whole : c :: rest = chars at violation
  cases violation with
  | foreign unknown =>
    cases whole
    exact .inl unknown
  | unpaired alone =>
    cases whole
    exact .inr (.inl ⟨rfl, alone⟩)
  | @large run back maximal beyond =>
    have numbered : leadingNumber (run ++ back) = leadingNumber run := by
      rw [leadingNumber, maximal.leading, leadingNumber]
    rw [← numbered, ← whole] at beyond
    refine .inr (.inr ⟨?_, maximal.before, whole ▸ beyond⟩)
    by_contra undigited
    simp [leadingNumber, leadingDigits, undigited] at beyond

/-- A number that is too large, at the beginning of a run. -/
theorem Violation.ofDigit (digit : c.isDigit) (before : ∀ d ∈ front.getLast?, Lexeme.continuesWord d = false)
    (beyond : 0x7fffffffffffffff < leadingNumber (c :: rest)) :
    Violation front (c :: rest) (leadingDigits (c :: rest)) := by
  let run := (c :: rest).takeWhile Lexeme.continuesWord
  have maximal : Run front run ((c :: rest).dropWhile Lexeme.continuesWord) := by
    refine ⟨?_, List.all_eq_true.mp List.all_takeWhile, before, head_dropWhile _ _⟩
    simp [run, continuesWord_of_isDigit digit]
  have large := Violation.large maximal (by rwa [leadingNumber, leadingDigits_takeWhile])
  rwa [List.takeWhile_append_dropWhile, leadingDigits_takeWhile] at large

end

theorem Violation.filled {front rest text : List Char} (violation : Violation front rest text) : rest ≠ [] := by
  cases violation with
  | foreign => nofun
  | unpaired => nofun
  | large maximal => simp [maximal.filled]

/-- What a violation begins with is no equals sign, and it does not go on with a run in front of it. -/
theorem Violation.apart {front rest text : List Char} (violation : Violation front rest text) :
    ∀ c ∈ rest.head?, c ≠ '=' ∧ (Lexeme.continuesWord c → ∀ d ∈ front.getLast?, Lexeme.continuesWord d = false) := by
  intro c first
  obtain ⟨others, rfl⟩ := List.head?_eq_some_iff.mp first
  rcases violation.form with unknown | ⟨rfl, -⟩ | ⟨digit, before, -⟩
  · refine ⟨?_, fun inside => ?_⟩
    · rintro rfl
      cases unknown
    · rw [isKnown_of_continuesWord inside] at unknown
      cases unknown
  · exact ⟨by decide, fun inside => absurd inside (by decide)⟩
  · refine ⟨?_, fun _ => before⟩
    rintro rfl
    cases digit

/-- No violation begins in the part of a source that is done. -/
def Quiet (done rest : List Char) : Prop :=
  ∀ front back text, done ++ rest = front ++ back → front.length < done.length → ¬ Violation front back text

def Ready (done rest : List Char) : Prop :=
  ∀ c ∈ rest.head?, c.isDigit → ∀ d ∈ done.getLast?, Lexeme.continuesWord d = false

/-- More of a source is done, if nothing is violated in it. -/
theorem Quiet.onward {done text back : List Char} (quiet : Quiet done (text ++ back))
    (clean : ∀ before c after, text = before ++ c :: after →
      ∀ complaint, ¬ Violation (done ++ before) (c :: (after ++ back)) complaint) :
    Quiet (done ++ text) back := by
  intro front rest complaint cut shorter violation
  rw [List.append_assoc] at cut
  by_cases earlier : front.length < done.length
  · exact quiet front rest complaint cut earlier violation
  · obtain ⟨before, rfl, parted⟩ : ∃ before, front = done ++ before ∧ text ++ back = before ++ rest := by
      rcases List.append_eq_append_iff.mp cut with ⟨before, same, parted⟩ | ⟨more, same, parted⟩
      · exact ⟨before, same, parted⟩
      · have none : more = [] := by
          rw [same, List.length_append] at earlier
          exact List.length_eq_zero_iff.mp (by omega)
        subst none
        exact ⟨[], by simpa using same.symm, by simpa using parted.symm⟩
    rcases List.append_eq_append_iff.mp parted with ⟨more, rfl, -⟩ | ⟨after, rfl, rfl⟩
    · simp only [List.length_append] at shorter
      omega
    · cases after with
      | nil => simp at shorter
      | cons c after => exact clean before c after rfl complaint violation

theorem blank_plain {c : Char} (blank : Text.isBlank c) :
    isKnown c ∧ c ≠ '!' ∧ c.isDigit = false ∧ Lexeme.continuesWord c = false := by
  simp only [Text.isBlank, Bool.or_eq_true, decide_eq_true_eq] at blank
  rcases blank with (((rfl | rfl) | rfl) | rfl) | rfl
  all_goals decide

theorem mark_plain {mark : String} (known : mark ∈ punctuators) :
    ∀ c ∈ mark.toList, isKnown c ∧ c.isDigit = false ∧ Lexeme.continuesWord c = false ∧ (c = '!' → mark = "!=") := by
  have plain : (punctuators.all fun mark => mark.toList.all fun c => isKnown c && !c.isDigit &&
      !Lexeme.continuesWord c && (c != '!' || mark == "!=")) = true := by decide
  intro c member
  have checked := List.all_eq_true.mp (List.all_eq_true.mp plain mark known) c member
  simp only [Bool.and_eq_true, Bool.not_eq_true', Bool.or_eq_true, bne_iff_ne, beq_iff_eq] at checked
  exact ⟨checked.1.1.1, checked.1.1.2, checked.1.2, fun same => checked.2.resolve_left fun other => other same⟩

private theorem Quiet.behindBlank {done rest : List Char} {c : Char} (quiet : Quiet done (c :: rest))
    (blank : Text.isBlank c) : Quiet (done ++ [c]) rest := by
  obtain ⟨known, unmarked, undigited, -⟩ := blank_plain blank
  apply Quiet.onward quiet
  intro before d after parted complaint violation
  obtain rfl : c = d := by
    have member : d ∈ [c] := by rw [parted]; simp
    exact (List.mem_singleton.mp member).symm
  rcases violation.form with unknown | ⟨alone, -⟩ | ⟨digit, -, -⟩
  · simp [known] at unknown
  · exact unmarked alone
  · simp [undigited] at digit

private theorem ready_behindBlank {done rest : List Char} {c : Char} (blank : Text.isBlank c) : Ready (done ++ [c]) rest := by
  intro next _ _ d last
  obtain rfl : c = d := by simpa using last
  exact (blank_plain blank).2.2.2

section
variable {done text back : List Char} {kind : TokenKind}

/-- A violation in letters, digits and underscores is a number, and it begins with them. -/
theorem Violation.leads {before after complaint : List Char} {c : Char}
    (violation : Violation (done ++ before) (c :: (after ++ back)) complaint)
    (inside : ∀ d ∈ before ++ c :: after, Lexeme.continuesWord d) :
    before = [] ∧ c.isDigit ∧ 0x7fffffffffffffff < leadingNumber (c :: (after ++ back)) := by
  have member : c ∈ before ++ c :: after := by simp
  rcases violation.form with unknown | ⟨rfl, -⟩ | ⟨digit, outside, beyond⟩
  · rw [isKnown_of_continuesWord (inside c member)] at unknown
    cases unknown
  · exact absurd (inside _ member) (by decide)
  · refine ⟨?_, digit, beyond⟩
    by_contra filled
    have last := outside (before.getLast filled) (by simp [List.getLast?_eq_some_getLast filled])
    rw [inside _ (by simp)] at last
    cases last

/-- Nothing is violated inside of a punctuator. -/
theorem clean_of_mark {mark : String} (known : mark ∈ punctuators) {before after : List Char} {c : Char}
    (parted : mark.toList = before ++ c :: after) (complaint : List Char) :
    ¬ Violation (done ++ before) (c :: (after ++ back)) complaint := by
  intro violation
  obtain ⟨known, undigited, -, paired⟩ := mark_plain known c (by rw [parted]; simp)
  rcases violation.form with unknown | ⟨rfl, alone⟩ | ⟨digit, -, -⟩
  · simp [known] at unknown
  · obtain rfl := paired rfl
    have spelling : ['!', '='] = before ++ '!' :: after := parted
    cases before with
    | nil =>
      obtain rfl := (List.cons.inj spelling).2
      exact alone rfl
    | cons d others => cases others <;> simp at spelling
  · simp [undigited] at digit

/-- Nothing is violated inside of what spells a kind. -/
theorem clean_of_spells (spelled : Spells text kind) (stops : Stops kind back) {before after : List Char} {c : Char}
    (parted : text = before ++ c :: after) (complaint : List Char) :
    ¬ Violation (done ++ before) (c :: (after ++ back)) complaint := by
  rcases spelled.form with ⟨value, rfl, -, numeric, denoted⟩ | ⟨name, rfl, identifier, rfl⟩ | ⟨mark, known, rfl, rfl⟩
  · intro violation
    obtain ⟨rfl, -, beyond⟩ := violation.leads fun d member => continuesWord_of_isDigit (numeric d (parted ▸ member))
    rw [List.nil_append] at parted
    rw [← List.cons_append, ← parted, leadingNumber, leadingDigits, takeWhile_of_stop numeric stops] at beyond
    have bounded := value.toInt_lt
    omega
  · intro violation
    obtain ⟨head, others, same, begins, inside⟩ := identifier
    rw [same] at parted
    have letters : ∀ d ∈ before ++ c :: after, Lexeme.continuesWord d := by
      rw [← parted]
      exact List.forall_mem_cons.mpr ⟨continuesWord_of_startsWord begins, inside⟩
    obtain ⟨rfl, digit, -⟩ := violation.leads letters
    obtain rfl : head = c := (List.cons.inj parted).1
    rw [isDigit_eq_false_of_startsWord begins] at digit
    cases digit
  · exact clean_of_mark known parted complaint

/-- Behind a lexeme no run goes on with a digit. -/
theorem ready_of_spells (spelled : Spells text kind) (stops : Stops kind back) : Ready (done ++ text) back := by
  intro next first digit d last
  rcases spelled.form with ⟨value, rfl, -⟩ | ⟨name, rfl, -, rfl⟩ | ⟨mark, known, rfl, rfl⟩
  · rw [show next.isDigit = false from stops next first] at digit
    cases digit
  · have apart := stops next first
    rw [continues_word, continuesWord_of_isDigit digit] at apart
    cases apart
  · rw [List.getLast?_append_of_ne_nil _ spelled.filled] at last
    exact (mark_plain known d (List.mem_of_getLast? last)).2.2.1

end

/-- Where no lexeme begins, something is violated. -/
theorem violation_of_longest {done rest text : List Char} {c : Char} (ready : Ready done (c :: rest))
    (dark : Text.isBlank c = false) (refused : Lexeme.longest c rest = .error text) :
    Violation done (c :: rest) text := by
  by_cases digit : c.isDigit
  · have leading : leadingDigits (c :: rest) = c :: rest.takeWhile Char.isDigit := by simp [leadingDigits, digit]
    rw [longest_of_digit digit, ← leading] at refused
    split at refused
    next => cases refused
    next beyond =>
      cases refused
      exact .ofDigit digit (ready c rfl digit) (Nat.not_le.mp beyond)
  · rw [Lexeme.longest, if_neg digit] at refused
    split at refused
    next => cases refused
    next unlettered =>
      split at refused
      next => cases refused
      next unmarked =>
        cases refused
        unfold Lexeme.punctuator? at unmarked
        split at unmarked
        next => cases unmarked
        next single =>
          split at unmarked
          next => cases unmarked
          next strange =>
            by_cases alone : c = '!'
            · subst alone
              exact .unpaired (by simpa using single)
            · apply Violation.foreign
              simp_all [isKnown, Lexeme.startsWord, Lexeme.continuesWord, Char.isAlphanum]

/-- What scanning the rest of a source says about the whole source, when nothing is violated in the
part that is done. -/
theorem scanFrom_verdict {offset : Nat} {done rest : List Char} (place : offset = Text.byteSize done)
    (quiet : Quiet done rest) (ready : Ready done rest) :
    (∃ tokens, Token.scanFrom offset rest = .ok tokens ∧ Quiet (done ++ rest) []) ∨
      ∃ front text back, done ++ rest = front ++ (text ++ back) ∧
        Token.scanFrom offset rest = .error ⟨String.ofList text, Text.byteSize front⟩ ∧
        Violation front (text ++ back) text ∧ Quiet front (text ++ back) := by
  fun_induction Token.scanFrom offset rest generalizing done with
  | case1 offset => exact .inl ⟨_, rfl, by simpa using quiet⟩
  | case2 offset c rest blank ih =>
    simpa using ih (by simp [place]) (quiet.behindBlank blank) (ready_behindBlank blank)
  | case3 offset c rest dark text refused =>
    obtain ⟨-, back, cut⟩ := longest_eq_error refused
    have violation := violation_of_longest ready (by simpa using dark) refused
    rw [cut] at violation quiet ⊢
    exact .inr ⟨done, text, back, rfl, by rw [place], violation, quiet⟩
  | case4 offset c rest dark lexeme found size =>
    rename_i ih
    obtain ⟨⟨_, _, head⟩, -⟩ := longest_eq_ok found
    obtain ⟨back, cut, spelled, stops⟩ := longest_spells found
    rw [drop_of_cut cut head] at ih ⊢
    rw [cut] at quiet ⊢
    have onward := quiet.onward fun before c after parted complaint => clean_of_spells spelled stops parted complaint
    have verdict := ih (by simp [place, size]) onward (ready_of_spells spelled stops)
    rw [List.append_assoc] at verdict
    rcases verdict with ⟨tokens, scanned, clean⟩ | ⟨front, text, rest, same, failed, first⟩
    · exact .inl ⟨_, by rw [scanned]; rfl, clean⟩
    · exact .inr ⟨front, text, rest, same, by rw [failed]; rfl, first⟩

/-- What violates something in front of a violation does so in the whole source, too. -/
theorem Violation.further {front before after rest text complaint : List Char} (violation : Violation front rest text)
    (parted : front = before ++ after) (earlier : Violation before after complaint) :
    ∃ complaint, Violation before (after ++ rest) complaint := by
  cases earlier with
  | foreign unknown => exact ⟨_, .foreign unknown⟩
  | @unpaired others alone =>
    refine ⟨_, .unpaired ?_⟩
    cases others with
    | nil => exact fun first => (violation.apart '=' first).1 rfl
    | cons c others => exact alone
  | @large run back maximal beyond =>
    refine ⟨leadingDigits run, ?_⟩
    rw [List.append_assoc]
    refine .large ⟨maximal.filled, maximal.inside, maximal.before, ?_⟩ beyond
    cases back with
    | cons c others => exact maximal.behind
    | nil =>
      intro c first
      by_contra inside
      have last := (violation.apart c first).2 (by simpa using inside) (run.getLast maximal.filled)
        (by simp [parted, List.getLast?_append, List.getLast?_eq_some_getLast maximal.filled])
      rw [maximal.inside _ (List.getLast_mem _)] at last
      cases last

/-- What stands in front of the first violation is lexical. -/
theorem lexical_front {front rest text : List Char} (violation : Violation front rest text)
    (quiet : Quiet front rest) : Lexical front := by
  rw [lexical_iff]
  intro before after complaint parted earlier
  obtain ⟨complaint, whole⟩ := violation.further parted earlier
  refine quiet before (after ++ rest) complaint (by rw [parted, List.append_assoc]) ?_ whole
  have positive := List.length_pos_iff.mpr earlier.filled
  rw [parted, List.length_append]
  omega

private theorem lexical_of_quiet {chars : List Char} (quiet : Quiet chars []) : Lexical chars := by
  rw [lexical_iff]
  intro front rest text cut violation
  refine quiet front rest text (by rw [cut, List.append_nil]) ?_ violation
  have positive := List.length_pos_iff.mpr violation.filled
  rw [cut, List.length_append]
  omega

/-- No violation has a smaller offset than one with nothing violated in front of it. -/
theorem Quiet.first {front rest other back text : List Char} (quiet : Quiet front rest)
    (cut : front ++ rest = other ++ back) (violation : Violation other back text) :
    Text.byteSize front ≤ Text.byteSize other := by
  have longer : front.length ≤ other.length := by
    by_contra shorter
    exact quiet other back text cut (Nat.not_le.mp shorter) violation
  obtain ⟨more, rfl⟩ := List.prefix_of_prefix_length_le ⟨rest, cut⟩ ⟨back, rfl⟩ longer
  rw [Text.byteSize_append]
  omega

/-- A place of a source at which a character begins or the source ends. -/
def Boundary (source : String) (place : Nat) : Prop := String.Pos.Raw.IsValid source ⟨place⟩

theorem boundary_of_cut {source : String} {front back : List Char} (cut : source.toList = front ++ back) :
    Boundary source (Text.byteSize front) := by
  refine String.Pos.Raw.isValid_iff_exists_append.mpr ⟨String.ofList front, String.ofList back, ?_, ?_⟩
  · rw [← String.ofList_append, ← cut, String.ofList_toList]
  · rw [String.rawEndPos, utf8ByteSize_ofList]

/-- The tokens of a part at the front of a source begin and end between its characters. -/
theorem boundaries_of_scan {source : String} {front back : List Char} {tokens : List Token}
    (cut : source.toList = front ++ back) (scanned : scan (String.ofList front) = .ok tokens) :
    ∀ token ∈ tokens, Boundary source token.offset ∧ Boundary source token.limit := by
  intro token member
  obtain ⟨body, whole, tiles⟩ := tiles_of_scanned (scan_eq_ok_iff.mp scanned)
  rw [String.toList_ofList, Nat.zero_add] at *
  rw [whole] at member
  rcases List.mem_append.mp member with inside | last
  · obtain ⟨before, text, after, same, begins, size, -⟩ := tiles.spelled token inside
    rw [Nat.zero_add] at begins
    subst same
    rw [Token.limit, begins, size, ← Text.byteSize_append]
    exact ⟨boundary_of_cut (by rw [cut, List.append_assoc, List.append_assoc]),
      boundary_of_cut (by rw [cut, List.append_assoc])⟩
  · obtain rfl := List.mem_singleton.mp last
    exact ⟨boundary_of_cut cut, boundary_of_cut cut⟩

/-- Scanning gives tokens or stops where the first violation begins. -/
theorem scan_cases (source : String) :
    (∃ tokens, scan source = .ok tokens ∧ Lexical source.toList) ∨
      ∃ front text back, source.toList = front ++ (text ++ back) ∧
        scan source = .error (.lexeme (String.ofList text) (Text.byteSize front)) ∧
        Violation front (text ++ back) text ∧ Quiet front (text ++ back) := by
  have start : 0 = Text.byteSize [] := rfl
  have quiet : Quiet [] source.toList := nofun
  rcases scanFrom_verdict start quiet nofun with ⟨tokens, scanned, clean⟩ | ⟨front, text, back, cut, failed, first⟩
  · exact .inl ⟨tokens, by rw [scan, Token.scan, scanned]; rfl, lexical_of_quiet clean⟩
  · exact .inr ⟨front, text, back, cut, by rw [scan, Token.scan, failed]; rfl, first⟩

private theorem scan_lexical {source : String} (lexical : Lexical source.toList) : ∃ tokens, scan source = .ok tokens := by
  rcases scan_cases source with ⟨tokens, scanned, -⟩ | ⟨front, text, back, cut, -, violation, -⟩
  · exact ⟨tokens, scanned⟩
  · exact absurd violation (lexical_iff.mp lexical _ _ _ cut)

/-- A source has tokens if and only if it is lexical. Otherwise scanning complains about the first
violation, what stands in front of that has tokens, and in both cases every token and the text that
is complained about lie between characters of the source. -/
theorem scan_verdict (source : String) :
    ((∃ tokens, scan source = .ok tokens) ↔ Lexical source.toList) ∧
    (∀ tokens, scan source = .ok tokens →
      ∀ token ∈ tokens, Boundary source token.offset ∧ Boundary source token.limit) ∧
    (¬ Lexical source.toList → ∃ front text back tokens,
      source.toList = front ++ (text ++ back) ∧
      scan source = .error (.lexeme (String.ofList text) (Text.byteSize front)) ∧
      Violation front (text ++ back) text ∧
      (∀ other rest complaint, source.toList = other ++ rest → Violation other rest complaint →
        Text.byteSize front ≤ Text.byteSize other) ∧
      Boundary source (Text.byteSize front) ∧ Boundary source (Text.byteSize front + Text.byteSize text) ∧
      scan (String.ofList front) = .ok tokens ∧
      ∀ token ∈ tokens, Boundary source token.offset ∧ Boundary source token.limit) := by
  refine ⟨⟨?_, scan_lexical⟩, ?_, ?_⟩
  · rintro ⟨tokens, scanned⟩
    rcases scan_cases source with ⟨-, -, lexical⟩ | ⟨front, text, back, -, failed, -⟩
    · exact lexical
    · rw [failed] at scanned
      cases scanned
  · intro tokens scanned
    have whole : source.toList = source.toList ++ [] := (List.append_nil _).symm
    exact boundaries_of_scan whole (by rw [String.ofList_toList, scanned])
  · intro violated
    rcases scan_cases source with ⟨-, -, lexical⟩ | ⟨front, text, back, cut, failed, violation, quiet⟩
    · exact absurd lexical violated
    · have lexical : Lexical (String.ofList front).toList := by
        rw [String.toList_ofList]
        exact lexical_front violation quiet
      obtain ⟨tokens, scanned⟩ := scan_lexical lexical
      refine ⟨front, text, back, tokens, cut, failed, violation, ?_, boundary_of_cut cut, ?_, scanned,
        boundaries_of_scan cut scanned⟩
      · intro other rest complaint same violates
        exact quiet.first (cut.symm.trans same) violates
      · rw [← Text.byteSize_append]
        exact boundary_of_cut (by rw [cut, List.append_assoc])

example : Token.scan "1a2 <== é" = .error ⟨"é", 8⟩ := by decide +kernel

end Stackwise.Proofs.ScanVerdicts
