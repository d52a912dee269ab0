import Stackwise.Proofs.Scanning
import Stackwise.Proofs.SourceTerms

/-! What a lexeme spells. A text spells a number, a word or a punctuator by its characters alone, and
what may not follow it is the character that would make it longer. The longest lexeme that a text
begins with is the one text that spells something and ends where it must. -/

namespace Stackwise.Proofs.Lexemes
open ListingText SourceTerms

def keywords : List String := ["if", "else", "def"]

def punctuators : List String :=
  ["==", "!=", "<=", ">=", "<", ">", "=", "\x7b", "\x7d", "(", ")", ";", ",", "+", "-", "*", "/"]

/-- The kind of token that a text spells. -/
inductive Spells : List Char → TokenKind → Prop where
  | number {digits : List Char} {value : Int64} (filled : digits ≠ []) (numeric : ∀ c ∈ digits, c.isDigit)
      (denoted : value.toInt = Nat.ofDigitChars 10 digits 0) : Spells digits (.number value)
  | returnWord : Spells "return".toList .returnWord
  | keyword {word : String} (kept : word ∈ keywords) : Spells word.toList (.symbol word)
  | name {name : String} (identifier : Identifier name) (free : name ∉ "return" :: keywords) :
      Spells name.toList (.name name)
  | mark {mark : String} (known : mark ∈ punctuators) : Spells mark.toList (.symbol mark)

def continues : TokenKind → Char → Bool
  | .number _, next => next.isDigit
  | .name _, next | .returnWord, next => Lexeme.continuesWord next
  | .symbol text, next =>
    if text ∈ keywords then Lexeme.continuesWord next
    else if text = "<" ∨ text = ">" ∨ text = "=" then next = '='
    else false
  | .endOfInput, _ => false

def Stops (kind : TokenKind) (back : List Char) : Prop := ∀ next ∈ back.head?, continues kind next = false

theorem head_dropWhile (passes : Char → Bool) (chars : List Char) :
    ∀ next ∈ (chars.dropWhile passes).head?, passes next = false := by
  intro next first
  have stopped := List.head?_dropWhile_not passes chars
  rw [Option.mem_def.mp first] at stopped
  exact stopped

theorem isDigit_eq_false_of_startsWord {c : Char} (begins : Lexeme.startsWord c) : c.isDigit = false := by
  change ((decide (c.val ≥ 'A'.val ∧ c.val ≤ 'Z'.val) || (decide (c.val ≥ 'a'.val) && decide (c.val ≤ 'z'.val))) ||
    decide (c = '_')) = true at begins
  simp only [Bool.or_eq_true, Bool.and_eq_true, decide_eq_true_eq, UInt32.le_iff_toNat_le] at begins
  have code : (65 ≤ c.toNat ∧ c.toNat ≤ 90) ∨ (97 ≤ c.toNat ∧ c.toNat ≤ 122) ∨ c.toNat = 95 := by
    rcases begins with (upper | lower) | rfl
    · exact .inl upper
    · exact .inr (.inl lower)
    · exact .inr (.inr rfl)
  have above : 57 < c.toNat := by omega
  have outside : ¬ c.val ≤ '9'.val := by
    rw [UInt32.le_iff_toNat_le]
    exact Nat.not_le.mpr above
  show (decide (c.val ≥ '0'.val) && decide (c.val ≤ '9'.val)) = false
  rw [decide_eq_false outside, Bool.and_false]

private theorem magnitude_beyond {limit : Nat} {overflow : Text.Numeral.Flaw} {digits : List Char}
    (numeric : ∀ c ∈ digits, c.isDigit) {value : Nat} (within : value ≤ limit)
    (beyond : limit < Nat.ofDigitChars 10 digits value) :
    Text.Numeral.magnitude limit overflow value digits = .error overflow := by
  induction digits generalizing value with
  | nil => exact absurd beyond (Nat.not_lt.mpr within)
  | cons c rest ih =>
    have digit : c.isDigit := numeric c (by simp)
    rw [Text.Numeral.magnitude, if_pos digit]
    by_cases small : 10 * value + Text.Numeral.digitValue c ≤ limit
    · simp only [small, if_true]
      exact ih (fun d member => numeric d (by simp [member])) small beyond
    · simp only [small, if_false]

/-- Digits are read as the number that they denote, if a word can hold it. -/
theorem read_digits {digits : List Char} (filled : digits ≠ []) (numeric : ∀ c ∈ digits, c.isDigit) :
    Text.Numeral.read digits =
      if Nat.ofDigitChars 10 digits 0 ≤ Text.Numeral.greatest then .ok (Nat.ofDigitChars 10 digits 0 : Int)
      else .error .tooLarge := by
  have unsigned : Text.Numeral.read digits =
      (Text.Numeral.magnitude Text.Numeral.greatest .tooLarge 0 digits).map Int.ofNat := by
    obtain ⟨first, rest, rfl⟩ := List.exists_cons_of_ne_nil filled
    have digit : first.isDigit := numeric first (by simp)
    unfold Text.Numeral.read
    split <;> simp_all
  rw [unsigned]
  split
  next within =>
    rw [magnitude_digits _ numeric 0 within]
    rfl
  next beyond =>
    rw [magnitude_beyond numeric (Nat.zero_le _) (Nat.not_le.mp beyond)]
    rfl

theorem continues_word (name : String) (next : Char) :
    continues (Lexeme.word name) next = Lexeme.continuesWord next := by
  unfold Lexeme.word
  split
  · rfl
  · split
    next kept => exact if_pos (by simpa [keywords] using kept)
    next => rfl

private theorem spells_word {name : String} (identifier : Identifier name) : Spells name.toList (Lexeme.word name) := by
  unfold Lexeme.word
  split
  next leaving =>
    subst leaving
    exact .returnWord
  next leaving =>
    split
    next kept => exact .keyword (by simpa [keywords] using kept)
    next free => exact .name identifier (by simp_all [keywords])

private theorem word_keyword {name : String} (kept : name ∈ keywords) :
    Identifier name ∧ Lexeme.word name = .symbol name := by
  simp only [keywords, List.mem_cons, List.not_mem_nil, or_false] at kept
  rcases kept with rfl | rfl | rfl
  · exact ⟨⟨'i', ['f'], rfl, rfl, List.all_eq_true.mp rfl⟩, rfl⟩
  · exact ⟨⟨'e', ['l', 's', 'e'], rfl, rfl, List.all_eq_true.mp rfl⟩, rfl⟩
  · exact ⟨⟨'d', ['e', 'f'], rfl, rfl, List.all_eq_true.mp rfl⟩, rfl⟩

/-- A text spells a number, the word that it is, or a punctuator. -/
theorem Spells.form {text : List Char} {kind : TokenKind} (spelled : Spells text kind) :
    (∃ value : Int64, kind = .number value ∧ text ≠ [] ∧ (∀ c ∈ text, c.isDigit) ∧
      value.toInt = Nat.ofDigitChars 10 text 0) ∨
    (∃ name, text = name.toList ∧ Identifier name ∧ kind = Lexeme.word name) ∨
    ∃ mark ∈ punctuators, text = mark.toList ∧ kind = .symbol mark := by
  cases spelled with
  | @number digits value filled numeric denoted => exact .inl ⟨value, rfl, filled, numeric, denoted⟩
  | returnWord =>
    exact .inr (.inl ⟨"return", rfl, ⟨'r', ['e', 't', 'u', 'r', 'n'], rfl, rfl, List.all_eq_true.mp rfl⟩, rfl⟩)
  | @keyword word kept => exact .inr (.inl ⟨word, rfl, (word_keyword kept).1, (word_keyword kept).2.symm⟩)
  | @name name identifier free =>
    refine .inr (.inl ⟨name, rfl, identifier, ?_⟩)
    simp only [keywords, List.mem_cons, List.not_mem_nil, or_false, not_or] at free
    simp [Lexeme.word, free]
  | @mark mark known => exact .inr (.inr ⟨mark, known, rfl, rfl⟩)

private theorem spells_mark {mark : List Char} (known : String.ofList mark ∈ punctuators) :
    Spells mark (.symbol (String.ofList mark)) := by
  simpa using Spells.mark known

theorem Spells.filled {text : List Char} {kind : TokenKind} (spelled : Spells text kind) : text ≠ [] := by
  rcases spelled.form with ⟨value, -, filled, -⟩ | ⟨name, rfl, ⟨first, rest, same, -⟩, -⟩ | ⟨mark, known, rfl, -⟩
  · exact filled
  · simp [same]
  · have marked : ∀ mark ∈ punctuators, mark.toList ≠ [] := by decide
    exact marked mark known

theorem Spells.ne_endOfInput {text : List Char} {kind : TokenKind} (spelled : Spells text kind) :
    kind ≠ .endOfInput := by
  cases spelled <;> nofun

section
variable {c : Char} {rest back text : List Char}

/-- A punctuator is the longest one that stands there. -/
theorem punctuator?_spells {mark : List Char} (found : Lexeme.punctuator? c rest = some mark) :
    ∃ back, c :: rest = mark ++ back ∧ Spells mark (.symbol (String.ofList mark)) ∧
      Stops (.symbol (String.ofList mark)) back := by
  unfold Lexeme.punctuator? at found
  split at found
  next double =>
    cases found
    obtain ⟨others, rfl⟩ := List.head?_eq_some_iff.mp double.1
    refine ⟨others, rfl, ?_⟩
    rcases double.2 with rfl | rfl | rfl | rfl
    all_goals exact ⟨spells_mark (by decide), fun _ _ => rfl⟩
  next single =>
    split at found
    next known =>
      cases found
      refine ⟨rest, rfl, ?_⟩
      have apart (sign : c = '=' ∨ c = '!' ∨ c = '<' ∨ c = '>') :
          ∀ next ∈ rest.head?, decide (next = '=') = false := by
        intro next first
        rw [Option.mem_def] at first
        simpa [first, sign] using single
      simp only [List.mem_cons, List.not_mem_nil, or_false] at known
      rcases known with rfl | rfl | rfl | known
      · exact ⟨spells_mark (by decide), apart (by decide)⟩
      · exact ⟨spells_mark (by decide), apart (by decide)⟩
      · exact ⟨spells_mark (by decide), apart (by decide)⟩
      · rcases known with rfl | rfl | rfl | rfl | rfl | rfl | rfl | rfl | rfl | rfl
        all_goals exact ⟨spells_mark (by decide), fun _ _ => rfl⟩
    next => cases found

private theorem punctuator?_of_spells {mark : String} (cut : c :: rest = mark.toList ++ back) (known : mark ∈ punctuators)
    (stops : Stops (.symbol mark) back) :
    c.isDigit = false ∧ Lexeme.startsWord c = false ∧ Lexeme.punctuator? c rest = some mark.toList := by
  simp only [punctuators, List.mem_cons, List.not_mem_nil, or_false] at known
  have apart (sign : mark = "<" ∨ mark = ">" ∨ mark = "=") : ¬ back.head? = some '=' := by
    intro first
    rcases sign with rfl | rfl | rfl
    all_goals simpa [continues, keywords] using stops '=' first
  rcases known with rfl | rfl | rfl | rfl | rfl | rfl | rfl | known
  iterate 4
    · simp only [String.reduceToList, List.cons_append, List.nil_append, List.cons.injEq] at cut
      obtain ⟨rfl, rfl⟩ := cut
      exact ⟨rfl, rfl, rfl⟩
  iterate 3
    · simp only [String.reduceToList, List.cons_append, List.nil_append, List.cons.injEq] at cut
      obtain ⟨rfl, rfl⟩ := cut
      exact ⟨rfl, rfl, by simp [Lexeme.punctuator?, apart]⟩
  · rcases known with rfl | rfl | rfl | rfl | rfl | rfl | rfl | rfl | rfl | rfl
    all_goals
      simp only [String.reduceToList, List.cons_append, List.nil_append, List.cons.injEq] at cut
      obtain ⟨rfl, rfl⟩ := cut
      exact ⟨rfl, rfl, by simp [Lexeme.punctuator?]⟩

theorem isDigit_digits (digit : c.isDigit) : ∀ d ∈ c :: rest.takeWhile Char.isDigit, d.isDigit :=
  List.forall_mem_cons.mpr ⟨digit, List.all_eq_true.mp List.all_takeWhile⟩

/-- Digits are one lexeme, if a word can hold the number that they denote. -/
theorem longest_of_digit (digit : c.isDigit) :
    Lexeme.longest c rest =
      if Nat.ofDigitChars 10 (c :: rest.takeWhile Char.isDigit) 0 ≤ Text.Numeral.greatest then
        .ok ⟨.number (Int64.ofInt (Nat.ofDigitChars 10 (c :: rest.takeWhile Char.isDigit) 0)),
          c :: rest.takeWhile Char.isDigit⟩
      else .error (c :: rest.takeWhile Char.isDigit) := by
  rw [Lexeme.longest, if_pos digit]
  simp only [read_digits (List.cons_ne_nil c _) (isDigit_digits digit)]
  by_cases within : Nat.ofDigitChars 10 (c :: rest.takeWhile Char.isDigit) 0 ≤ Text.Numeral.greatest
  · simp only [within, if_true]
  · simp only [within, if_false]

/-- The longest lexeme spells its kind, and what stands behind it does not continue it. -/
theorem longest_spells {lexeme : Lexeme} (found : Lexeme.longest c rest = .ok lexeme) :
    ∃ back, c :: rest = lexeme.chars ++ back ∧ Spells lexeme.chars lexeme.kind ∧ Stops lexeme.kind back := by
  by_cases digit : c.isDigit
  · rw [longest_of_digit digit] at found
    split at found
    next within =>
      cases found
      refine ⟨rest.dropWhile Char.isDigit, by simp, ?_, head_dropWhile _ _⟩
      refine .number (List.cons_ne_nil c _) (isDigit_digits digit) ?_
      rw [Text.Numeral.greatest] at within
      exact Int64.toInt_ofInt_of_le (by omega) (by omega)
    next => cases found
  · rw [Lexeme.longest, if_neg digit] at found
    split at found
    next begins =>
      cases found
      have identifier : Identifier (String.ofList (c :: rest.takeWhile Lexeme.continuesWord)) :=
        ⟨c, rest.takeWhile Lexeme.continuesWord, by simp, begins, List.all_eq_true.mp List.all_takeWhile⟩
      refine ⟨rest.dropWhile Lexeme.continuesWord, by simp, by simpa using spells_word identifier, ?_⟩
      intro next first
      rw [continues_word]
      exact head_dropWhile _ _ next first
    next =>
      split at found
      next mark marked =>
        cases found
        exact punctuator?_spells marked
      next => cases found

/-- A text that spells a kind and is not continued by what stands behind it is the longest lexeme. -/
theorem longest_of_spells {kind : TokenKind} (cut : c :: rest = text ++ back) (spelled : Spells text kind)
    (stops : Stops kind back) : Lexeme.longest c rest = .ok ⟨kind, text⟩ := by
  rcases spelled.form with ⟨value, rfl, filled, numeric, denoted⟩ | ⟨name, rfl, identifier, rfl⟩ |
    ⟨mark, known, rfl, rfl⟩
  · obtain ⟨first, digits, rfl⟩ := List.exists_cons_of_ne_nil filled
    rw [List.cons_append] at cut
    obtain ⟨rfl, rfl⟩ := List.cons.inj cut
    have within : Nat.ofDigitChars 10 (c :: digits) 0 ≤ Text.Numeral.greatest := by
      have bounded := value.toInt_lt
      rw [Text.Numeral.greatest]
      omega
    have run : (digits ++ back).takeWhile Char.isDigit = digits :=
      takeWhile_of_stop (fun d member => numeric d (by simp [member])) stops
    rw [longest_of_digit (numeric c (by simp)), run, if_pos within, ← denoted, Int64.ofInt_toInt]
  · obtain ⟨first, others, same, begins, inside⟩ := identifier
    rw [same] at cut ⊢
    rw [List.cons_append] at cut
    obtain ⟨rfl, rfl⟩ := List.cons.inj cut
    have run : (others ++ back).takeWhile Lexeme.continuesWord = others :=
      takeWhile_of_stop inside fun next first => (continues_word name next).symm.trans (stops next first)
    have whole : String.ofList (c :: others) = name := by rw [← same, String.ofList_toList]
    simp [Lexeme.longest, isDigit_eq_false_of_startsWord begins, begins, run, whole]
  · obtain ⟨undigited, unlettered, marked⟩ := punctuator?_of_spells cut known stops
    simp [Lexeme.longest, undigited, unlettered, marked]

end

end Stackwise.Proofs.Lexemes
