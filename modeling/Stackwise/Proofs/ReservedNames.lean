import Mathlib.Data.List.Induction
import Stackwise.Proofs.Printing
import Stackwise.Proofs.SourceTerms

/-! The language of the reserved names. They are the words and registers of the assembler, and also
names that no assembler knows: a numbered register with zeros in front of its number, or with more
than one size letter behind it. Every other identifier can be defined and called. -/

namespace Stackwise.Proofs.ReservedNames
open Assembly Grammar Derivations GrammarCompleteness Formation Printing SourceTerms

def lowered (name : String) : List Char := name.toList.map Char.toLower

def sizeLetters : List Char := ['d', 'w', 'b', 'l']

/-- The operand words and the registers of the assembler. -/
inductive Documented : List Char → Prop where
  | word {word : String} (listed : word ∈ operandWords) : Documented word.toList
  | plain {register : String} (listed : register ∈ plainRegisters) : Documented register.toList
  | base {register : String} (listed : register ∈ extendableRegisters) : Documented register.toList
  | wide {letter : Char} {register : String} (widens : letter = 'r' ∨ letter = 'e')
      (listed : register ∈ extendableRegisters) : Documented (letter :: register.toList)
  | numbered {number : Nat} (least : 8 ≤ number) (most : number ≤ 15) :
      Documented ('r' :: Nat.toDigits 10 number)
  | sized {number : Nat} {letter : Char} (least : 8 ≤ number) (most : number ≤ 15)
      (size : letter ∈ sizeLetters) : Documented ('r' :: (Nat.toDigits 10 number ++ [letter]))
  | family {family : String} {digits : List Char} (listed : family ∈ registerFamilies)
      (present : digits ≠ []) (numeric : ∀ c ∈ digits, c.isDigit) : Documented (family.toList ++ digits)

/-- A numbered register with zeros in front of its number, or with several size letters. -/
inductive Stretched : List Char → Prop where
  | register {zeros number : Nat} {letters : List Char} (least : 8 ≤ number) (most : number ≤ 15)
      (sizes : ∀ letter ∈ letters, letter ∈ sizeLetters) (extra : 0 < zeros ∨ 1 < letters.length) :
      Stretched ('r' :: (List.replicate zeros '0' ++ Nat.toDigits 10 number ++ letters))

section Numerals

private theorem digitChar_of_isDigit {c : Char} (numeric : c.isDigit) :
    c.toNat - '0'.toNat < 10 ∧ Nat.digitChar (c.toNat - '0'.toNat) = c := by
  have range : 48 ≤ c.toNat ∧ c.toNat ≤ 57 := by
    simpa [Char.isDigit, UInt32.le_iff_toNat_le] using numeric
  have zero : '0'.toNat = 48 := rfl
  refine ⟨by omega, Char.toNat_inj.mp ?_⟩
  rw [Nat.toNat_digitChar_of_lt_ten (by omega)]
  omega

/-- Digits are the numeral of their value behind zeros, or zeros alone. -/
theorem digits_eq {digits : List Char} (numeric : ∀ c ∈ digits, c.isDigit) :
    ∃ zeros, Nat.ofDigitChars 10 digits 0 = 0 ∧ digits = List.replicate zeros '0' ∨
      0 < Nat.ofDigitChars 10 digits 0 ∧
        digits = List.replicate zeros '0' ++ Nat.toDigits 10 (Nat.ofDigitChars 10 digits 0) := by
  induction digits using List.reverseRecOn with
  | nil => exact ⟨0, .inl ⟨rfl, rfl⟩⟩
  | append_singleton front c ih =>
    obtain ⟨small, rebuilt⟩ := digitChar_of_isDigit (numeric c (by simp))
    obtain ⟨zeros, known⟩ := ih fun c member => numeric c (by simp [member])
    rw [Nat.ofDigitChars_append, Nat.ofDigitChars_cons, Nat.ofDigitChars_nil]
    generalize Nat.ofDigitChars 10 front 0 = value at known
    generalize c.toNat - '0'.toNat = digit at small rebuilt
    have single : Nat.toDigits 10 digit = [c] := by rw [Nat.toDigits_of_lt_base small, rebuilt]
    rcases known with ⟨rfl, rfl⟩ | ⟨positive, rfl⟩
    · rcases Nat.eq_zero_or_pos digit with rfl | nonzero
      · refine ⟨zeros + 1, .inl ⟨rfl, ?_⟩⟩
        rw [← rebuilt, List.replicate_succ', Nat.digitChar]
        rfl
      · refine ⟨zeros, .inr ⟨by omega, ?_⟩⟩
        rw [Nat.mul_zero, Nat.zero_add, single]
    · refine ⟨zeros, .inr ⟨by omega, ?_⟩⟩
      rw [List.append_assoc, ← Nat.toDigits_append_toDigits (by decide) positive small, single]

theorem numeric_toDigits (zeros number : Nat) :
    ∀ c ∈ List.replicate zeros '0' ++ Nat.toDigits 10 number, c.isDigit := by
  intro c member
  rcases List.mem_append.mp member with zero | digit
  · rw [List.eq_of_mem_replicate zero]
    rfl
  · exact Nat.isDigit_of_mem_toDigits (by decide) (by decide) digit

theorem value_toDigits (zeros number : Nat) :
    Nat.ofDigitChars 10 (List.replicate zeros '0' ++ Nat.toDigits 10 number) 0 = number := by
  rw [Nat.ofDigitChars_append, Nat.ofDigitChars_replicate_zero, Nat.mul_zero, Nat.ofDigitChars_ten_toDigits]

private theorem index?_eq_some {text : List Char} (unsigned : '+' ∉ text) {index : Nat} :
    index? text = some index ↔ text ≠ [] ∧ (∀ c ∈ text, c.isDigit) ∧ Nat.ofDigitChars 10 text 0 = index := by
  have plain : text.head? ≠ some '+' := fun first => unsigned (List.mem_of_mem_head? first)
  simp [index?, plain, Nat.ofDigitChars_eq_foldl, and_assoc]

end Numerals

section Registers

def unsized (text : List Char) : List Char := (text.reverse.dropWhile (· ∈ sizeLetters)).reverse

theorem unsized_append {digits letters : List Char} (numeric : ∀ c ∈ digits, c.isDigit)
    (sizes : ∀ letter ∈ letters, letter ∈ sizeLetters) : unsized (digits ++ letters) = digits := by
  have apart : sizeLetters.all (!·.isDigit) = true := by decide
  have stays : digits.reverse.dropWhile (· ∈ sizeLetters) = digits.reverse := by
    rw [List.dropWhile_eq_self_iff]
    intro nonempty sized
    have digit := numeric _ (List.mem_reverse.mp (List.getElem_mem nonempty))
    have other := List.all_eq_true.mp apart _ (of_decide_eq_true sized)
    rw [digit] at other
    cases other
  rw [unsized, List.reverse_append, List.dropWhile_append_of_pos (by simpa using sizes), stays,
    List.reverse_reverse]

private theorem unsized_split (text : List Char) :
    ∃ letters, text = unsized text ++ letters ∧ ∀ letter ∈ letters, letter ∈ sizeLetters := by
  refine ⟨(text.reverse.takeWhile (· ∈ sizeLetters)).reverse, ?_, fun letter member => ?_⟩
  · rw [unsized, ← List.reverse_append, List.takeWhile_append_dropWhile, List.reverse_reverse]
  · have sized := List.mem_takeWhile_imp (List.mem_reverse.mp member)
    exact of_decide_eq_true sized

private theorem isNumberedRegister_eq (rest : List Char) :
    isNumberedRegister ('r' :: rest) =
      (index? (unsized rest)).any fun index => 8 ≤ index && index ≤ 15 := by
  have same : (fun c => decide (c = 'd') || decide (c = 'w') || decide (c = 'b') || decide (c = 'l')) =
      fun c => decide (c ∈ sizeLetters) := by
    funext c
    simp [sizeLetters, Bool.or_assoc]
  simp only [isNumberedRegister, same, unsized]
  cases index? _ with
  | none => rfl
  | some index => rfl

/-- A numbered register has its number, with any zeros in front of it and any size letters behind. -/
theorem isNumberedRegister_iff {name : List Char} (unsigned : '+' ∉ name) :
    isNumberedRegister name = true ↔ ∃ zeros number letters, 8 ≤ number ∧ number ≤ 15 ∧
      (∀ letter ∈ letters, letter ∈ sizeLetters) ∧
      name = 'r' :: (List.replicate zeros '0' ++ Nat.toDigits 10 number ++ letters) := by
  constructor
  · intro accepted
    obtain ⟨rest, rfl⟩ : ∃ rest, name = 'r' :: rest := by
      unfold isNumberedRegister at accepted
      split at accepted
      next rest => exact ⟨rest, rfl⟩
      next => cases accepted
    obtain ⟨letters, whole, sizes⟩ := unsized_split rest
    have clear : '+' ∉ unsized rest := by
      intro member
      apply unsigned
      rw [whole]
      simp [member]
    rw [isNumberedRegister_eq, Option.any_eq_true] at accepted
    obtain ⟨index, found, range⟩ := accepted
    obtain ⟨-, numeric, rfl⟩ := (index?_eq_some clear).mp found
    simp only [Bool.and_eq_true, decide_eq_true_eq] at range
    obtain ⟨zeros, ⟨none, -⟩ | ⟨-, digits⟩⟩ := digits_eq numeric
    · omega
    · exact ⟨zeros, _, letters, range.1, range.2, sizes, by rw [← digits, ← whole]⟩
  · rintro ⟨zeros, number, letters, least, most, sizes, rfl⟩
    have numeric := numeric_toDigits zeros number
    have clear : '+' ∉ List.replicate zeros '0' ++ Nat.toDigits 10 number := fun member => by
      simpa using numeric '+' member
    have present : List.replicate zeros '0' ++ Nat.toDigits 10 number ≠ [] := by simp [Nat.toDigits_ne_nil]
    rw [isNumberedRegister_eq, unsized_append numeric sizes,
      (index?_eq_some clear).mpr ⟨present, numeric, value_toDigits zeros number⟩]
    simp [least, most]

theorem isWideRegister_iff {name : List Char} :
    isWideRegister name = true ↔ ∃ register ∈ extendableRegisters, name = register.toList ∨
      ∃ letter, (letter = 'r' ∨ letter = 'e') ∧ name = letter :: register.toList := by
  simp only [isWideRegister, List.any_eq_true, Bool.or_eq_true, decide_eq_true_eq, or_assoc,
    or_and_right, exists_or, exists_eq_left]

theorem isFamilyRegister_iff {name : List Char} :
    isFamilyRegister name = true ↔ ∃ family ∈ registerFamilies, ∃ digits, digits ≠ [] ∧
      (∀ c ∈ digits, c.isDigit) ∧ name = family.toList ++ digits := by
  simp only [isFamilyRegister, List.any_eq_true, Bool.and_eq_true, List.isPrefixOf_iff_prefix,
    List.all_eq_true, Bool.not_eq_true', List.isEmpty_eq_false_iff]
  constructor
  · rintro ⟨family, listed, ⟨⟨digits, rfl⟩, present⟩, numeric⟩
    rw [List.drop_left] at present numeric
    exact ⟨family, listed, digits, present, numeric, rfl⟩
  · rintro ⟨family, listed, digits, present, numeric, rfl⟩
    refine ⟨family, listed, ?_⟩
    rw [List.drop_left]
    exact ⟨⟨⟨digits, rfl⟩, present⟩, numeric⟩

end Registers

section Spellings

variable {text : List Char}

/-- A documented text that is an `r` in front of a digit is a numbered register. -/
theorem Documented.of_digit {rest : List Char} (documented : Documented ('r' :: rest))
    (numeric : rest[0]?.any Char.isDigit = true) : ∃ number letters,
      rest = Nat.toDigits 10 number ++ letters ∧ letters.length ≤ 1 ∧ ∀ letter ∈ letters, letter ∈ sizeLetters := by
  have words : ∀ word ∈ operandWords ++ plainRegisters ++ extendableRegisters,
      word.toList[1]?.any Char.isDigit = false := by decide
  have bases : ∀ register ∈ extendableRegisters, register.toList[0]?.any Char.isDigit = false := by decide
  have families : ∀ family ∈ registerFamilies, family.toList.head?.any (· ≠ 'r') = true := by decide
  generalize same : 'r' :: rest = text at documented
  cases documented with
  | @word spelling listed | @plain spelling listed | @base spelling listed =>
    have free := words spelling (by simp [listed])
    rw [← same, List.getElem?_cons_succ, numeric] at free
    cases free
  | wide _ listed =>
    have free := bases _ listed
    rw [← (List.cons.inj same).2, numeric] at free
    cases free
  | numbered => exact ⟨_, [], by simpa using (List.cons.inj same).2, by simp, by simp⟩
  | @sized _ letter _ _ size => exact ⟨_, [letter], (List.cons.inj same).2, by simp, by simpa using size⟩
  | family listed =>
    obtain ⟨first, found, other⟩ := (Option.any_eq_true _ _).mp (families _ listed)
    have heads := congrArg List.head? same
    rw [List.head?_cons, List.head?_append, found, Option.some_or] at heads
    cases heads
    exact absurd rfl (of_decide_eq_true other)

/-- No register of the assembler is stretched. -/
theorem Stretched.undocumented (stretched : Stretched text) : ¬ Documented text := by
  obtain @⟨zeros, number, letters, least, most, sizes, extra⟩ := stretched
  intro documented
  have numeric := numeric_toDigits zeros number
  have value := value_toDigits zeros number
  generalize spelled : List.replicate zeros '0' ++ Nat.toDigits 10 number = digits at documented numeric value
  have present : digits ≠ [] := by
    rintro rfl
    simp [Nat.toDigits_ne_nil] at spelled
  have begins : (digits ++ letters)[0]?.any Char.isDigit = true := by
    obtain ⟨c, others, rfl⟩ := List.exists_cons_of_ne_nil present
    exact numeric c List.mem_cons_self
  obtain ⟨index, suffix, same, single, ends⟩ := documented.of_digit begins
  have standard : ∀ c ∈ Nat.toDigits 10 index, c.isDigit := numeric_toDigits 0 index
  obtain rfl : digits = Nat.toDigits 10 index := by
    rw [← unsized_append numeric sizes, ← unsized_append standard ends, same]
  obtain rfl := List.append_cancel_left same
  rw [Nat.ofDigitChars_ten_toDigits] at value
  have length := congrArg List.length spelled
  rw [value, List.length_append, List.length_replicate] at length
  omega

/-- The number of a register, with zeros in front and size letters behind it. -/
theorem documented_or_stretched {zeros number : Nat} {letters : List Char} (least : 8 ≤ number)
    (most : number ≤ 15) (sizes : ∀ letter ∈ letters, letter ∈ sizeLetters) :
    Documented ('r' :: (List.replicate zeros '0' ++ Nat.toDigits 10 number ++ letters)) ∨
      Stretched ('r' :: (List.replicate zeros '0' ++ Nat.toDigits 10 number ++ letters)) := by
  by_cases extra : 0 < zeros ∨ 1 < letters.length
  · exact .inr (.register least most sizes extra)
  · obtain rfl : zeros = 0 := by omega
    left
    match letters with
    | [] =>
      rw [List.append_nil]
      exact .numbered least most
    | [letter] => exact .sized least most (sizes letter List.mem_cons_self)
    | _ :: _ :: _ => simp at extra

end Spellings

section Names

/-- Only a plus sign is a plus sign in lower case. -/
theorem plus_of_toLower {c : Char} (plus : c.toLower = '+') : c = '+' := by
  unfold Char.toLower at plus
  split at plus
  next upper =>
    have least : 65 ≤ c.val.toNat := upper.1
    have most : c.val.toNat ≤ 90 := upper.2
    have code : (c.val + ('a'.val - 'A'.val)).toNat = 43 := congrArg Char.toNat plus
    have shift : ('a'.val - 'A'.val).toNat = 32 := rfl
    rw [UInt32.toNat_add, shift] at code
    omega
  next => exact plus

variable {name : String}

theorem isReserved_iff :
    isReserved name = true ↔ String.ofList (lowered name) ∈ operandWords ∨
      String.ofList (lowered name) ∈ plainRegisters ∨ isWideRegister (lowered name) = true ∨
      isNumberedRegister (lowered name) = true ∨ isFamilyRegister (lowered name) = true := by
  simp [isReserved, lowered, or_assoc]

/-- An identifier has no sign, and lower case does not bring one in. -/
theorem unsigned_lowered (identifier : Identifier name) : '+' ∉ lowered name := by
  obtain ⟨first, rest, same, begins, continues⟩ := identifier
  intro member
  obtain ⟨c, inside, plus⟩ := List.mem_map.mp member
  rw [plus_of_toLower plus, same] at inside
  rcases List.mem_cons.mp inside with rfl | inside
  · cases begins
  · cases continues '+' inside

private theorem reserved_of_documented (unsigned : '+' ∉ lowered name) (documented : Documented (lowered name)) :
    isReserved name = true := by
  rw [isReserved_iff]
  generalize lowered name = text at unsigned documented
  cases documented with
  | word listed => exact .inl (by simpa using listed)
  | plain listed => exact .inr (.inl (by simpa using listed))
  | base listed => exact .inr (.inr (.inl (isWideRegister_iff.mpr ⟨_, listed, .inl rfl⟩)))
  | wide widens listed => exact .inr (.inr (.inl (isWideRegister_iff.mpr ⟨_, listed, .inr ⟨_, widens, rfl⟩⟩)))
  | @numbered number least most =>
    refine .inr (.inr (.inr (.inl ((isNumberedRegister_iff unsigned).mpr ?_))))
    exact ⟨0, number, [], least, most, by simp, by simp⟩
  | @sized number letter least most size =>
    refine .inr (.inr (.inr (.inl ((isNumberedRegister_iff unsigned).mpr ?_))))
    exact ⟨0, number, [letter], least, most, by simpa using size, by simp⟩
  | family listed present numeric =>
    exact .inr (.inr (.inr (.inr (isFamilyRegister_iff.mpr ⟨_, listed, _, present, numeric, rfl⟩))))

private theorem reserved_of_stretched (unsigned : '+' ∉ lowered name) (stretched : Stretched (lowered name)) :
    isReserved name = true := by
  rw [isReserved_iff]
  generalize lowered name = text at unsigned stretched
  obtain @⟨zeros, number, letters, least, most, sizes, -⟩ := stretched
  refine .inr (.inr (.inr (.inl ((isNumberedRegister_iff unsigned).mpr ?_))))
  exact ⟨zeros, number, letters, least, most, sizes, rfl⟩

private theorem documented_or_stretched_of_reserved (unsigned : '+' ∉ lowered name) (reserved : isReserved name = true) :
    Documented (lowered name) ∨ Stretched (lowered name) := by
  rw [isReserved_iff] at reserved
  generalize lowered name = text at unsigned reserved
  rcases reserved with operand | plain | wide | numbered | indexed
  · exact .inl (by simpa using Documented.word operand)
  · exact .inl (by simpa using Documented.plain plain)
  · obtain ⟨register, listed, rfl | ⟨letter, widens, rfl⟩⟩ := isWideRegister_iff.mp wide
    · exact .inl (.base listed)
    · exact .inl (.wide widens listed)
  · obtain ⟨zeros, number, letters, least, most, sizes, rfl⟩ := (isNumberedRegister_iff unsigned).mp numbered
    exact documented_or_stretched least most sizes
  · obtain ⟨family, listed, digits, present, numeric, rfl⟩ := isFamilyRegister_iff.mp indexed
    exact .inl (.family listed present numeric)

end Names

section Acceptance

/-- A call of the name with any arguments is read as such. -/
def ReadAsCall (name : String) : Prop :=
  ∀ {naming opening closing mark ending : Token} {tokens : List Token} {values : List Term},
    naming.kind = .name name → opening.is "(" → Derives true tokens (.arguments values) → values.length ≤ 6 →
    closing.is ")" → mark.is ";" → ending.isEnding →
    parse (naming :: opening :: (tokens ++ [closing, mark, ending])) = .ok [.call name (numbered values)]

def ReadAsDefinition (name : String) : Prop :=
  ∀ {word naming opening closing ending : Token} {listed tokens : List Token} {parameters : List String}
    {body : List Term}, word.is "def" → naming.kind = .name name → opening.is "(" →
    Parameters listed parameters → parameters.length ≤ 6 → parameters.Nodup → closing.is ")" →
    Derives true tokens (.block body) → ending.isEnding →
    parse (word :: naming :: opening :: (listed ++ closing :: (tokens ++ [ending]))) =
      .ok [.function name parameters body]

theorem parse_statement {tokens : List Token} {ending : Token} {term : Term}
    (derived : Derives true tokens (.statement term)) (ends : ending.isEnding) :
    parse (tokens ++ [ending]) = .ok [term] := by
  have program : Derives true (tokens ++ []) (.program [term]) := .sequence derived .empty
  rw [List.append_nil] at program
  have whole : (tokens ++ [ending]).takeWhile (!·.isEnding) = tokens := by
    rw [List.takeWhile_append_of_pos (by simpa using not_ending derived)]
    simp [ends]
  rw [parse_eq_ok_iff, whole]
  exact (reads program).1

variable {name : String}

theorem readAsCall_iff : ReadAsCall name ↔ isReserved name = false := by
  constructor
  · intro accepted
    have read := @accepted (word name) (symbol "(") (symbol ")") (symbol ";") (Token.ending 0) [] []
      rfl rfl .noArgument (by decide) rfl rfl rfl
    have formed := wellFormed_of_parse read _ List.mem_cons_self
    cases formed with
    | expression inner =>
      cases inner with
      | call callable => exact callable
  · intro callable naming opening closing mark ending tokens values named opened inner few closed marked ends
    have call : Derives true (naming :: opening :: (tokens ++ [closing]))
        (Place.primary.phrase (.call name (numbered values))) := .call named callable opened inner few closed
    have expression : Derives true (naming :: opening :: (tokens ++ [closing]))
        (Place.expression.phrase (.call name (numbered values))) := derives_looser (by decide) (by decide) call
    have statement := parse_statement (.terminated expression marked) ends
    simpa using statement

private theorem readAsDefinition_iff : ReadAsDefinition name ↔ isReserved name = false := by
  constructor
  · intro accepted
    have read := @accepted (symbol "def") (word name) (symbol "(") (symbol ")") (Token.ending 0) []
      [symbol "\x7b", symbol "\x7d"] [] [] rfl rfl rfl (.inl ⟨rfl, rfl⟩) (by decide) (by decide) rfl
      (.braces rfl .empty rfl) rfl
    have formed := wellFormed_of_parse read _ List.mem_cons_self
    cases formed with
    | expression inner => cases inner
    | function callable => exact callable
  · intro callable _ _ _ _ _ _ _ _ _ begins named opened parametric few distinct closed inner ends
    have statement := parse_statement
      (.declared (.function begins named callable opened parametric few distinct closed inner)) ends
    simpa using statement

end Acceptance

/-- An identifier is reserved exactly if it is a word or register of the assembler or a stretched
register, which is never both. Every other identifier is read as the name of a call and of a
definition. -/
theorem reserved_iff_documented_or_stretched {name : String} (identifier : Identifier name) :
    (isReserved name = true ↔ Documented (lowered name) ∨ Stretched (lowered name)) ∧
    (Stretched (lowered name) → ¬ Documented (lowered name)) ∧
    (¬ Documented (lowered name) → ¬ Stretched (lowered name) → ReadAsCall name ∧ ReadAsDefinition name) := by
  have unsigned := unsigned_lowered identifier
  have spelled : isReserved name = true ↔ Documented (lowered name) ∨ Stretched (lowered name) := by
    refine ⟨documented_or_stretched_of_reserved unsigned, ?_⟩
    rintro (documented | stretched)
    · exact reserved_of_documented unsigned documented
    · exact reserved_of_stretched unsigned stretched
  refine ⟨spelled, Stretched.undocumented, fun other plain => ?_⟩
  have callable : isReserved name = false := by
    rw [← Bool.not_eq_true, spelled]
    exact not_or.mpr ⟨other, plain⟩
  exact ⟨readAsCall_iff.mpr callable, readAsDefinition_iff.mpr callable⟩

theorem r16_accepted : isReserved "r16" = false ∧ ReadAsCall "r16" ∧ ReadAsDefinition "r16" := by
  have identifier : Identifier "r16" := ⟨'r', ['1', '6'], by decide, by decide, List.all_eq_true.mp (by decide)⟩
  obtain ⟨known, -, accepted⟩ := reserved_iff_documented_or_stretched identifier
  have callable : isReserved "r16" = false := by decide
  rw [callable, Bool.false_eq_true, false_iff, not_or] at known
  exact ⟨callable, accepted known.1 known.2⟩

/-- With a zero in front of its number or a second size letter, the name of a register is still
refused, although no register is so called. -/
theorem r08_r8dd_refused :
    (Identifier "r08" ∧ isReserved "r08" = true ∧ ¬ Documented (lowered "r08") ∧ ¬ ReadAsCall "r08") ∧
    Identifier "r8dd" ∧ isReserved "r8dd" = true ∧ ¬ Documented (lowered "r8dd") ∧ ¬ ReadAsCall "r8dd" := by
  have zero : lowered "r08" = 'r' :: (List.replicate 1 '0' ++ Nat.toDigits 10 8 ++ []) := by decide
  have letter : lowered "r8dd" = 'r' :: (List.replicate 0 '0' ++ Nat.toDigits 10 8 ++ ['d', 'd']) := by decide
  refine ⟨⟨?_, by decide, ?_, ?_⟩, ?_, by decide, ?_, ?_⟩
  · exact ⟨'r', ['0', '8'], by decide, by decide, List.all_eq_true.mp (by decide)⟩
  · rw [zero]
    exact (Stretched.register (by decide) (by decide) (by simp) (.inl (by decide))).undocumented
  · rw [readAsCall_iff]
    decide
  · exact ⟨'r', ['8', 'd', 'd'], by decide, by decide, List.all_eq_true.mp (by decide)⟩
  · rw [letter]
    exact (Stretched.register (by decide) (by decide) (by simp [sizeLetters]) (.inr (by decide))).undocumented
  · rw [readAsCall_iff]
    decide

end Stackwise.Proofs.ReservedNames
