import Mathlib.Data.List.Basic
import Stackwise.Assembly.Listing
import Stackwise.Machine.Program

/-! A listing is read back from its text. The condition is that its numbers fit a word and
that its labels and comments are words, and then every line of the text loads as the line it
was printed from. -/

namespace Stackwise.Proofs.ListingText
open Assembly Machine

def Representable (value : Int) : Prop := -0x8000000000000000 ≤ value ∧ value < 0x8000000000000000

theorem magnitude_digits {limit : Nat} (overflow : Text.Numeral.Flaw) {digits : List Char}
    (numeric : ∀ c ∈ digits, c.isDigit) (value : Nat)
    (within : Nat.ofDigitChars 10 digits value ≤ limit) :
    Text.Numeral.magnitude limit overflow value digits = .ok (Nat.ofDigitChars 10 digits value) := by
  induction digits generalizing value with
  | nil => simp [Text.Numeral.magnitude]
  | cons c rest ih =>
    rw [Nat.ofDigitChars_cons] at within ⊢
    have grows : 10 * value + (c.toNat - '0'.toNat) ≤
        Nat.ofDigitChars 10 rest (10 * value + (c.toNat - '0'.toNat)) := by
      rw [Nat.ofDigitChars_eq_ofDigitChars_zero]
      have positive : 0 < 10 ^ rest.length := Nat.pow_pos (by decide)
      exact Nat.le_trans (Nat.le_mul_of_pos_left _ positive) (Nat.le_add_right _ _)
    have digit : c.isDigit := numeric c (by simp)
    rw [Text.Numeral.magnitude, if_pos digit]
    have small : 10 * value + Text.Numeral.digitValue c ≤ limit := Nat.le_trans grows within
    simp only [small, if_true]
    exact ih (fun d member => numeric d (by simp [member])) _ within

private theorem magnitude_toDigits {limit : Nat} {overflow : Text.Numeral.Flaw} {value : Nat}
    (within : value ≤ limit) :
    Text.Numeral.magnitude limit overflow 0 (Nat.toDigits 10 value) = .ok value := by
  have numeric : ∀ c ∈ Nat.toDigits 10 value, c.isDigit := fun c member =>
    Nat.isDigit_of_mem_toDigits (by decide) (by decide) member
  simpa using magnitude_digits overflow numeric 0 (by simpa using within)

/-- A word is read back from its decimal numeral. -/
theorem read_toString {value : Int} (fits : Representable value) :
    Text.Numeral.read (toString value).toList = .ok value := by
  obtain ⟨least, greatest⟩ := fits
  have signed (size : Nat) : ∃ first rest, Nat.toDigits 10 size = first :: rest ∧ first.isDigit := by
    obtain ⟨first, rest, same⟩ := List.exists_cons_of_ne_nil (Nat.toDigits_ne_nil (n := size) (b := 10))
    refine ⟨first, rest, same, Nat.isDigit_of_mem_toDigits (b := 10) (n := size) (by decide) (by decide) ?_⟩
    simp [same]
  cases value with
  | ofNat size =>
    have text : (toString (Int.ofNat size)).toList = Nat.toDigits 10 size := by
      show (Nat.repr size).toList = _
      simp
    have within : size ≤ Text.Numeral.greatest := by
      simp only [Text.Numeral.greatest, Int.ofNat_eq_natCast] at greatest ⊢
      omega
    obtain ⟨first, rest, same, digit⟩ := signed size
    have plus : first ≠ '+' := by rintro rfl; simp at digit
    have minus : first ≠ '-' := by rintro rfl; simp at digit
    rw [text]
    have read : Text.Numeral.read (Nat.toDigits 10 size) =
        (Text.Numeral.magnitude Text.Numeral.greatest .tooLarge 0 (Nat.toDigits 10 size)).map Int.ofNat := by
      rw [same]
      unfold Text.Numeral.read
      split <;> simp_all
    rw [read, magnitude_toDigits within]
    rfl
  | negSucc size =>
    have text : (toString (Int.negSucc size)).toList = '-' :: Nat.toDigits 10 (size + 1) := by
      show ("-" ++ Nat.repr (size + 1)).toList = _
      simp
    have within : size + 1 ≤ Text.Numeral.leastSize := by
      simp only [Text.Numeral.leastSize]
      omega
    obtain ⟨first, rest, same, digit⟩ := signed (size + 1)
    have read : Text.Numeral.read ('-' :: Nat.toDigits 10 (size + 1)) =
        (Text.Numeral.magnitude Text.Numeral.leastSize .tooSmall 0 (Nat.toDigits 10 (size + 1))).map
          (fun size => -Int.ofNat size) := by
      rw [same]
      unfold Text.Numeral.read
      split <;> simp_all
    rw [text, read, magnitude_toDigits within]
    rfl

/-- A character of an operand or label: no blank, comma, colon or hash sign. -/
def isSolid (c : Char) : Bool := !Text.isWhiteSpace c && c != ',' && c != ':' && c != '#'

def Solid (chars : List Char) : Prop := chars ≠ [] ∧ ∀ c ∈ chars, isSolid c

instance (chars : List Char) : Decidable (Solid chars) :=
  decidable_of_iff (chars.isEmpty = false ∧ chars.all isSolid = true) (by simp [Solid])

theorem Solid.append {front back : List Char} (first : Solid front) (second : Solid back) :
    Solid (front ++ back) := by
  refine ⟨by simp [first.1], fun c member => ?_⟩
  rcases List.mem_append.mp member with member | member
  · exact first.2 c member
  · exact second.2 c member

private theorem isSolid_of_isDigit {c : Char} (digit : c.isDigit) : isSolid c := by
  simp only [Char.isDigit, Bool.and_eq_true, decide_eq_true_eq] at digit
  have lower : 48 ≤ c.toNat := by simpa using UInt32.le_iff_toNat_le.mp digit.1
  have upper : c.toNat ≤ 57 := by simpa using UInt32.le_iff_toNat_le.mp digit.2
  have differs (mark : Char) (outside : mark.toNat < 48 ∨ 57 < mark.toNat) : c ≠ mark := by
    rintro rfl
    omega
  simp only [isSolid, Bool.and_eq_true, bne_iff_ne, Bool.not_eq_true']
  refine ⟨⟨⟨?_, differs _ (by decide)⟩, differs _ (by decide)⟩, differs _ (by decide)⟩
  simp only [Text.isWhiteSpace, Bool.or_eq_false_iff, Bool.and_eq_false_iff, decide_eq_false_iff_not]
  omega

theorem solid_toDigits (size : Nat) : Solid (Nat.toDigits 10 size) :=
  ⟨Nat.toDigits_ne_nil, fun _ member =>
    isSolid_of_isDigit (Nat.isDigit_of_mem_toDigits (by decide) (by decide) member)⟩

private theorem solid_toString (value : Int) : Solid (toString value).toList := by
  cases value with
  | ofNat size =>
    show Solid (Nat.repr size).toList
    rw [Nat.toList_repr]
    exact solid_toDigits size
  | negSucc size =>
    show Solid ("-" ++ Nat.repr (size + 1)).toList
    rw [String.toList_append, Nat.toList_repr]
    exact Solid.append (by decide) (solid_toDigits _)

def registers : List Register :=
  [Register.rax, Register.rdi, Register.rsi, Register.rdx, Register.rcx, Register.r8, Register.r9,
    Register.rbp, Register.rsp, Register.al]

def LegibleOperand : Operand → Prop
  | .place (.register named) => named ∈ registers
  | .place (.memory base below) => base ∈ registers ∧ 0 ≤ below ∧ Representable below
  | .immediate value => Representable value

private theorem solid_register {register : Register} (known : register ∈ registers) :
    Solid register.name.toList := by
  simp only [registers, List.mem_cons, List.not_mem_nil, or_false] at known
  rcases known with rfl | rfl | rfl | rfl | rfl | rfl | rfl | rfl | rfl | rfl <;>
    decide

theorem solid_operand {operand : Operand} (legible : LegibleOperand operand) :
    Solid operand.text.toList := by
  match operand, legible with
  | .place (.register named), known => exact solid_register known
  | .immediate value, _ => exact solid_toString value
  | .place (.memory base below), ⟨known, _⟩ =>
    simp only [Operand.text, Place.text]
    split
    · simp only [String.toList_append]
      exact (Solid.append (by decide) (solid_register known)).append (by decide)
    · simp only [String.toList_append]
      exact ((((Solid.append (by decide) (solid_register known)).append
        (by decide)).append (solid_toString below)).append (by decide))

private theorem bne_of_free {mark : Char} {chars : List Char} (free : mark ∉ chars) :
    ∀ c ∈ chars, (c != mark) = true := by
  intro c member
  simp only [bne_iff_ne, ne_eq]
  rintro rfl
  exact free member

/-- What passes a test in front of what does not is all that is taken. -/
theorem takeWhile_of_stop {α : Type} {passes : α → Bool} {front back : List α} (all : ∀ x ∈ front, passes x)
    (stop : ∀ next ∈ back.head?, passes next = false) : (front ++ back).takeWhile passes = front := by
  rw [List.takeWhile_append_of_pos all]
  cases back with
  | nil => simp
  | cons next others => simp [stop next rfl]

theorem before_append {mark : Char} {front : List Char} (back : List Char) (free : mark ∉ front) :
    Text.before mark (front ++ mark :: back) = front := by
  rw [Text.before, List.takeWhile_append_of_pos (bne_of_free free)]
  simp

theorem after?_append {mark : Char} {front : List Char} (back : List Char) (free : mark ∉ front) :
    Text.after? mark (front ++ mark :: back) = some back := by
  rw [Text.after?, List.dropWhile_append_of_pos (bne_of_free free)]
  simp

theorem before_of_notMem {mark : Char} {chars : List Char} (free : mark ∉ chars) :
    Text.before mark chars = chars := by
  have whole := @List.takeWhile_append_of_pos _ (· != mark) chars [] (bne_of_free free)
  simpa [Text.before] using whole

private theorem after?_of_notMem {mark : Char} {chars : List Char} (free : mark ∉ chars) :
    Text.after? mark chars = none := by
  have dropped := @List.dropWhile_append_of_pos _ (· != mark) chars [] (bne_of_free free)
  rw [List.append_nil, List.dropWhile_nil] at dropped
  rw [Text.after?, dropped]
  rfl

theorem enclosed?_of_head {chars : List Char} (other : chars.head? ≠ some '[') :
    Text.enclosed? '[' ']' chars = none := by
  cases chars with
  | nil => rfl
  | cons c rest =>
    have different : c ≠ '[' := by simpa using other
    simp [Text.enclosed?, different]

private theorem enclosed?_brackets (inner : List Char) :
    Text.enclosed? '[' ']' ('[' :: (inner ++ [']'])) = some inner := by
  simp [Text.enclosed?]

private theorem head_toDigits (size : Nat) : (Nat.toDigits 10 size).head? ≠ some '[' := by
  intro first
  have member : '[' ∈ Nat.toDigits 10 size := List.mem_of_mem_head? first
  exact absurd (Nat.isDigit_of_mem_toDigits (by decide) (by decide) member) (by decide)

private theorem head_toString (value : Int) : (toString value).toList.head? ≠ some '[' := by
  cases value with
  | ofNat size =>
    show (Nat.repr size).toList.head? ≠ _
    rw [Nat.toList_repr]
    exact head_toDigits size
  | negSucc size =>
    show ("-" ++ Nat.repr (size + 1)).toList.head? ≠ _
    simp

private theorem read_register {register : Register} (known : register ∈ registers) :
    Operand.read register.name.toList = .ok (.place (.register register)) ∧
      '-' ∉ register.name.toList := by
  simp only [registers, List.mem_cons, List.not_mem_nil, or_false] at known
  rcases known with rfl | rfl | rfl | rfl | rfl | rfl | rfl | rfl | rfl | rfl <;>
    exact ⟨by rfl, by decide⟩

theorem read_operand {operand : Operand} (legible : LegibleOperand operand) :
    Operand.read operand.text.toList = .ok operand := by
  match operand, legible with
  | .place (.register named), known => exact (read_register known).1
  | .immediate value, fits =>
    simp only [Operand.text, Operand.read, enclosed?_of_head (head_toString value), read_toString fits]
  | .place (.memory base below), ⟨known, nonnegative, fits⟩ =>
    have free := (read_register known).2
    simp only [Operand.text, Place.text]
    split
    next zero =>
      have shape : ("[" ++ base.name ++ "]").toList = '[' :: (base.name.toList ++ [']']) := by simp
      simp only [Operand.read, shape, enclosed?_brackets, after?_of_notMem free, before_of_notMem free]
      simp [zero]
    next =>
      have shape : ("[" ++ base.name ++ "-" ++ toString below ++ "]").toList =
          '[' :: ((base.name.toList ++ '-' :: (toString below).toList) ++ [']']) := by
        simp
      simp only [Operand.read, shape, enclosed?_brackets, after?_append _ free, before_append _ free, read_toString fits]
      simp

theorem commaSeparated_of_notMem {chars : List Char} (free : ',' ∉ chars) :
    Text.commaSeparated chars = [chars] := by
  induction chars with
  | nil => rfl
  | cons c rest ih =>
    simp only [List.mem_cons, not_or] at free
    rw [Text.commaSeparated, ih free.2]
    rintro _ rfl
    exact absurd rfl free.1

private theorem commaSeparated_append {front : List Char} (back : List Char) (free : ',' ∉ front) :
    Text.commaSeparated (front ++ ',' :: ' ' :: back) = front :: Text.commaSeparated back := by
  induction front with
  | nil => rfl
  | cons c rest ih =>
    simp only [List.mem_cons, not_or] at free
    rw [List.cons_append, Text.commaSeparated, ih free.2]
    rintro _ rfl
    exact absurd rfl free.1

theorem Solid.free {chars : List Char} (solid : Solid chars) {mark : Char} (outside : isSolid mark = false) :
    mark ∉ chars := by
  intro member
  simp [solid.2 mark member] at outside

/-- A label that no operand could be mistaken for. -/
def LegibleLabel (name : String) : Prop := Solid name.toList ∧ name.toList.head? ≠ some '['

def LegibleInstruction : Instruction → Prop
  | .push source => LegibleOperand source
  | .pop target => LegibleOperand target
  | .mov target source | .movzb target source | .arithmetic _ target source =>
    LegibleOperand target ∧ LegibleOperand source
  | .cqo | .ret => True
  | .idiv divisor => LegibleOperand divisor
  | .cmp left right => LegibleOperand left ∧ LegibleOperand right
  | .set _ target => LegibleOperand target
  | .je label | .jmp label | .call label => LegibleLabel label

private theorem read_one {operand : Operand} (legible : LegibleOperand operand) :
    operand.text.toList ≠ [] ∧
      (Text.commaSeparated operand.text.toList).mapM Operand.read = .ok [operand] := by
  have solid := solid_operand legible
  refine ⟨solid.1, ?_⟩
  rw [commaSeparated_of_notMem (solid.free (by decide))]
  simp [read_operand legible, bind, Except.bind, pure, Except.pure]

private theorem read_two {first second : Operand} (one : LegibleOperand first) (two : LegibleOperand second) :
    (Text.commaSeparated (first.text.toList ++ ',' :: ' ' :: second.text.toList)).mapM Operand.read =
      .ok [first, second] := by
  have front := solid_operand one
  have back := solid_operand two
  rw [commaSeparated_append _ (front.free (by decide)), commaSeparated_of_notMem (back.free (by decide))]
  simp [read_operand one, read_operand two, bind, Except.bind, pure, Except.pure]

private theorem read_label {label : String} (legible : LegibleLabel label) :
    label.toList ≠ [] ∧
      ∃ operand, (Text.commaSeparated label.toList).mapM Operand.read = .ok [operand] := by
  obtain ⟨solid, unbracketed⟩ := legible
  refine ⟨solid.1, ?_⟩
  rw [commaSeparated_of_notMem (solid.free (by decide))]
  have read : ∃ operand, Operand.read label.toList = .ok operand := by
    simp only [Operand.read, enclosed?_of_head unbracketed]
    split
    · exact ⟨_, rfl⟩
    · exact ⟨_, rfl⟩
  obtain ⟨operand, same⟩ := read
  exact ⟨operand, by simp [same, bind, Except.bind, pure, Except.pure]⟩

/-- What reading a line finds: a mnemonic, and operands in the text behind it. -/
def Shows (line : List Char) (mnemonic : String) (rest : List Char) (operands : List Operand) : Prop :=
  Text.before ' ' line = mnemonic.toList ∧ Text.after? ' ' line = some rest ∧ rest ≠ [] ∧
    (Text.commaSeparated rest).mapM Operand.read = .ok operands

private theorem shows_one {operand : Operand} (mnemonic : String) (free : ' ' ∉ mnemonic.toList)
    (legible : LegibleOperand operand) :
    Shows (mnemonic ++ " " ++ operand.text).toList mnemonic operand.text.toList [operand] := by
  have shape : (mnemonic ++ " " ++ operand.text).toList =
      mnemonic.toList ++ ' ' :: operand.text.toList := by simp
  obtain ⟨nonempty, read⟩ := read_one legible
  rw [shape]
  exact ⟨before_append _ free, after?_append _ free, nonempty, read⟩

private theorem shows_two {first second : Operand} (mnemonic : String) (free : ' ' ∉ mnemonic.toList)
    (one : LegibleOperand first) (two : LegibleOperand second) :
    Shows (mnemonic ++ " " ++ first.text ++ ", " ++ second.text).toList mnemonic
      (first.text.toList ++ ',' :: ' ' :: second.text.toList) [first, second] := by
  have shape : (mnemonic ++ " " ++ first.text ++ ", " ++ second.text).toList =
      mnemonic.toList ++ ' ' :: (first.text.toList ++ ',' :: ' ' :: second.text.toList) := by simp
  rw [shape]
  exact ⟨before_append _ free, after?_append _ free, by simp, read_two one two⟩

private theorem shows_label {label : String} (mnemonic : String) (free : ' ' ∉ mnemonic.toList)
    (legible : LegibleLabel label) :
    ∃ operand, Shows (mnemonic ++ " " ++ label).toList mnemonic label.toList [operand] := by
  have shape : (mnemonic ++ " " ++ label).toList = mnemonic.toList ++ ' ' :: label.toList := by simp
  obtain ⟨nonempty, operand, read⟩ := read_label legible
  rw [shape]
  exact ⟨operand, before_append _ free, after?_append _ free, nonempty, read⟩

/-- Every legible instruction is read back from its text. -/
theorem read_instruction {instruction : Instruction} (legible : LegibleInstruction instruction) :
    Instruction.read instruction.text.toList = .ok instruction := by
  cases instruction with
  | cqo | ret => rfl
  | push source =>
    obtain ⟨before, after, nonempty, read⟩ := shows_one "push" (by decide) legible
    show Instruction.read ("push" ++ " " ++ source.text).toList = _
    rw [Instruction.read, before, after]
    simp [nonempty, read, bind, Except.bind, pure, Except.pure, Instruction.operandAt]
  | pop target =>
    obtain ⟨before, after, nonempty, read⟩ := shows_one "pop" (by decide) legible
    show Instruction.read ("pop" ++ " " ++ (Operand.place target).text).toList = _
    rw [Instruction.read, before, after]
    simp [nonempty, read, bind, Except.bind, pure, Except.pure, Instruction.operandAt, Instruction.target]
  | mov target source =>
    obtain ⟨before, after, nonempty, read⟩ := shows_two "mov" (by decide) legible.1 legible.2
    show Instruction.read ("mov" ++ " " ++ (Operand.place target).text ++ ", " ++ source.text).toList = _
    rw [Instruction.read, before, after]
    simp [read, bind, Except.bind, pure, Except.pure, Instruction.operandAt,
      Instruction.target, Instruction.targetAndSource]
  | arithmetic operation target source =>
    obtain ⟨before, after, nonempty, read⟩ :=
      shows_two operation.mnemonic (by cases operation <;> decide) legible.1 legible.2
    show Instruction.read (operation.mnemonic ++ " " ++ (Operand.place target).text ++ ", " ++
      source.text).toList = _
    rw [Instruction.read, before, after]
    cases operation <;>
      simp [read, bind, Except.bind, pure, Except.pure, Instruction.operandAt,
        Instruction.target, Instruction.targetAndSource, Arithmetic.mnemonic]
  | movzb target source =>
    obtain ⟨before, after, nonempty, read⟩ := shows_two "movzb" (by decide) legible.1 legible.2
    show Instruction.read ("movzb" ++ " " ++ (Operand.place target).text ++ ", " ++ source.text).toList = _
    rw [Instruction.read, before, after]
    simp [read, bind, Except.bind, pure, Except.pure, Instruction.operandAt,
      Instruction.target, Instruction.targetAndSource]
  | idiv divisor =>
    obtain ⟨before, after, nonempty, read⟩ := shows_one "idiv" (by decide) legible
    show Instruction.read ("idiv" ++ " " ++ divisor.text).toList = _
    rw [Instruction.read, before, after]
    simp [nonempty, read, bind, Except.bind, pure, Except.pure, Instruction.operandAt]
  | cmp left right =>
    obtain ⟨before, after, nonempty, read⟩ := shows_two "cmp" (by decide) legible.1 legible.2
    show Instruction.read ("cmp" ++ " " ++ left.text ++ ", " ++ right.text).toList = _
    rw [Instruction.read, before, after]
    simp [read, bind, Except.bind, pure, Except.pure, Instruction.operandAt]
  | set condition target =>
    obtain ⟨before, after, nonempty, read⟩ :=
      shows_one condition.mnemonic (by cases condition <;> decide) legible
    show Instruction.read (condition.mnemonic ++ " " ++ (Operand.place target).text).toList = _
    rw [Instruction.read, before, after]
    cases condition <;>
      simp [nonempty, read, bind, Except.bind, pure, Except.pure, Instruction.operandAt,
        Instruction.target, Condition.mnemonic]
  | je label =>
    obtain ⟨operand, before, after, nonempty, read⟩ := shows_label "je" (by decide) legible
    show Instruction.read ("je" ++ " " ++ label).toList = _
    rw [Instruction.read, before, after]
    simp [nonempty, read, bind, Except.bind, pure, Except.pure]
  | jmp label =>
    obtain ⟨operand, before, after, nonempty, read⟩ := shows_label "jmp" (by decide) legible
    show Instruction.read ("jmp" ++ " " ++ label).toList = _
    rw [Instruction.read, before, after]
    simp [nonempty, read, bind, Except.bind, pure, Except.pure]
  | call label =>
    obtain ⟨operand, before, after, nonempty, read⟩ := shows_label "call" (by decide) legible
    show Instruction.read ("call" ++ " " ++ label).toList = _
    rw [Instruction.read, before, after]
    simp [nonempty, read, bind, Except.bind, pure, Except.pure]

/-- What stands between the blanks of a line: it neither begins nor ends with a blank, holds
no hash sign or line feed, and is no label or directive. -/
structure Plain (chars : List Char) : Prop where
  head : ∃ c rest, chars = c :: rest ∧ Text.isWhiteSpace c = false ∧ c ≠ '.'
  last : ∃ front c, chars = front ++ [c] ∧ Text.isWhiteSpace c = false ∧ c ≠ ':'
  whole : '#' ∉ chars ∧ '\n' ∉ chars

theorem isSolid_iff {c : Char} :
    isSolid c ↔ Text.isWhiteSpace c = false ∧ c ≠ ',' ∧ c ≠ ':' ∧ c ≠ '#' := by
  simp [isSolid, and_assoc]

/-- A solid text without a leading dot is plain in front of anything that ends solidly. -/
theorem plain_append {front middle back : List Char} (solid : Solid front) (undotted : front.head? ≠ some '.')
    (free : '#' ∉ middle ∧ '\n' ∉ middle) (ended : Solid back) : Plain (front ++ middle ++ back) := by
  refine ⟨?_, ?_, ?_⟩
  · obtain ⟨c, rest, rfl⟩ := List.exists_cons_of_ne_nil solid.1
    refine ⟨c, rest ++ middle ++ back, rfl, (isSolid_iff.mp (solid.2 c (by simp))).1, ?_⟩
    simpa using undotted
  · have last := ended.2 _ (List.getLast_mem ended.1)
    refine ⟨front ++ middle ++ back.dropLast, back.getLast ended.1, ?_, (isSolid_iff.mp last).1,
      (isSolid_iff.mp last).2.2.1⟩
    rw [List.append_assoc _ back.dropLast, List.dropLast_concat_getLast]
  · have hash : isSolid '#' = false := by decide
    have feed : isSolid '\n' = false := by decide
    simp [solid.free hash, solid.free feed, free.1, free.2, ended.free hash, ended.free feed]

private theorem plain_one {operand : List Char} (mnemonic : String)
    (word : Solid mnemonic.toList ∧ mnemonic.toList.head? ≠ some '.') (solid : Solid operand) :
    Plain (mnemonic.toList ++ ' ' :: operand) := by
  have shape : mnemonic.toList ++ ' ' :: operand = mnemonic.toList ++ [' '] ++ operand := by simp
  rw [shape]
  exact plain_append word.1 word.2 (by decide) solid

private theorem plain_two {first second : List Char} (mnemonic : String)
    (word : Solid mnemonic.toList ∧ mnemonic.toList.head? ≠ some '.') (one : Solid first)
    (two : Solid second) : Plain (mnemonic.toList ++ ' ' :: (first ++ ',' :: ' ' :: second)) := by
  have shape : mnemonic.toList ++ ' ' :: (first ++ ',' :: ' ' :: second) =
      mnemonic.toList ++ (' ' :: (first ++ [',', ' '])) ++ second := by simp
  have hash : isSolid '#' = false := by decide
  have feed : isSolid '\n' = false := by decide
  rw [shape]
  exact plain_append word.1 word.2 (by simp [one.free hash, one.free feed]) two

theorem plain_instruction {instruction : Instruction} (legible : LegibleInstruction instruction) :
    Plain instruction.text.toList := by
  have word (mnemonic : String)
      (known : mnemonic ∈ ["push", "pop", "mov", "movzb", "add", "sub", "imul", "idiv", "cmp", "sete",
        "setne", "setl", "setle", "je", "jmp", "call"]) :
      Solid mnemonic.toList ∧ mnemonic.toList.head? ≠ some '.' := by
    simp only [List.mem_cons, List.not_mem_nil, or_false] at known
    rcases known with rfl | rfl | rfl | rfl | rfl | rfl | rfl | rfl | rfl | rfl | rfl | rfl | rfl |
      rfl | rfl | rfl <;> exact ⟨by decide, by decide⟩
  have atPlace {target : Place} (legible : LegibleOperand target) : Solid target.text.toList :=
    solid_operand legible
  cases instruction with
  | cqo => exact ⟨⟨'c', _, rfl, by decide, by decide⟩, ⟨['c', 'q'], 'o', rfl, by decide, by decide⟩, by decide⟩
  | ret => exact ⟨⟨'r', _, rfl, by decide, by decide⟩, ⟨['r', 'e'], 't', rfl, by decide, by decide⟩, by decide⟩
  | push source =>
    simpa [Instruction.text] using plain_one "push" (word _ (by decide)) (solid_operand legible)
  | pop target =>
    simpa [Instruction.text] using plain_one "pop" (word _ (by decide)) (atPlace legible)
  | idiv divisor =>
    simpa [Instruction.text] using plain_one "idiv" (word _ (by decide)) (solid_operand legible)
  | mov target source =>
    simpa [Instruction.text] using
      plain_two "mov" (word _ (by decide)) (atPlace legible.1) (solid_operand legible.2)
  | movzb target source =>
    simpa [Instruction.text] using
      plain_two "movzb" (word _ (by decide)) (atPlace legible.1) (solid_operand legible.2)
  | cmp left right =>
    simpa [Instruction.text] using
      plain_two "cmp" (word _ (by decide)) (solid_operand legible.1) (solid_operand legible.2)
  | arithmetic operation target source =>
    simpa [Instruction.text] using plain_two operation.mnemonic
      (word _ (by cases operation <;> decide)) (atPlace legible.1) (solid_operand legible.2)
  | set condition target =>
    simpa [Instruction.text] using plain_one condition.mnemonic
      (word _ (by cases condition <;> decide)) (atPlace legible)
  | je label => simpa [Instruction.text] using plain_one "je" (word _ (by decide)) legible.1
  | jmp label => simpa [Instruction.text] using plain_one "jmp" (word _ (by decide)) legible.1
  | call label => simpa [Instruction.text] using plain_one "call" (word _ (by decide)) legible.1

private theorem trim_padded {front core back : List Char} (leading : ∀ c ∈ front, Text.isWhiteSpace c)
    (trailing : ∀ c ∈ back, Text.isWhiteSpace c) (plain : Plain core) :
    Text.trim (front ++ (core ++ back)) = core := by
  obtain ⟨first, rest, begun, dark, -⟩ := plain.head
  obtain ⟨most, last, ended, darkLast, -⟩ := plain.last
  have kept : (core ++ back).dropWhile Text.isWhiteSpace = core ++ back := by
    simp [begun, dark]
  have reversed : (core ++ back).reverse.dropWhile Text.isWhiteSpace = core.reverse := by
    rw [List.reverse_append, List.dropWhile_append_of_pos (by simpa using trailing), ended]
    simp [darkLast]
  rw [Text.trim, List.dropWhile_append_of_pos leading, kept, reversed, List.reverse_reverse]

def LegibleLine : Line → Prop
  | .directive text => text ∈ [".intel_syntax noprefix", ".global main"]
  | .label name => Solid name.toList
  | .code instruction comment =>
    LegibleInstruction instruction ∧ ∀ text ∈ comment, '\n' ∉ text.toList

def entry? : Line → Option Entry
  | .directive _ => none
  | .label name => some (.label name)
  | .code instruction _ => some (.instruction (.ok instruction))

/-- A line with blanks around a plain text is read as an instruction. -/
private theorem ofLine?_padded {front core back : List Char} (leading : ∀ c ∈ front, Text.isWhiteSpace c)
    (trailing : ∀ c ∈ back, Text.isWhiteSpace c) (plain : Plain core) {line : List Char}
    (uncommented : Text.before '#' line = front ++ (core ++ back)) :
    Entry.ofLine? line = some (.instruction (Instruction.read core)) := by
  obtain ⟨first, rest, begun, -, undotted⟩ := plain.head
  obtain ⟨most, last, ended, -, unmarked⟩ := plain.last
  have nonempty : core.isEmpty = false := by simp [begun]
  have final : core.getLast? ≠ some ':' := by simpa [ended] using unmarked
  have initial : core.head? ≠ some '.' := by simpa [begun] using undotted
  simp [Entry.ofLine?, uncommented, trim_padded leading trailing plain, nonempty, final, initial]

private theorem ofLine?_text {line : Line} (legible : LegibleLine line) :
    Entry.ofLine? line.text.toList = entry? line := by
  match line, legible with
  | .directive text, known =>
    simp only [LegibleLine, List.mem_cons, List.not_mem_nil, or_false] at known
    rcases known with rfl | rfl <;> rfl
  | .label name, solid =>
    have hash : '#' ∉ name.toList ++ [':'] := by simp [solid.free (show isSolid '#' = false by decide)]
    have trimmed : Text.trim (name.toList ++ [':']) = name.toList ++ [':'] := by
      obtain ⟨first, rest, begun⟩ := List.exists_cons_of_ne_nil solid.1
      have dark : Text.isWhiteSpace first = false := (isSolid_iff.mp (solid.2 first (by simp [begun]))).1
      have colon : Text.isWhiteSpace ':' = false := by decide
      simp [Text.trim, begun, dark, colon]
    simp [Line.text, Entry.ofLine?, before_of_notMem hash, trimmed, entry?]
  | .code instruction none, ⟨legible, _⟩ =>
    have plain := plain_instruction legible
    have shape : (Line.code instruction none).text.toList = "  ".toList ++ (instruction.text.toList ++ []) := by
      simp [Line.text]
    have hash : '#' ∉ "  ".toList ++ (instruction.text.toList ++ []) := by simp [plain.whole.1]
    have uncommented : Text.before '#' (Line.code instruction none).text.toList =
        "  ".toList ++ (instruction.text.toList ++ []) := by
      rw [shape, before_of_notMem hash]
    have blank : ∀ c ∈ "  ".toList, Text.isWhiteSpace c := List.all_eq_true.mp (by decide)
    rw [ofLine?_padded blank (List.forall_mem_nil _) plain uncommented, read_instruction legible]
    rfl
  | .code instruction (some comment), ⟨legible, _⟩ =>
    have plain := plain_instruction legible
    have shape : (Line.code instruction (some comment)).text.toList =
        ("  ".toList ++ (instruction.text.toList ++ [' '])) ++ '#' :: (" " ++ comment).toList := by
      simp [Line.text]
    have hash : '#' ∉ "  ".toList ++ (instruction.text.toList ++ [' ']) := by simp [plain.whole.1]
    have uncommented : Text.before '#' (Line.code instruction (some comment)).text.toList =
        "  ".toList ++ (instruction.text.toList ++ [' ']) := by
      rw [shape, before_append _ hash]
    have blank : ∀ c ∈ "  ".toList, Text.isWhiteSpace c := List.all_eq_true.mp (by decide)
    have space : ∀ c ∈ [' '], Text.isWhiteSpace c := List.all_eq_true.mp (by decide)
    rw [ofLine?_padded blank space plain uncommented, read_instruction legible]
    rfl

private theorem free_text {line : Line} (legible : LegibleLine line) : '\n' ∉ line.text.toList := by
  match line, legible with
  | .directive text, known =>
    simp only [LegibleLine, List.mem_cons, List.not_mem_nil, or_false] at known
    rcases known with rfl | rfl <;> decide
  | .label name, solid => simp [Line.text, solid.free (show isSolid '\n' = false by decide)]
  | .code instruction none, ⟨legible, _⟩ => simp [Line.text, (plain_instruction legible).whole.2]
  | .code instruction (some comment), ⟨legible, free⟩ =>
    simp [Line.text, (plain_instruction legible).whole.2, free comment rfl]

theorem lines_append {front : List Char} (back : List Char) (free : '\n' ∉ front) :
    Text.lines (front ++ '\n' :: back) = front :: Text.lines back := by
  induction front with
  | nil => simp [Text.lines]
  | cons c rest ih =>
    simp only [List.mem_cons, not_or] at free
    simp [Text.lines, Ne.symm free.1, ih free.2]

private theorem lines_text {listing : Listing} (legible : ∀ line ∈ listing, LegibleLine line) :
    Text.lines (Listing.text listing).toList = listing.map (·.text.toList) ++ [[]] := by
  induction listing with
  | nil => rfl
  | cons line rest ih =>
    have shape : (Listing.text (line :: rest)).toList =
        line.text.toList ++ '\n' :: (Listing.text rest).toList := by
      simp [Listing.text, String.join_cons]
    rw [shape, lines_append _ (free_text (legible line (by simp))),
      ih fun other member => legible other (by simp [member])]
    rfl

/-- The text of a legible listing loads as the entries of its lines. -/
theorem load_text {listing : Listing} (legible : ∀ line ∈ listing, LegibleLine line) :
    Program.load (Listing.text listing) = Program.empty.addAll (listing.filterMap entry?) := by
  have entries : (listing.map (·.text.toList)).filterMap Entry.ofLine? = listing.filterMap entry? := by
    rw [List.filterMap_map]
    exact List.filterMap_congr fun line member => ofLine?_text (legible line member)
  rw [Program.load, lines_text legible, List.filterMap_append, entries]
  simp [Entry.ofLine?, Text.before, Text.trim]

end Stackwise.Proofs.ListingText
