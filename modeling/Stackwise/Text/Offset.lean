/-! Byte offsets. Locations count the bytes of the UTF-8 form of a text, while a
caret is placed by counting characters. -/

namespace Stackwise.Text

/-- The number of bytes of the UTF-8 form. -/
def byteSize : List Char → Nat
  | [] => 0
  | c :: rest => c.utf8Size + byteSize rest

@[simp] theorem byteSize_nil : byteSize [] = 0 := rfl

@[simp] theorem byteSize_cons (c : Char) (rest : List Char) :
    byteSize (c :: rest) = c.utf8Size + byteSize rest := rfl

@[simp] theorem byteSize_append (front back : List Char) :
    byteSize (front ++ back) = byteSize front + byteSize back := by
  induction front with
  | nil => simp
  | cons c rest ih => simp [ih, Nat.add_assoc]

/-- How many characters end at or before a byte offset, if a character or the end
of the text stands exactly there. -/
def charsBefore? : List Char → Nat → Option Nat
  | _, 0 => some 0
  | [], _ + 1 => none
  | c :: rest, offset + 1 =>
    if c.utf8Size ≤ offset + 1 then (charsBefore? rest (offset + 1 - c.utf8Size)).map (· + 1)
    else none

/-- The offset after a part of the text counts the characters of that part. -/
theorem charsBefore?_byteSize (front back : List Char) :
    charsBefore? (front ++ back) (byteSize front) = some front.length := by
  induction front with
  | nil => cases back <;> rfl
  | cons c rest ih =>
    have positive := c.utf8Size_pos
    rw [List.cons_append, byteSize_cons]
    obtain ⟨size, equal⟩ : ∃ size, c.utf8Size + byteSize rest = size + 1 :=
      ⟨c.utf8Size + byteSize rest - 1, by omega⟩
    rw [equal, charsBefore?, if_pos (by omega), ← equal, Nat.add_sub_cancel_left, ih]
    simp

end Stackwise.Text
