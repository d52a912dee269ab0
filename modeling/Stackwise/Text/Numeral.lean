/-! Decimal numerals of signed 64-bit words: an optional sign, then one or more
ASCII digits. Digits are taken from left to right, and the first one that is no
digit or that leaves the range decides which flaw is reported. -/

namespace Stackwise.Text.Numeral

/-- Why a text is no numeral of a 64-bit word. -/
inductive Flaw where
  | empty
  | invalidDigit
  | tooLarge
  | tooSmall
  deriving DecidableEq

def Flaw.message : Flaw → String
  | .empty => "cannot parse integer from empty string"
  | .invalidDigit => "invalid digit found in string"
  | .tooLarge => "number too large to fit in target type"
  | .tooSmall => "number too small to fit in target type"

def greatest : Nat := 0x7fffffffffffffff

/-- The size of the least word, which is one further from zero than the greatest. -/
def leastSize : Nat := 0x8000000000000000

def digitValue (c : Char) : Nat := c.toNat - '0'.toNat

/-- Continue a numeral whose digits so far stand for `value`. -/
def magnitude (limit : Nat) (overflow : Flaw) (value : Nat) : List Char → Except Flaw Nat
  | [] => .ok value
  | c :: rest =>
    if c.isDigit then
      let next := 10 * value + digitValue c
      if next ≤ limit then magnitude limit overflow next rest else .error overflow
    else .error .invalidDigit

/-- Read a whole text as a 64-bit word. A sign alone lacks a digit. -/
def read : List Char → Except Flaw Int
  | [] => .error .empty
  | ['+'] | ['-'] => .error .invalidDigit
  | '+' :: digits => (magnitude greatest .tooLarge 0 digits).map Int.ofNat
  | '-' :: digits => (magnitude leastSize .tooSmall 0 digits).map (fun size => -Int.ofNat size)
  | digits => (magnitude greatest .tooLarge 0 digits).map Int.ofNat

end Stackwise.Text.Numeral
