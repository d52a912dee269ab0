import Stackwise.Text.Printable

/-! Quoted text, as messages show a line: between double quotes, with quotes, back
slashes and control characters escaped. -/

namespace Stackwise.Text

/-- The code point of a character in hexadecimal. -/
def codePoint (c : Char) : String :=
  "\\u\x7b" ++ String.ofList (Nat.toDigits 16 c.toNat) ++ "\x7d"

/-- A character as it is written between quotes. -/
def escaped (c : Char) : String :=
  if c = '\x00' then "\\0"
  else if c = '\t' then "\\t"
  else if c = '\n' then "\\n"
  else if c = '\r' then "\\r"
  else if c = '"' then "\\\""
  else if c = '\\' then "\\\\"
  else if isPrintable c then String.singleton c
  else codePoint c

def quoted (chars : List Char) : String := "\"" ++ String.join (chars.map escaped) ++ "\""

end Stackwise.Text
