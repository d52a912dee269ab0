import Stackwise.Text.Blank
import Stackwise.Text.Numeral
import Stackwise.Text.Offset
import Stackwise.Token

/-! Scanning: a source text is cut from left to right into the longest lexemes,
with blanks between them dropped, and one end-of-input token closes the list. -/

namespace Stackwise

/-- The lexeme that a text begins with, and the characters that spell it. -/
structure Lexeme where
  kind : TokenKind
  chars : List Char
  deriving DecidableEq

/-- A place in the source where no lexeme begins. -/
structure ScanFault where
  text : String
  offset : Nat
  deriving DecidableEq

namespace Lexeme

def startsWord (c : Char) : Bool := c.isAlpha || c = '_'

def continuesWord (c : Char) : Bool := c.isAlphanum || c = '_'

/-- A word is a name unless the language keeps it for itself. -/
def word (text : String) : TokenKind :=
  if text = "return" then .returnWord
  else if text = "if" ∨ text = "else" ∨ text = "def" then .symbol text
  else .name text

/-- The longest punctuator that begins with `c`. -/
def punctuator? (c : Char) (rest : List Char) : Option (List Char) :=
  if rest.head? = some '=' ∧ (c = '=' ∨ c = '!' ∨ c = '<' ∨ c = '>') then some [c, '=']
  else if c ∈ ['<', '>', '=', '\x7b', '\x7d', '(', ')', ';', ',', '+', '-', '*', '/'] then some [c]
  else none

/-- The longest lexeme that begins with `c`, or the text to complain about. -/
def longest (c : Char) (rest : List Char) : Except (List Char) Lexeme :=
  if c.isDigit then
    let digits := c :: rest.takeWhile Char.isDigit
    match Text.Numeral.read digits with
    | .ok value => .ok ⟨.number (Int64.ofInt value), digits⟩
    | .error _ => .error digits
  else if startsWord c then
    let letters := c :: rest.takeWhile continuesWord
    .ok ⟨word (String.ofList letters), letters⟩
  else
    match punctuator? c rest with
    | some mark => .ok ⟨.symbol (String.ofList mark), mark⟩
    | none => .error [c]

end Lexeme

namespace Token

/-- Scan what is left of a source from a byte offset on. -/
def scanFrom (offset : Nat) : List Char → Except ScanFault (List Token)
  | [] => .ok [ending offset]
  | c :: rest =>
    if Text.isBlank c then scanFrom (offset + c.utf8Size) rest
    else
      match Lexeme.longest c rest with
      | .error text => .error ⟨String.ofList text, offset⟩
      | .ok lexeme =>
        let size := Text.byteSize lexeme.chars
        (scanFrom (offset + size) (rest.drop (lexeme.chars.length - 1))).map
          (⟨lexeme.kind, offset, size⟩ :: ·)
termination_by chars => chars.length
decreasing_by all_goals simp; try omega

/-- Scan a whole source. -/
def scan (source : String) : Except ScanFault (List Token) := scanFrom 0 source.toList

end Token

end Stackwise
