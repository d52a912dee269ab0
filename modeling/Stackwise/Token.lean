/-! Tokens: what a lexeme means and where it stands in the source. Offsets and
sizes count bytes. A list of tokens may also be built by hand, so a symbol can
carry any text. -/

namespace Stackwise

/-- The meaning of a lexeme. A symbol is a punctuator or one of the words that
open or continue a construct. -/
inductive TokenKind where
  | symbol (text : String)
  | name (text : String)
  | number (value : Int64)
  | returnWord
  | endOfInput
  deriving DecidableEq

/-- The text that diagnostics show for a token. -/
def TokenKind.text : TokenKind → String
  | .symbol text => text
  | .name text => text
  | .number value => toString value.toInt
  | .returnWord => "return"
  | .endOfInput => "EOF"

structure Token where
  kind : TokenKind
  offset : Nat
  size : Nat
  deriving DecidableEq

namespace Token

/-- Whether the token is the given symbol. A name of the same text is not. -/
def is (token : Token) (symbol : String) : Bool := token.kind = .symbol symbol

/-- The end-of-input token at a byte offset. -/
def ending (offset : Nat) : Token := ⟨.endOfInput, offset, 0⟩

/-- The offset right after the token. -/
def limit (token : Token) : Nat := token.offset + token.size

/-- The end-of-input token right after the token. Offsets are words of 64 bits, so the
sum wraps around, as it does where overflow is not checked. -/
def closing (token : Token) : Token := ending (token.limit % UInt64.size)

@[simp] theorem kind_closing (token : Token) : token.closing.kind = .endOfInput := rfl

/-- Below the bound on offsets the closing token begins where the token ends. -/
theorem closing_of_lt {token : Token} (fits : token.limit < UInt64.size) :
    token.closing = ending token.limit := by
  rw [closing, Nat.mod_eq_of_lt fits]

def isEnding (token : Token) : Bool := token.kind = .endOfInput

/-- Whether an expression can begin with the token. -/
def opensExpression (token : Token) : Bool :=
  match token.kind with
  | .number _ | .name _ => true
  | .symbol text => text = "(" || text = "+" || text = "-"
  | .returnWord | .endOfInput => false

/-- Whether a statement can begin with the token. -/
def opensStatement (token : Token) : Bool :=
  token.opensExpression || token.kind = .returnWord ||
    token.is "\x7b" || token.is "if" || token.is "def"

end Token

end Stackwise
