/-! Names that an assembler reads as a register or an operator. A function of such
a name could not be called, because its name stands bare in the listing. Case is
ignored. -/

namespace Stackwise.Assembly

/-- Size keywords and operators of operands. -/
def operandWords : List String :=
  ["byte", "word", "dword", "fword", "qword", "tbyte", "oword", "xmmword", "ymmword", "zmmword",
    "ptr", "offset", "short", "near", "far", "flat", "and", "or", "not", "xor", "mod", "shl", "shr",
    "eq", "ne", "lt", "le", "gt", "ge"]

/-- Registers that are spelled without a number. -/
def plainRegisters : List String :=
  ["al", "ah", "bl", "bh", "cl", "ch", "dl", "dh", "sil", "dil", "bpl", "spl", "rip", "eip", "ip",
    "st", "cs", "ds", "es", "fs", "gs", "ss"]

/-- Registers that also have a wider form, spelled with one more letter in front. -/
def extendableRegisters : List String := ["ax", "bx", "cx", "dx", "si", "di", "bp", "sp"]

/-- What stands before the number of a vector, stack, mask, control or debug register. -/
def registerFamilies : List String := ["xmm", "ymm", "zmm", "mm", "st", "cr", "dr", "k"]

/-- The value of a text of digits, which one plus sign may lead. -/
def index? (text : List Char) : Option Nat :=
  let digits := if text.head? = some '+' then text.tail else text
  if digits ≠ [] ∧ digits.all Char.isDigit then
    some (digits.foldl (fun value c => 10 * value + (c.toNat - '0'.toNat)) 0)
  else none

/-- A wide base, bare or behind one `r` or `e`. -/
def isWideRegister (name : List Char) : Bool :=
  extendableRegisters.any fun base =>
    name = base.toList || name = 'r' :: base.toList || name = 'e' :: base.toList

/-- An `r` and a number from 8 to 15, with any number of size letters behind it. -/
def isNumberedRegister (name : List Char) : Bool :=
  match name with
  | 'r' :: rest =>
    let sized (c : Char) : Bool := c = 'd' || c = 'w' || c = 'b' || c = 'l'
    match index? (rest.reverse.dropWhile sized).reverse with
    | some index => 8 ≤ index && index ≤ 15
    | none => false
  | _ => false

/-- A register family followed by one or more digits. -/
def isFamilyRegister (name : List Char) : Bool :=
  registerFamilies.any fun family =>
    let digits := name.drop family.toList.length
    family.toList.isPrefixOf name && !digits.isEmpty && digits.all Char.isDigit

/-- Whether a function of this name could not be called by its bare name. -/
def isReserved (name : String) : Bool :=
  let lower := name.toList.map Char.toLower
  operandWords.contains (String.ofList lower) || plainRegisters.contains (String.ofList lower) ||
    isWideRegister lower || isNumberedRegister lower || isFamilyRegister lower

end Stackwise.Assembly
