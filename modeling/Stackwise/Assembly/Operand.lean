/-! Operands of instructions: registers, words of memory below a base register, and
immediate numbers. -/

namespace Stackwise.Assembly

/-- A register is its name, and any word can be one. -/
structure Register where
  name : String
  deriving DecidableEq

namespace Register

def rax : Register := ⟨"rax"⟩
def rdi : Register := ⟨"rdi"⟩
def rsi : Register := ⟨"rsi"⟩
def rdx : Register := ⟨"rdx"⟩
def rcx : Register := ⟨"rcx"⟩
def r8 : Register := ⟨"r8"⟩
def r9 : Register := ⟨"r9"⟩
def rbp : Register := ⟨"rbp"⟩
def rsp : Register := ⟨"rsp"⟩

/-- The low byte of `rax`. -/
def al : Register := ⟨"al"⟩

end Register

/-- What can be written to: a register, or the word that lies `below` bytes under the
address in a base register. -/
inductive Place where
  | register (named : Register)
  | memory (base : Register) (below : Int)
  deriving DecidableEq

/-- What can be read: a place or a number. -/
inductive Operand where
  | place (readable : Place)
  | immediate (value : Int)
  deriving DecidableEq

instance : Coe Register Place := ⟨.register⟩

instance : Coe Place Operand := ⟨.place⟩

def Place.text : Place → String
  | .register named => named.name
  | .memory base below =>
    if below = 0 then "[" ++ base.name ++ "]"
    else "[" ++ base.name ++ "-" ++ toString below ++ "]"

def Operand.text : Operand → String
  | .place readable => readable.text
  | .immediate value => toString value

end Stackwise.Assembly
