import Std.Data.TreeMap
import Std.Data.TreeMap.Lemmas
import Stackwise.Assembly.Operand

/-! What the machine remembers: a word for each register and for each address. Both
read as zero where nothing was written. -/

namespace Stackwise.Machine
open Assembly

abbrev Word := Int64

/-- The byte at the low end of a word. -/
def lowByte (word : Word) : Word := word &&& 0xff

/-- A word with its low byte replaced by that of another. -/
def withLowByte (word byte : Word) : Word := (word &&& ~~~0xff) ||| lowByte byte

structure Memory where
  words : Std.TreeMap Word Word

namespace Memory

def empty : Memory := ⟨∅⟩

def read (memory : Memory) (address : Word) : Word := memory.words.getD address 0

def write (memory : Memory) (address value : Word) : Memory := ⟨memory.words.insert address value⟩

@[simp] theorem read_empty (address : Word) : empty.read address = 0 := by
  simp [empty, read]

theorem read_write (memory : Memory) (address value asked : Word) :
    (memory.write address value).read asked = if address = asked then value else memory.read asked := by
  simp [write, read, Std.TreeMap.getD_insert]

@[simp] theorem read_write_same (memory : Memory) (address value : Word) :
    (memory.write address value).read address = value := by
  simp [read_write]

theorem read_write_other (memory : Memory) {address asked : Word} (value : Word)
    (different : address ≠ asked) : (memory.write address value).read asked = memory.read asked := by
  simp [read_write, different]

end Memory

/-- The values of full registers, by name. -/
structure Registers where
  values : Std.TreeMap String Word

namespace Registers

def empty : Registers := ⟨∅⟩

/-- The value of a full register. -/
def full (registers : Registers) (register : Register) : Word :=
  registers.values.getD register.name 0

def setFull (registers : Registers) (register : Register) (value : Word) : Registers :=
  ⟨registers.values.insert register.name value⟩

/-- Read a register. `al` is the low byte of `rax`. -/
def read (registers : Registers) (register : Register) : Word :=
  if register = Register.al then lowByte (registers.full Register.rax) else registers.full register

/-- Write a register. Writing `al` keeps the upper bytes of `rax`. -/
def write (registers : Registers) (register : Register) (value : Word) : Registers :=
  if register = Register.al then
    registers.setFull Register.rax (withLowByte (registers.full Register.rax) value)
  else registers.setFull register value

@[simp] theorem full_empty (register : Register) : empty.full register = 0 := by
  simp [empty, full]

theorem full_setFull (registers : Registers) (register asked : Register) (value : Word) :
    (registers.setFull register value).full asked =
      if register = asked then value else registers.full asked := by
  cases register; cases asked
  simp [setFull, full, Std.TreeMap.getD_insert]

@[simp] theorem read_write_same (registers : Registers) {register : Register} (value : Word)
    (whole : register ≠ Register.al) : (registers.write register value).read register = value := by
  simp [read, write, whole, full_setFull]

theorem read_write_other (registers : Registers) {register asked : Register} (value : Word)
    (whole : register ≠ Register.al) (wholeAsked : asked ≠ Register.al)
    (different : register ≠ asked) :
    (registers.write register value).read asked = registers.read asked := by
  simp [read, write, whole, wholeAsked, different, full_setFull]

end Registers

end Stackwise.Machine
