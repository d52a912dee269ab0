import Std.Data.TreeMap
import Stackwise.Machine.Fault
import Stackwise.Text.Blank

/-! Loading a listing. Comments, blank lines and directives are dropped. A label stands
for the address of the next instruction, and its second definition is a fault. An
unreadable line is a fault only when it is reached. -/

namespace Stackwise.Machine
open Assembly

/-- What a line of a listing contributes to the loaded program. -/
inductive Entry where
  | label (name : String)
  | instruction (read : Except ReadFault Instruction)

/-- Read one line. A closing colon makes it a label, also where it opens with the dot
of a directive. -/
def Entry.ofLine? (line : List Char) : Option Entry :=
  let text := Text.trim (Text.before '#' line)
  if text.isEmpty then none
  else if text.getLast? = some ':' then some (.label (String.ofList text.dropLast))
  else if text.head? = some '.' then none
  else some (.instruction (Instruction.read text))

/-- Instructions by address, and the addresses of labels. -/
structure Program where
  code : Array (Except ReadFault Instruction)
  labels : Std.TreeMap String Nat

namespace Program

def empty : Program := ⟨#[], ∅⟩

def add (program : Program) : Entry → Except Fault Program
  | .label name =>
    if program.labels.contains name then .error (.duplicateLabel name)
    else .ok { program with labels := program.labels.insert name program.code.size }
  | .instruction read => .ok { program with code := program.code.push read }

def addAll (program : Program) : List Entry → Except Fault Program
  | [] => .ok program
  | entry :: rest =>
    match program.add entry with
    | .ok program => program.addAll rest
    | .error fault => .error fault

/-- Load the text of a listing. -/
def load (listing : String) : Except Fault Program :=
  empty.addAll ((Text.lines listing.toList).filterMap Entry.ofLine?)

/-- The address of a label. -/
def target (program : Program) (label : String) : Except Fault Nat :=
  match program.labels.get? label with
  | some address => .ok address
  | none => .error (.undefinedLabel label)

end Program

end Stackwise.Machine
