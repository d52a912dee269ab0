import Stackwise.Lowering.Term

/-! Functions: the code that sets up a frame, stores the parameters, runs the body and
takes the frame down again. Slots are kept from one function to the next, so a frame
has room for every variable met so far. -/

namespace Stackwise.Lowering
open Assembly Emission

/-- Store the parameters in their slots. -/
def storeParameters : List (String × Register) → Emission
  | [] => done
  | (name, register) :: rest =>
    withSlot name (fun distance =>
      line (.code (.mov (.memory Register.rbp distance) register) (some name))) ++
      storeParameters rest

/-- The code between the frame's set-up and the label that returns lead to. A body
without an expression statement returns zero. -/
def functionBody (function : Definition) : Emission :=
  code (.mov Register.rax (.immediate 0)) ++
    storeParameters (function.parameters.zip argumentRegisters) ++
    lowerBlock function.name function.body

/-- Set up a frame of the given size. -/
def prologue (name : String) (size : Nat) : Listing :=
  [.label name, .code (.push Register.rbp) none, .code (.mov Register.rbp Register.rsp) none] ++
    if size = 0 then [] else [.code (.arithmetic .sub Register.rsp (.immediate size)) none]

/-- Take the frame down and return. -/
def epilogue (name : String) : Listing :=
  [.label (returnLabel name), .code (.mov Register.rsp Register.rbp) none,
    .code (.pop Register.rbp) none, .code .ret none]

/-- Lower a function. Its frame holds every slot that is claimed up to its end. -/
def lowerFunction (function : Definition) : Emission := fun allocation => do
  if maxArguments < function.parameters.length then
    throw (.parameterCount function.name function.parameters.length)
  else
    let (body, final) ← functionBody function { allocation with depth := 0 }
    if final.depth = 0 then
      return (prologue function.name final.frameSize ++ body ++ epilogue function.name, final)
    else throw (.unbalanced function.name final.depth)

def lowerFunctions : List Definition → Emission
  | [] => done
  | function :: rest => lowerFunction function ++ lowerFunctions rest

end Stackwise.Lowering
