import Stackwise.Lowering.Emission
import Stackwise.Term

/-! Lowering of terms to the code of a stack machine. A term in value position pushes
exactly one value. A term in statement position leaves the stack as it was, and an
expression leaves its value in `rax`. -/

namespace Stackwise.Lowering
open Assembly Emission

/-- The registers that carry the arguments of a call, by position. -/
def argumentRegisters : List Register :=
  [Register.rdi, Register.rsi, Register.rdx, Register.rcx, Register.r8, Register.r9]

/-- Whether a term is lowered for its effect or for its value. -/
inductive Position where
  | statement
  | value
  deriving DecidableEq

/-- Make code that pushes a value fit the position. -/
def Position.ofValue (position : Position) (pushing : Emission) : Emission :=
  match position with
  | .statement => pushing ++ pop Register.rax
  | .value => pushing

/-- Make code that pushes nothing fit the position. Its value is zero. -/
def Position.ofStatement (position : Position) (balanced : Emission) : Emission :=
  match position with
  | .statement => balanced
  | .value => balanced ++ push (.immediate 0)

def returnLabel (function : String) : String := ".L.return." ++ function

def elseLabel (number : Nat) : String := ".L.else." ++ toString number

def endLabel (number : Nat) : String := ".L.end." ++ toString number

/-- Push a number. The immediate of a push has 32 bits, so a wider one goes through
a register. -/
def literal (value : Int64) : Emission :=
  if -0x80000000 ≤ value.toInt ∧ value.toInt < 0x80000000 then push (.immediate value.toInt)
  else code (.mov Register.rax (.immediate value.toInt)) ++ push Register.rax

/-- Push the value of a variable. -/
def fetch (name : String) : Emission :=
  address name ++ pop Register.rax ++
    code (.mov Register.rax (Place.memory Register.rax 0)) ++ push Register.rax

/-- Compare `rax` with `rdi` and put the truth value into `rax`. -/
def comparison (condition : Condition) : Emission :=
  code (.cmp Register.rax Register.rdi) ++ code (.set condition Register.al) ++
    code (.movzb Register.rax Register.al)

/-- Store the value on top of the stack at the address below it, and push the value. -/
def store : Emission :=
  pop Register.rdi ++ pop Register.rax ++
    code (.mov (.memory Register.rax 0) Register.rdi) ++ push Register.rdi

/-- Combine `rax` and `rdi` in `rax`. -/
def operation : Operator → Emission
  | .plus => code (.arithmetic .add Register.rax Register.rdi)
  | .minus => code (.arithmetic .sub Register.rax Register.rdi)
  | .times => code (.arithmetic .imul Register.rax Register.rdi)
  | .over => code .cqo ++ code (.idiv Register.rdi)
  | .equal => comparison .equal
  | .unequal => comparison .unequal
  | .less => comparison .less
  | .atMost => comparison .atMost

/-- Replace the two values on top of the stack by the result of an operator. -/
def combine (operator : Operator) : Emission :=
  pop Register.rdi ++ pop Register.rax ++ operation operator ++ push Register.rax

/-- Choose between two statements by whether the value of the test is zero. -/
def choice (test accepted otherwise : Emission) : Emission :=
  withLabel fun number =>
    test ++ pop Register.rax ++ code (.cmp Register.rax (.immediate 0)) ++
      code (.je (elseLabel number)) ++ accepted ++ code (.jmp (endLabel number)) ++
      line (.label (elseLabel number)) ++ otherwise ++ line (.label (endLabel number))

/-- Pop arguments into the registers of their positions, the topmost one first. -/
def popArguments (callee : String) : List Nat → Emission
  | [] => done
  | position :: rest =>
    match argumentRegisters[position]? with
    | some register => pop register ++ popArguments callee rest
    | none => fail (.noRegister position callee)

/-- Replace the arguments on top of the stack by the result of a call. -/
def invoke (callee : String) (positions : List Nat) : Emission :=
  popArguments callee positions.reverse ++ code (.mov Register.rax (.immediate 0)) ++
    call callee ++ push Register.rax

mutual

/-- Lower a term of the body of `function`. -/
def lowerTerm (function : String) (position : Position) : Term → Emission
  | .literal value => position.ofValue (literal value)
  | .var name => position.ofValue (fetch name)
  | .assign target value =>
    position.ofValue (address target ++ lowerTerm function .value value ++ store)
  | .apply operator left right =>
    position.ofValue
      (lowerTerm function .value left ++ lowerTerm function .value right ++ combine operator)
  | .call callee arguments =>
    position.ofValue (lowerArguments function arguments ++ invoke callee (arguments.map (·.1)))
  | .branch test accepted none =>
    position.ofStatement
      (choice (lowerTerm function .value test) (lowerTerm function .statement accepted) done)
  | .branch test accepted (some otherwise) =>
    position.ofStatement
      (choice (lowerTerm function .value test) (lowerTerm function .statement accepted)
        (lowerTerm function .statement otherwise))
  | .leave none =>
    position.ofStatement
      (code (.mov Register.rax (.immediate 0)) ++ code (.jmp (returnLabel function)))
  | .leave (some value) =>
    position.ofStatement
      (lowerTerm function .value value ++ pop Register.rax ++ code (.jmp (returnLabel function)))
  | .block body =>
    match position with
    | .statement => lowerBlock function body
    | .value => lowerBlockValue function body
  | .function .. => position.ofStatement done

/-- Lower statements up to the first one that always leaves the function. -/
def lowerBlock (function : String) : List Term → Emission
  | [] => done
  | statement :: rest =>
    if statement.returns then lowerTerm function .statement statement
    else lowerTerm function .statement statement ++ lowerBlock function rest

/-- Lower a block for its value: that of its last statement if it is an expression,
otherwise zero. -/
def lowerBlockValue (function : String) : List Term → Emission
  | [] => push (.immediate 0)
  | [last] =>
    if last.isExpression then lowerTerm function .value last
    else lowerTerm function .statement last ++ push (.immediate 0)
  | statement :: rest =>
    if statement.returns then lowerTerm function .statement statement ++ push (.immediate 0)
    else lowerTerm function .statement statement ++ lowerBlockValue function rest

/-- Push the values of arguments, in the order in which they are written. -/
def lowerArguments (function : String) : List (Nat × Term) → Emission
  | [] => done
  | (_, value) :: rest => lowerTerm function .value value ++ lowerArguments function rest

end

end Stackwise.Lowering
