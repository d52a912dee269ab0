/-! Terms of the language. Statements and expressions share one type, because a
block or a conditional may stand where a value is expected. -/

namespace Stackwise

/-- Binary operators. The two reversed comparisons are not among them: they are
read as the comparison of the swapped operands. -/
inductive Operator where
  | plus
  | minus
  | times
  | over
  | equal
  | unequal
  | less
  | atMost
  deriving DecidableEq

/-- A call carries with each argument the position that names its register. Terms
built by hand may repeat or skip positions. -/
inductive Term where
  | literal (value : Int64)
  | var (name : String)
  | assign (target : String) (value : Term)
  | apply (operator : Operator) (left right : Term)
  | branch (test accepted : Term) (otherwise : Option Term)
  | leave (value : Option Term)
  | block (body : List Term)
  | call (callee : String) (arguments : List (Nat × Term))
  | function (name : String) (parameters : List String) (body : List Term)

/-- A function definition, taken out of the term it stands in. -/
structure Definition where
  name : String
  parameters : List String
  body : List Term

/-- The most parameters a function may have, and the most arguments a call. -/
def maxArguments : Nat := 6

namespace Term

/-- Number the arguments of a call from zero. -/
def invoke (callee : String) (arguments : List Term) : Term :=
  .call callee (arguments.zipIdx.map fun (value, position) => (position, value))

/-- Whether the term is an expression, so that a block ending in it has its value. -/
def isExpression : Term → Bool
  | .literal _ | .var _ | .assign .. | .apply .. | .call .. => true
  | .branch .. | .leave _ | .block _ | .function .. => false

mutual

/-- Whether every way through the statement leaves the function. -/
def returns : Term → Bool
  | .leave _ => true
  | .block body => someReturns body
  | .branch _ accepted (some otherwise) => accepted.returns && otherwise.returns
  | _ => false

/-- Whether one of the statements leaves the function. -/
def someReturns : List Term → Bool
  | [] => false
  | statement :: rest => statement.returns || someReturns rest

end

end Term

end Stackwise
