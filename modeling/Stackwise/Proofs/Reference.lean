import Mathlib.Logic.Function.Basic
import Stackwise.Proofs.SourceTerms

/-! What a program means, without any machine. Terms are evaluated in an activation, which has a
store of its own, and a return leaves the activation from wherever it stands. Calls may nest up to
a given depth, since a program need not end. -/

namespace Stackwise.Proofs.Reference
open SourceTerms

/-- An activation of a function: its variables, the value that an expression statement or the test
of a conditional left last, and the number of calls that the whole program has made so far. -/
structure Activation where
  store : String → Option Int64
  last : Int64
  calls : Nat

/-- Why evaluation does not go on where it is. -/
inductive Interrupt where
  | returned (value : Int64) (calls : Nat)
  | dividedByZero
  | unassigned (name : String)
  | undefined (callee : String)
  | tooDeep

/-- Arithmetic wraps, and division rounds toward zero. -/
def operate : Operator → Int64 → Int64 → Option Int64
  | .plus, left, right => some (left + right)
  | .minus, left, right => some (left - right)
  | .times, left, right => some (left * right)
  | .over, left, right => if right = 0 then none else some (left / right)
  | .equal, left, right => some (if left = right then 1 else 0)
  | .unequal, left, right => some (if left ≠ right then 1 else 0)
  | .less, left, right => some (if left < right then 1 else 0)
  | .atMost, left, right => some (if left ≤ right then 1 else 0)

def Activation.note (activation : Activation) (statement : Term) (value : Int64) : Activation :=
  if statement.isExpression then { activation with last := value } else activation

def Activation.assign (activation : Activation) (name : String) (value : Int64) : Activation :=
  { activation with store := Function.update activation.store name (some value) }

/-- How a call with arguments is answered, given the number of calls up to it. -/
abbrev Caller := String → List Int64 → Nat → Except Interrupt (Int64 × Nat)

mutual

/-- The value of a term. A statement that is no expression has the value zero. -/
def evaluate (enter : Caller) : Term → Activation → Except Interrupt (Int64 × Activation)
  | .literal value, activation => return (value, activation)
  | .var name, activation =>
    match activation.store name with
    | some value => return (value, activation)
    | none => throw (.unassigned name)
  | .assign target value, activation => do
    let (stored, activation) ← evaluate enter value activation
    return (stored, activation.assign target stored)
  | .apply operator left right, activation => do
    let (first, activation) ← evaluate enter left activation
    let (second, activation) ← evaluate enter right activation
    match operate operator first second with
    | some result => return (result, activation)
    | none => throw .dividedByZero
  | .call callee arguments, activation => do
    let (values, activation) ← evaluateArguments enter arguments activation
    let (result, calls) ← enter callee values (activation.calls + 1)
    return (result, { activation with calls := calls })
  | .branch test accepted none, activation => do
    let (tested, activation) ← evaluate enter test activation
    if tested = 0 then return (0, { activation with last := tested })
    else
      let (value, activation) ← evaluate enter accepted { activation with last := tested }
      return (0, activation.note accepted value)
  | .branch test accepted (some otherwise), activation => do
    let (tested, activation) ← evaluate enter test activation
    if tested = 0 then
      let (value, activation) ← evaluate enter otherwise { activation with last := tested }
      return (0, activation.note otherwise value)
    else
      let (value, activation) ← evaluate enter accepted { activation with last := tested }
      return (0, activation.note accepted value)
  | .leave none, activation => throw (.returned 0 activation.calls)
  | .leave (some value), activation => do
    let (result, activation) ← evaluate enter value activation
    throw (.returned result activation.calls)
  | .block body, activation => evaluateBody enter body activation
  | .function .., activation => return (0, activation)

/-- The statements of a block, with the value of the last one if it is an expression. -/
def evaluateBody (enter : Caller) : List Term → Activation → Except Interrupt (Int64 × Activation)
  | [], activation => return (0, activation)
  | [last], activation => do
    let (value, activation) ← evaluate enter last activation
    return (if last.isExpression then value else 0, activation.note last value)
  | statement :: rest, activation => do
    let (value, activation) ← evaluate enter statement activation
    evaluateBody enter rest (activation.note statement value)

def evaluateArguments (enter : Caller) :
    List (Nat × Term) → Activation → Except Interrupt (List Int64 × Activation)
  | [], activation => return ([], activation)
  | (_, argument) :: rest, activation => do
    let (value, activation) ← evaluate enter argument activation
    let (others, activation) ← evaluateArguments enter rest activation
    return (value :: others, activation)

end

theorem evaluateBody_cons (enter : Caller) (statement next : Term) (rest : List Term) (activation : Activation) :
    evaluateBody enter (statement :: next :: rest) activation =
      evaluate enter statement activation >>= fun (value, activation) =>
        evaluateBody enter (next :: rest) (activation.note statement value) := by
  rw [evaluateBody]
  · simp

/-- A fresh store in which parameters have the values of arguments. -/
def bound (parameters : List String) (arguments : List Int64) : String → Option Int64 :=
  (parameters.zip arguments).foldl (fun store (name, value) => Function.update store name (some value))
    fun _ => none

/-- What an activation hands back. One that falls off its end returns what was left last. -/
def result : Except Interrupt (Int64 × Activation) → Except Interrupt (Int64 × Nat)
  | .ok (_, activation) => .ok (activation.last, activation.calls)
  | .error (.returned value calls) => .ok (value, calls)
  | .error interrupt => .error interrupt

/-- Answer calls by the functions of a program, nested no deeper than a bound. -/
def activate (functions : List Definition) : Nat → Caller
  | 0, _, _, _ => .error .tooDeep
  | depth + 1, callee, arguments, calls =>
    match functions.find? (·.name = callee) with
    | none => .error (.undefined callee)
    | some function =>
      result (evaluateBody (activate functions depth) function.body
        ⟨bound function.parameters arguments, 0, calls⟩)

def outcome (program : List Term) (depth : Nat) : Except Interrupt (Int64 × Nat) :=
  activate (functions program) depth Lowering.entry [] 0

end Stackwise.Proofs.Reference
