import Stackwise.Assembly.Reserved
import Stackwise.Diagnostic
import Stackwise.Lowering.Frame
import Stackwise.Term.Symbols

/-! Lowering of whole programs. The function symbols are checked first, also in code
that is never reached. The top-level statements then become the body of `main`, and
every definition, wherever it is nested, a function after it. -/

namespace Stackwise
open Assembly Lowering

namespace Lowering

/-- The function that the top-level statements form. -/
def entry : String := "main"

/-- The first definition whose name is taken by one of `earlier` or by a definition
before it. -/
def redefinition? (earlier : List String) : List Definition → Option String
  | [] => none
  | function :: rest =>
    if function.name ∈ earlier then some function.name
    else redefinition? (function.name :: earlier) rest

/-- The first name of a definition, or else of a call, that is reserved. -/
def reservedName? (functions : List Definition) (calls : List (String × Nat)) : Option String :=
  (functions.map (·.name) ++ calls.map (·.1)).find? isReserved

/-- The first call of a defined function with a number of arguments that it does not
take. -/
def wrongCall? (functions : List Definition) (calls : List (String × Nat)) : Option Diagnostic :=
  calls.findSome? fun (callee, found) =>
    match functions.find? (·.name = callee) with
    | some function =>
      if function.parameters.length = found then none
      else some (.arity callee function.parameters.length found)
    | none => none

/-- What is wrong with the function symbols, if anything. -/
def symbolFault? (functions : List Definition) (calls : List (String × Nat)) : Option Diagnostic :=
  match redefinition? [entry] functions with
  | some name => some (.redefined name)
  | none =>
    match reservedName? functions calls with
    | some name => some (.defect (Defect.reservedName name).description)
    | none => wrongCall? functions calls

/-- The lines that open a listing. -/
def header : Listing := [.directive ".intel_syntax noprefix", .directive (".global " ++ entry)]

end Lowering

/-- Lower a program to its listing. -/
def lower (program : List Term) : Except Diagnostic Listing :=
  match symbolFault? (definitions program) (calls program) with
  | some fault => .error fault
  | none =>
    match lowerFunctions (⟨entry, [], program⟩ :: definitions program) Allocation.empty with
    | .ok (functions, _) => .ok (header ++ functions)
    | .error defect => .error (.defect defect.description)

end Stackwise
