import Stackwise.Grammar.Program
import Stackwise.Lowering.Program
import Stackwise.Machine.Run
import Stackwise.Token.Scan

/-! The whole way from a source text to a listing, and on to the value that the
listing computes. -/

namespace Stackwise
open Assembly

def ScanFault.diagnostic (fault : ScanFault) : Diagnostic := .lexeme fault.text fault.offset

/-- The tokens of a source text. -/
def scan (source : String) : Except Diagnostic (List Token) :=
  (Token.scan source).mapError ScanFault.diagnostic

/-- The program that a source text denotes. -/
def readSource (source : String) : Except Diagnostic (List Term) := do
  parse (← scan source)

/-- Compile a source text to its listing. -/
def compile (source : String) : Except Diagnostic Listing := do
  lower (← readSource source)

/-- Why a source text has no value: it is refused, or its run fails. -/
inductive EvaluationFault where
  | refused (diagnostic : Diagnostic)
  | failed (fault : Machine.Fault)

def EvaluationFault.message (source : String) : EvaluationFault → String
  | .refused diagnostic => diagnostic.report source
  | .failed fault => fault.message

/-- Compile a source text and run its listing. -/
def evaluate (source : String) : Except EvaluationFault Machine.Outcome :=
  match compile source with
  | .error diagnostic => .error (.refused diagnostic)
  | .ok listing => (Machine.run listing.text).mapError .failed

end Stackwise
