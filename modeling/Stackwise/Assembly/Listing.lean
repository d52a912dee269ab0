import Stackwise.Assembly.Instruction

/-! Listings: the lines of an assembly text. Instructions are indented, and a comment
follows its instruction after a hash sign. -/

namespace Stackwise.Assembly

inductive Line where
  | directive (text : String)
  | label (name : String)
  | code (instruction : Instruction) (comment : Option String)
  deriving DecidableEq

namespace Line

def text : Line → String
  | .directive text => text
  | .label name => name ++ ":"
  | .code instruction none => "  " ++ instruction.text
  | .code instruction (some comment) => "  " ++ instruction.text ++ " # " ++ comment

end Line

abbrev Listing := List Line

/-- The text of a listing. Every line ends in a line feed. -/
def Listing.text (listing : Listing) : String :=
  String.join (listing.map fun line => line.text ++ "\n")

end Stackwise.Assembly
