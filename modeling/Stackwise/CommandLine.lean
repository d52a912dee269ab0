import Stackwise.Compile

/-! The command line: one argument, the source text, is compiled to standard output. -/

namespace Stackwise

/-- What a run of the command writes, and the status it exits with. -/
structure Response where
  exit : UInt32
  output : String
  errors : String
  deriving DecidableEq

/-- Answer the arguments of a command. -/
def respond (arguments : List String) : Response :=
  match arguments with
  | [source] =>
    match compile source with
    | .ok listing => ⟨0, listing.text, ""⟩
    | .error diagnostic => ⟨1, "", diagnostic.report source ++ "\n"⟩
  | _ => ⟨1, "", "usage: ninecc <source>\n"⟩

end Stackwise
