import Stackwise.Term
import Stackwise.Text.Offset
import Stackwise.Token

/-! Diagnostics: what a program is refused for, the words it is reported in, and the
picture that points a caret at the place in the source. -/

namespace Stackwise

/-- The reasons to refuse a program. A defect is a term that no source text denotes. -/
inductive Diagnostic where
  | lexeme (text : String) (offset : Nat)
  | unexpected (expected found : String) (offset : Nat)
  | leftover (read : List Term) (rest : List Token)
  | arity (callee : String) (expected found : Nat)
  | redefined (function : String)
  | defect (description : String)

namespace Diagnostic

def message : Diagnostic → String
  | .lexeme text _ => "invalid token: '" ++ text ++ "'"
  | .unexpected expected found _ => "expected " ++ expected ++ ", but got \"" ++ found ++ "\""
  | .leftover read rest =>
    "unexpected token \"" ++ (rest.head?.map (·.kind)).elim "EOF" TokenKind.text ++ "\" after " ++
      toString read.length ++ " statement(s)"
  | .arity callee expected found =>
    "function '" ++ callee ++ "' takes " ++ toString expected ++ " argument(s), but " ++
      toString found ++ " were given"
  | .redefined function => "function '" ++ function ++ "' is defined more than once"
  | .defect description => "internal error: " ++ description

/-- The byte offset in the source that the diagnostic points at, if it has a place. -/
def offset? : Diagnostic → Option Nat
  | .lexeme _ offset | .unexpected _ _ offset => some offset
  | .leftover _ rest => rest.head?.map (·.offset)
  | .arity .. | .redefined _ | .defect _ => none

/-- The column of the caret below the quoted source. An offset behind the end counts
as the end, and one inside a character counts bytes. The opening quote takes the
first column. -/
def caretColumn (source : List Char) (offset : Nat) : Nat :=
  let inside := min offset (Text.byteSize source)
  (Text.charsBefore? source inside).getD inside + 1

/-- The report shown to a user: the message, below the source and a caret if the
diagnostic has a place. -/
def report (diagnostic : Diagnostic) (source : String) : String :=
  match diagnostic.offset? with
  | none => diagnostic.message
  | some offset =>
    "'" ++ source ++ "'\n" ++ String.ofList (List.replicate (caretColumn source.toList offset) ' ') ++
      "^ " ++ diagnostic.message

end Diagnostic

end Stackwise
