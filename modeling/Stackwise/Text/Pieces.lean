/-! Cutting character lists apart: at the first occurrence of a character, at
line feeds, and at the comma and space that separate operands. -/

namespace Stackwise.Text

/-- What stands before the first `mark`, or everything if there is none. -/
def before (mark : Char) (chars : List Char) : List Char := chars.takeWhile (· != mark)

/-- What stands after the first `mark`, if there is one. -/
def after? (mark : Char) (chars : List Char) : Option (List Char) :=
  (chars.dropWhile (· != mark)).tail?

/-- The lines of a text. A line feed at the very end opens one more, empty line. -/
def lines : List Char → List (List Char)
  | [] => [[]]
  | c :: rest =>
    if c = '\n' then [] :: lines rest
    else
      match lines rest with
      | [] => [[c]]
      | line :: others => (c :: line) :: others

/-- The pieces of a text between its separators, each a comma followed by a space. -/
def commaSeparated : List Char → List (List Char)
  | [] => [[]]
  | ',' :: ' ' :: rest => [] :: commaSeparated rest
  | c :: rest =>
    match commaSeparated rest with
    | [] => [[c]]
    | piece :: others => (c :: piece) :: others

/-- The text between an opening and a closing character, if it is so enclosed. -/
def enclosed? (opening closing : Char) : List Char → Option (List Char)
  | [] => none
  | c :: rest =>
    if c = opening ∧ rest.getLast? = some closing then some rest.dropLast else none

end Stackwise.Text
