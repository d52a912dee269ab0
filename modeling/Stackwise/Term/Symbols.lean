import Stackwise.Term

/-! The function symbols of a program: every definition and every call, wherever
it is nested, in the order in which they stand in the source. -/

namespace Stackwise

/-- A mention of a function: its definition, or a call with a number of arguments. -/
inductive Mention where
  | definition (found : Definition)
  | call (callee : String) (count : Nat)

namespace Term

mutual

/-- The mentions in a term. A call comes before the mentions in its arguments, and
a definition before those in its body. -/
def mentions : Term → List Mention
  | .literal _ | .var _ => []
  | .assign _ value => value.mentions
  | .apply _ left right => left.mentions ++ right.mentions
  | .branch test accepted none => test.mentions ++ accepted.mentions
  | .branch test accepted (some otherwise) =>
    test.mentions ++ accepted.mentions ++ otherwise.mentions
  | .leave none => []
  | .leave (some value) => value.mentions
  | .block body => bodyMentions body
  | .call callee arguments =>
    .call callee arguments.length :: argumentMentions arguments
  | .function name parameters body =>
    .definition ⟨name, parameters, body⟩ :: bodyMentions body

def bodyMentions : List Term → List Mention
  | [] => []
  | statement :: rest => statement.mentions ++ bodyMentions rest

def argumentMentions : List (Nat × Term) → List Mention
  | [] => []
  | (_, value) :: rest => value.mentions ++ argumentMentions rest

end

end Term

/-- The definition that a mention is, if it is one. -/
def Mention.definition? : Mention → Option Definition
  | .definition found => some found
  | .call .. => none

/-- The name and argument count of a call, if the mention is one. -/
def Mention.call? : Mention → Option (String × Nat)
  | .definition _ => none
  | .call callee count => some (callee, count)

/-- All definitions of a program, in source order. -/
def definitions (program : List Term) : List Definition :=
  (Term.bodyMentions program).filterMap Mention.definition?

/-- All calls of a program with their argument counts, in source order. -/
def calls (program : List Term) : List (String × Nat) :=
  (Term.bodyMentions program).filterMap Mention.call?

end Stackwise
