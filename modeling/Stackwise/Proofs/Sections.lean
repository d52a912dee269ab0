import Stackwise.Proofs.EmittedListing

/-! The sections of a listing. A label that begins with `.L.` belongs to the inside of a function and
every other one opens a function, so the listing of a program falls apart into its functions, in the
order in which they were emitted. -/

namespace Stackwise.Proofs.Sections
open Assembly Lowering ListingText SourceTerms EmittedCode Loading EmittedListing

def isLocal (name : String) : Bool := ['.', 'L', '.'].isPrefixOf name.toList

def opened? : Line → Option String
  | .label name => if isLocal name then none else some name
  | .directive _ | .code _ _ => none

/-- A function in a listing: its name, and the lines from its label to that of the next function. -/
structure Section where
  name : String
  lines : Listing

def Section.whole (part : Section) : Listing := .label part.name :: part.lines

def sections : Listing → List Section
  | [] => []
  | line :: rest =>
    match opened? line with
    | some name => ⟨name, rest.takeWhile fun line => (opened? line).isNone⟩ :: sections rest
    | none => sections rest

theorem names_sections (listing : Listing) :
    (sections listing).map (·.name) = (labelNames listing).filter (fun name => !isLocal name) := by
  induction listing with
  | nil => rfl
  | cons line rest ih =>
    cases line with
    | directive text => exact ih
    | code instruction comment => exact ih
    | label name =>
      cases inner : isLocal name with
      | true => simpa [sections, opened?, inner, labelNames, labelName?] using ih
      | false => simpa [sections, opened?, inner, labelNames, labelName?] using ih

section
variable {front back : Listing}

private theorem closed_of_labels (inner : ∀ name ∈ labelNames front, isLocal name) :
    ∀ line ∈ front, (opened? line).isNone := by
  intro line member
  cases line with
  | directive => rfl
  | code => rfl
  | label name =>
    have known : name ∈ labelNames front := List.mem_filterMap.mpr ⟨_, member, rfl⟩
    simp [opened?, inner name known]

private theorem sections_closed (closed : ∀ line ∈ front, (opened? line).isNone) :
    sections (front ++ back) = sections back := by
  induction front with
  | nil => rfl
  | cons line rest ih =>
    have none := Option.isNone_iff_eq_none.mp (closed line (List.mem_cons_self ..))
    rw [List.cons_append, sections, none]
    exact ih fun other member => closed other (List.mem_cons_of_mem _ member)

/-- A function whose lines open no other one is a section, if another one follows or nothing. -/
theorem sections_function {name : String} (outer : isLocal name = false)
    (inner : ∀ name ∈ labelNames front, isLocal name) (next : ∀ line ∈ back.head?, (opened? line).isNone = false) :
    sections (.label name :: (front ++ back)) = ⟨name, front⟩ :: sections back := by
  have closed := closed_of_labels inner
  have opened : opened? (.label name) = some name := by simp [opened?, outer]
  rw [sections, opened, takeWhile_of_stop closed next, sections_closed closed]

end

theorem isLocal_of_toList {name : String} {front back : List Char} (same : name.toList = front ++ back)
    (begins : ['.', 'L', '.'] <+: front) : isLocal name := by
  rw [isLocal, List.isPrefixOf_iff_prefix, same]
  exact begins.trans (List.prefix_append _ _)

private theorem isLocal_numbered {low high : Nat} {name : String} (numbered : Numbered low high name) : isLocal name := by
  obtain ⟨number, -, -, rfl | rfl⟩ := numbered
  · exact isLocal_of_toList (toList_elseLabel number) (by decide)
  · exact isLocal_of_toList (toList_endLabel number) (by decide)

private theorem isLocal_returnLabel (function : String) : isLocal (returnLabel function) :=
  isLocal_of_toList (toList_returnLabel function) (by decide)

theorem isLocal_identifier {name : String} (identifier : Identifier name) : isLocal name = false := by
  by_contra inner
  rw [Bool.not_eq_false, isLocal, List.isPrefixOf_iff_prefix] at inner
  obtain ⟨rest, same⟩ := inner
  exact identifier.head_ne (show Lexeme.startsWord '.' = false by decide) (by rw [← same]; rfl)

def frameLines (size : Nat) : Listing :=
  [.code (.push Register.rbp) none, .code (.mov Register.rbp Register.rsp) none] ++
    if size = 0 then [] else [.code (.arithmetic .sub Register.rsp (.immediate size)) none]

def interior (function : Definition) (start : Allocation) (size : Nat) (body : Listing) : Listing :=
  frameLines size ++ ([.code (.mov Register.rax (.immediate 0)) none] ++
    (parameterLines { start with depth := 0 } (function.parameters.zip argumentRegisters) ++
      (body ++ epilogue function.name)))

section
variable {permitted : String → Nat → Prop} {function : Definition} {start final : Allocation} {body : Listing}

theorem functionLines_eq (size : Nat) :
    functionLines function start size body = .label function.name :: interior function start size body := rfl

theorem labelNames_interior (size : Nat) :
    labelNames (interior function start size body) = labelNames body ++ [returnLabel function.name] := by
  have whole := labelNames_functionLines function start size body
  rw [functionLines_eq] at whole
  exact (List.cons.inj whole).2

private theorem isLocal_interior (code : FunctionCode permitted function start final body) :
    ∀ name ∈ labelNames (interior function start final.frameSize body), isLocal name := by
  intro name member
  rw [labelNames_interior] at member
  rcases List.mem_append.mp member with numbered | returned
  · exact isLocal_numbered (code.fresh.1 name numbered)
  · rw [List.mem_singleton.mp returned]
    exact isLocal_returnLabel function.name

/-- Functions in a row are sections in a row. -/
theorem sections_functionLines {rest : List Definition} {between : Allocation} {back : Listing}
    (identifiers : ∀ other ∈ function :: rest, Identifier other.name)
    (head : FunctionCode permitted function start between body) (tail : Functions permitted rest between back final) :
    sections (functionLines function start between.frameSize body ++ back) =
      ⟨function.name, interior function start between.frameSize body⟩ :: sections back := by
  rw [functionLines_eq, List.cons_append]
  have outer := isLocal_identifier (identifiers function (List.mem_cons_self ..))
  refine sections_function outer (isLocal_interior head) ?_
  cases tail with
  | nil => nofun
  | @cons next =>
    intro line first
    obtain rfl : .label next.name = line := by simpa [functionLines_eq] using first
    simp [opened?, isLocal_identifier (identifiers next (by simp))]

/-- Functions in a row are made up of their sections, in that order. -/
theorem functions_sections {functions : List Definition} {lines : Listing}
    (code : Functions permitted functions start lines final)
    (identifiers : ∀ function ∈ functions, Identifier function.name) :
    (sections lines).flatMap Section.whole = lines ∧ (sections lines).map (·.name) = functions.map (·.name) := by
  induction code with
  | nil => exact ⟨rfl, rfl⟩
  | cons head tail ih =>
    obtain ⟨whole, names⟩ := ih fun other member => identifiers other (List.mem_cons_of_mem _ member)
    rw [sections_functionLines identifiers head tail]
    refine ⟨?_, by rw [List.map_cons, List.map_cons, names]⟩
    rw [List.flatMap_cons, whole]
    rfl

theorem sections_header (lines : Listing) : sections (header ++ lines) = sections lines := rfl

end

end Stackwise.Proofs.Sections
