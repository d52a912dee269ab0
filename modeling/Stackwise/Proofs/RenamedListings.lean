import Stackwise.Proofs.RenamedLowering

/-! Comments mean nothing to the machine. A line is cut at its first hash sign before it is read, so
texts that differ only behind hash signs load as the same program. The names of variables stand in
comments and nowhere else in a listing, and renaming them is therefore invisible in a run. -/

namespace Stackwise.Proofs.RenamedListings
open Assembly Machine SourceTerms ListingText FrameSlots RenamedLowering

/-- Two lines are equal, or both have a hash sign and are equal up to the first one. -/
def UpToComment (one two : List Char) : Prop :=
  one = two ∨ '#' ∈ one ∧ '#' ∈ two ∧ Text.before '#' one = Text.before '#' two

section Lines

variable {one two : List Char}

private theorem UpToComment.before_eq (same : UpToComment one two) : Text.before '#' one = Text.before '#' two := by
  rcases same with rfl | ⟨-, -, same⟩
  · rfl
  · exact same

private theorem UpToComment.cons (c : Char) (same : UpToComment one two) : UpToComment (c :: one) (c :: two) := by
  rcases same with rfl | ⟨first, second, same⟩
  · exact .inl rfl
  · refine .inr ⟨List.mem_cons_of_mem c first, List.mem_cons_of_mem c second, ?_⟩
    unfold Text.before at same ⊢
    rw [List.takeWhile_cons, List.takeWhile_cons, same]

private theorem ofLine?_congr (same : UpToComment one two) : Entry.ofLine? one = Entry.ofLine? two := by
  rw [Entry.ofLine?, Entry.ofLine?, same.before_eq]

/-- The same characters in front lengthen the first lines alike, or stand on lines of their own. -/
theorem lines_behind (front : List Char) (alike : List.Forall₂ UpToComment (Text.lines one) (Text.lines two)) :
    List.Forall₂ UpToComment (Text.lines (front ++ one)) (Text.lines (front ++ two)) := by
  induction front with
  | nil => exact alike
  | cons c front ih =>
    rw [List.cons_append, List.cons_append, Text.lines, Text.lines]
    split
    · exact .cons (.inl rfl) ih
    · generalize Text.lines (front ++ one) = first, Text.lines (front ++ two) = second at ih
      cases ih with
      | nil => exact .cons (.inl rfl) .nil
      | cons head tail => exact .cons (head.cons c) tail

/-- A comment ends where its line does, and what it says does not matter. -/
theorem lines_comment {comment other : List Char} (free : '\n' ∉ comment) (clear : '\n' ∉ other)
    (alike : List.Forall₂ UpToComment (Text.lines one) (Text.lines two)) :
    List.Forall₂ UpToComment (Text.lines ('#' :: comment ++ '\n' :: one)) (Text.lines ('#' :: other ++ '\n' :: two)) := by
  have unbroken {text : List Char} (inside : '\n' ∉ text) : '\n' ∉ '#' :: text := by simp [inside]
  rw [lines_append _ (unbroken free), lines_append _ (unbroken clear)]
  refine .cons (.inr ⟨List.mem_cons_self, List.mem_cons_self, ?_⟩) alike
  simp [Text.before]

private theorem text_cons (line : Line) (rest : Listing) :
    (Listing.text (line :: rest)).toList = line.text.toList ++ '\n' :: (Listing.text rest).toList := by
  simp [Listing.text, String.join_cons]

end Lines

section Listings

/-- A listing and the listing with its comments renamed agree line by line, up to the comments. -/
theorem lines_renamed (rename : String → String) {listing : Listing}
    (free : ∀ name ∈ comments listing, '\n' ∉ name.toList)
    (clear : ∀ name ∈ comments listing, '\n' ∉ (rename name).toList) :
    List.Forall₂ UpToComment (Text.lines (Listing.text listing).toList)
      (Text.lines (Listing.text (listing.map (renamedLine rename))).toList) := by
  induction listing with
  | nil => exact .cons (.inl rfl) .nil
  | cons line rest ih =>
    have inner (named : ∀ name ∈ comments rest, name ∈ comments (line :: rest)) :=
      ih (fun name member => free name (named name member)) fun name member => clear name (named name member)
    rw [List.map_cons, text_cons, text_cons]
    match line with
    | .directive text =>
      exact lines_behind text.toList (lines_behind ['\n'] (inner fun _ member => member))
    | .label name =>
      exact lines_behind (name ++ ":").toList (lines_behind ['\n'] (inner fun _ member => member))
    | .code instruction none =>
      exact lines_behind ("  " ++ instruction.text).toList (lines_behind ['\n'] (inner fun _ member => member))
    | .code instruction (some comment) =>
      have known : comment ∈ comments (.code instruction (some comment) :: rest) := List.mem_cons_self
      have spaced {name : String} (inside : '\n' ∉ name.toList) : '\n' ∉ ' ' :: name.toList := by simp [inside]
      have shape (name : String) : (Line.code instruction (some name)).text.toList =
          ("  " ++ instruction.text ++ " ").toList ++ '#' :: ' ' :: name.toList := by simp [Line.text]
      have commented := lines_comment (spaced (free comment known)) (spaced (clear comment known))
        (inner fun _ member => List.mem_cons_of_mem _ member)
      rw [renamedLine, Option.map_some, shape, shape, List.append_assoc, List.append_assoc]
      exact lines_behind _ commented

private theorem load_congr {one two : String}
    (alike : List.Forall₂ UpToComment (Text.lines one.toList) (Text.lines two.toList)) :
    Program.load one = Program.load two := by
  have entries : (Text.lines one.toList).filterMap Entry.ofLine? = (Text.lines two.toList).filterMap Entry.ofLine? := by
    generalize Text.lines one.toList = first, Text.lines two.toList = second at alike
    induction alike with
    | nil => rfl
    | cons head _ ih => rw [List.filterMap_cons, List.filterMap_cons, ofLine?_congr head, ih]
  rw [Program.load, Program.load, entries]

private theorem run_congr {one two : String}
    (alike : List.Forall₂ UpToComment (Text.lines one.toList) (Text.lines two.toList)) : run one = run two := by
  rw [run, run, load_congr alike]

end Listings

section Sources

variable {permitted : String → Nat → Prop}

mutual

/-- The variables of a regular term are identifiers. -/
theorem identifier_of_locals {name : String} : {term : Term} → Regular permitted term → name ∈ locals term →
    Identifier name
  | .literal _, _, member | .leave none, _, member => by simp [locals] at member
  | .var _, regular, member => by
    rw [locals] at member
    rw [List.mem_singleton.mp member]
    exact regular
  | .assign _ _, regular, member => by
    rw [locals] at member
    rcases List.mem_cons.mp member with rfl | member
    · exact regular.1
    · exact identifier_of_locals regular.2 member
  | .apply _ _ _, regular, member | .branch _ _ none, regular, member => by
    rw [locals] at member
    rcases List.mem_append.mp member with member | member
    · exact identifier_of_locals regular.1 member
    · exact identifier_of_locals regular.2 member
  | .branch _ _ (some _), regular, member => by
    rw [locals] at member
    rcases List.mem_append.mp member with member | member
    · rcases List.mem_append.mp member with member | member
      · exact identifier_of_locals regular.1 member
      · exact identifier_of_locals regular.2.1 member
    · exact identifier_of_locals regular.2.2 member
  | .leave (some value), regular, member => by
    rw [locals] at member
    exact @identifier_of_locals name value regular member
  | .block body, regular, member => by
    rw [locals] at member
    exact @identifier_of_bodyLocals name body regular member
  | .call _ _, regular, member => by
    rw [locals] at member
    exact identifier_of_argumentLocals regular.2.2.2 member
  | .function _ _ _, regular, member => by
    rw [locals] at member
    rcases List.mem_append.mp member with member | member
    · exact regular.2.1 name member
    · exact identifier_of_bodyLocals regular.2.2 member

theorem identifier_of_bodyLocals {name : String} : {body : List Term} → RegularBody permitted body →
    name ∈ bodyLocals body → Identifier name
  | [], _, member => by simp [bodyLocals] at member
  | _ :: _, regular, member => by
    rw [bodyLocals] at member
    rcases List.mem_append.mp member with member | member
    · exact identifier_of_locals regular.1 member
    · exact identifier_of_bodyLocals regular.2 member

theorem identifier_of_argumentLocals {name : String} : {arguments : List (Nat × Term)} →
    RegularArguments permitted arguments → name ∈ argumentLocals arguments → Identifier name
  | [], _, member => by simp [argumentLocals] at member
  | (_, _) :: _, regular, member => by
    rw [argumentLocals] at member
    rcases List.mem_append.mp member with member | member
    · exact identifier_of_locals regular.1 member
    · exact identifier_of_argumentLocals regular.2 member

end

end Sources

/-- Rename the variables of a program that was read from a source, keeping them apart, to identifiers.
Both programs are refused with the same diagnostic, or both are lowered. Then the texts of their
listings agree line by line up to the comments, and their runs have the same outcome. -/
theorem renaming_unseen {source : String} {program : List Term} (accepted : readSource source = .ok program)
    {rename : String → String} (apart : Set.InjOn rename {name | name ∈ bodyLocals program})
    (identifiers : ∀ name ∈ bodyLocals program, Identifier (rename name)) :
    (∃ refusal, lower program = .error refusal ∧ lower (renamedBody rename program) = .error refusal) ∨
    ∃ listing other, lower program = .ok listing ∧ lower (renamedBody rename program) = .ok other ∧
      List.Forall₂ UpToComment (Text.lines listing.text.toList) (Text.lines other.text.toList) ∧
      run listing.text = run other.text := by
  have regular : RegularBody _ program := (regular_functions accepted List.mem_cons_self).2.2
  obtain ⟨again, commented⟩ := lower_renamed apart
  cases lowered : lower program with
  | error refusal =>
    refine .inl ⟨refusal, rfl, ?_⟩
    rw [again, lowered]
    rfl
  | ok listing =>
    have unbroken {name : String} (identifier : Identifier name) : '\n' ∉ name.toList :=
      identifier.solid.free (by decide)
    have alike := lines_renamed rename
      (fun name member => unbroken (identifier_of_bodyLocals regular (commented listing lowered member)))
      (fun name member => unbroken (identifiers name (commented listing lowered member)))
    refine .inr ⟨listing, listing.map (renamedLine rename), rfl, ?_, alike, run_congr alike⟩
    rw [again, lowered]
    rfl

/-- A function that stores its parameter and reads a variable that nobody assigns. -/
def forgetful : String := "def f(a)\x7bb=a;c\x7df(2)"

/-- One variable takes the name of a register, one that of another variable, one that of the function. -/
def disguise (name : String) : String :=
  if name = "a" then "rax" else if name = "b" then "a" else "f"

theorem forgetful_renaming_unseen :
    ∃ program listing other, readSource forgetful = .ok program ∧ lower program = .ok listing ∧
      lower (renamedBody disguise program) = .ok other ∧ comments listing ≠ comments other ∧
      List.Forall₂ UpToComment (Text.lines listing.text.toList) (Text.lines other.text.toList) ∧
      run listing.text = run other.text := by
  have names : (readSource forgetful).toOption.map bodyLocals = some ["a", "b", "a", "c"] := by decide +kernel
  have visible : ((readSource forgetful).toOption.bind fun program => (lower program).toOption).map comments =
      some ["a", "b", "a", "c"] := by decide +kernel
  have disguised : ((readSource forgetful).toOption.bind fun program =>
      (lower (renamedBody disguise program)).toOption).map comments = some ["rax", "a", "rax", "f"] := by
    decide +kernel
  cases accepted : readSource forgetful with
  | error refusal => simp [accepted, Except.toOption] at names
  | ok program =>
    have locals : bodyLocals program = ["a", "b", "a", "c"] := by simpa [accepted, Except.toOption] using names
    have apart : Set.InjOn disguise {name | name ∈ bodyLocals program} := by
      have distinct : ∀ one ∈ ["a", "b", "a", "c"], ∀ two ∈ ["a", "b", "a", "c"],
          disguise one = disguise two → one = two := by decide
      rw [locals]
      exact fun one first two second same => distinct one first two second same
    have identifiers : ∀ name ∈ bodyLocals program, Identifier (disguise name) := by
      have spelled : ∀ name ∈ ["a", "b", "a", "c"], disguise name ∈ ["rax", "a", "f"] := by decide
      intro name member
      rw [locals] at member
      have known := spelled name member
      simp only [List.mem_cons, List.not_mem_nil, or_false] at known
      rcases known with known | known | known
      · rw [known]
        exact ⟨'r', ['a', 'x'], by decide, by decide, List.all_eq_true.mp (by decide)⟩
      · rw [known]
        exact ⟨'a', [], by decide, by decide, List.all_eq_true.mp (by decide)⟩
      · rw [known]
        exact ⟨'f', [], by decide, by decide, List.all_eq_true.mp (by decide)⟩
    obtain ⟨refusal, refused, -⟩ | ⟨listing, other, lowered, again, alike, outcome⟩ :=
      renaming_unseen accepted apart identifiers
    · simp [accepted, refused, Except.toOption] at visible
    · have shown : comments listing = ["a", "b", "a", "c"] := by
        simpa [accepted, lowered, Except.toOption] using visible
      have hidden : comments other = ["rax", "a", "rax", "f"] := by
        simpa [accepted, again, Except.toOption] using disguised
      refine ⟨program, listing, other, rfl, lowered, again, ?_, alike, outcome⟩
      rw [shown, hidden]
      decide

end Stackwise.Proofs.RenamedListings
