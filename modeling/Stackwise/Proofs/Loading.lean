import Stackwise.Proofs.ListingText

/-! Loading puts every line of a listing in its place: an instruction at the address that counts
the instructions before it, and a label at the address of the next one. A listing that repeats no
label always loads. -/

namespace Stackwise.Proofs.Loading
open Assembly Machine ListingText

def labelName? : Line → Option String
  | .label name => some name
  | .directive _ | .code _ _ => none

def instruction? : Line → Option Instruction
  | .code instruction _ => some instruction
  | .directive _ | .label _ => none

def labelNames (lines : Listing) : List String := lines.filterMap labelName?

def instructions (lines : Listing) : List Instruction := lines.filterMap instruction?

def span (lines : Listing) : Nat := (instructions lines).length

/-- The lines stand in the program from an address on. -/
def Placed (program : Program) : Nat → Listing → Prop
  | _, [] => True
  | address, .directive _ :: rest => Placed program address rest
  | address, .label name :: rest =>
    program.labels.get? name = some address ∧ Placed program address rest
  | address, .code instruction _ :: rest =>
    program.code[address]? = some (.ok instruction) ∧ Placed program (address + 1) rest

@[simp] theorem span_nil : span [] = 0 := rfl

@[simp] theorem span_directive (text : String) (rest : Listing) :
    span (.directive text :: rest) = span rest := rfl

@[simp] theorem span_label (name : String) (rest : Listing) : span (.label name :: rest) = span rest := rfl

@[simp] theorem span_code (instruction : Instruction) (comment : Option String) (rest : Listing) :
    span (.code instruction comment :: rest) = span rest + 1 := rfl

@[simp] theorem span_append (front back : Listing) : span (front ++ back) = span front + span back := by
  simp [span, instructions]

theorem placed_append {program : Program} {address : Nat} {front back : Listing} :
    Placed program address (front ++ back) ↔
      Placed program address front ∧ Placed program (address + span front) back := by
  induction front generalizing address with
  | nil => simp [Placed]
  | cons line rest ih =>
    cases line with
    | directive text => exact ih
    | label name => simp only [List.cons_append, Placed, span_label, ih, and_assoc]
    | code instruction comment =>
      simp only [List.cons_append, Placed, span_code, ih, and_assoc, Nat.add_assoc, Nat.add_comm]

/-- Every address that the lines take up holds one of their instructions. -/
theorem Placed.found {program : Program} {lines : Listing} {address index : Nat}
    (placed : Placed program address lines) (inside : index < span lines) :
    ∃ instruction ∈ instructions lines, program.code[address + index]? = some (.ok instruction) := by
  induction lines generalizing address index with
  | nil => exact absurd inside (Nat.not_lt_zero index)
  | cons line rest ih =>
    cases line with
    | directive text => exact ih placed inside
    | label name => exact ih placed.2 inside
    | code instruction comment =>
      cases index with
      | zero => exact ⟨instruction, List.mem_cons_self .., placed.1⟩
      | succ index =>
        obtain ⟨other, member, found⟩ := ih placed.2 (Nat.lt_of_succ_lt_succ inside)
        refine ⟨other, List.mem_cons_of_mem _ member, ?_⟩
        rwa [Nat.add_assoc, Nat.add_comm 1] at found

structure Extends (first second : Program) : Prop where
  code : ∀ (address : Nat) read, first.code[address]? = some read → second.code[address]? = some read
  labels : ∀ name address, first.labels.get? name = some address → second.labels.get? name = some address

private theorem Extends.trans {first second third : Program} (one : Extends first second)
    (two : Extends second third) : Extends first third :=
  ⟨fun address read found => two.code _ _ (one.code address read found),
    fun name address found => two.labels _ _ (one.labels name address found)⟩

private theorem extends_push (program : Program) (read : Except ReadFault Instruction) :
    Extends program { program with code := program.code.push read } := by
  refine ⟨fun address found same => ?_, fun _ _ same => same⟩
  have inside := (Array.getElem?_eq_some_iff.mp same).1
  rw [Array.getElem?_push_lt inside, ← Array.getElem?_eq_getElem inside]
  exact same

private theorem extends_insert {program : Program} {name : String} (address : Nat)
    (fresh : program.labels.contains name = false) :
    Extends program { program with labels := program.labels.insert name address } := by
  refine ⟨fun _ _ same => same, fun other found same => ?_⟩
  have different : name ≠ other := by
    rintro rfl
    rw [Std.TreeMap.contains_eq_isSome_getElem?] at fresh
    simp [Std.TreeMap.get?_eq_getElem?] at same
    simp [same] at fresh
  simp only [Std.TreeMap.get?_eq_getElem?] at same ⊢
  rw [Std.TreeMap.getElem?_insert]
  simp [different, same]

private theorem contains_eq_false_iff {program : Program} {name : String} :
    program.labels.contains name = false ↔ program.labels.get? name = none := by
  rw [Std.TreeMap.contains_eq_isSome_getElem?, Std.TreeMap.get?_eq_getElem?, Option.isSome_eq_false_iff,
    Option.isNone_iff_eq_none]

structure Loads (program loaded : Program) (lines : Listing) : Prop where
  kept : Extends program loaded
  placed : Placed loaded program.code.size lines
  size : loaded.code.size = program.code.size + span lines
  labels : ∀ name, loaded.labels.get? name ≠ none →
    program.labels.get? name ≠ none ∨ name ∈ labelNames lines

private theorem addAll_lines {lines : Listing} (distinct : (labelNames lines).Nodup) (program : Program)
    (fresh : ∀ name ∈ labelNames lines, program.labels.contains name = false) :
    ∃ loaded, program.addAll (lines.filterMap entry?) = .ok loaded ∧ Loads program loaded lines := by
  induction lines generalizing program with
  | nil => exact ⟨program, rfl, ⟨⟨fun _ _ same => same, fun _ _ same => same⟩, trivial, rfl, fun _ => .inl⟩⟩
  | cons line rest ih =>
    cases line with
    | directive text =>
      obtain ⟨loaded, added, loads⟩ := ih distinct program fresh
      exact ⟨loaded, added, loads.kept, loads.placed, loads.size, loads.labels⟩
    | code instruction comment =>
      obtain ⟨loaded, added, loads⟩ := ih distinct { program with code := program.code.push (.ok instruction) } fresh
      refine ⟨loaded, added, (extends_push _ _).trans loads.kept, ⟨?_, ?_⟩, ?_, loads.labels⟩
      · exact loads.kept.code _ _ Array.getElem?_push_size
      · simpa using loads.placed
      · rw [loads.size, Array.size_push, span_code]
        omega
    | label name =>
      obtain ⟨absent, others⟩ := List.nodup_cons.mp distinct
      have free : program.labels.contains name = false := fresh name (List.mem_cons_self ..)
      have still : ∀ other ∈ labelNames rest,
          (program.labels.insert name program.code.size).contains other = false := by
        intro other member
        have different : name ≠ other := by
          intro same
          exact absent (same ▸ member)
        rw [Std.TreeMap.contains_insert, fresh other (List.mem_cons_of_mem _ member)]
        simp [different]
      obtain ⟨loaded, added, loads⟩ := ih others ⟨program.code, program.labels.insert name program.code.size⟩ still
      refine ⟨loaded, ?_, (extends_insert _ free).trans loads.kept, ⟨?_, loads.placed⟩, loads.size, ?_⟩
      · simp only [List.filterMap_cons, entry?, Program.addAll, Program.add, free]
        exact added
      · exact loads.kept.labels _ _ (by simp [Std.TreeMap.get?_eq_getElem?])
      · intro other found
        rcases loads.labels other found with known | member
        · by_cases same : name = other
          · exact .inr (List.mem_cons.mpr (.inl same.symm))
          · refine .inl fun missing => known ?_
            rw [Std.TreeMap.get?_eq_getElem?] at missing ⊢
            rw [Std.TreeMap.getElem?_insert, missing]
            simp [same]
        · exact .inr (List.mem_cons_of_mem _ member)

/-- A legible listing without repeated labels loads, with its lines from address zero on. -/
theorem load_listing {listing : Listing} (legible : ∀ line ∈ listing, LegibleLine line)
    (distinct : (labelNames listing).Nodup) :
    ∃ loaded, Program.load (Listing.text listing) = .ok loaded ∧
      Program.empty.addAll (listing.filterMap entry?) = .ok loaded ∧ Placed loaded 0 listing ∧
      loaded.code.size = span listing ∧
      ∀ name, loaded.labels.get? name ≠ none → name ∈ labelNames listing := by
  have none (name : String) : Program.empty.labels.get? name = .none := by
    simp [Program.empty, Std.TreeMap.get?_eq_getElem?]
  obtain ⟨loaded, added, loads⟩ := addAll_lines distinct Program.empty fun name _ =>
    contains_eq_false_iff.mpr (none name)
  refine ⟨loaded, by rw [load_text legible, added], added, loads.placed, ?_, fun name found => ?_⟩
  · rw [loads.size]
    exact Nat.zero_add _
  · rcases loads.labels name found with known | member
    · exact absurd (none name) known
    · exact member

end Stackwise.Proofs.Loading
