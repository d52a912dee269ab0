import Stackwise.Proofs.Formation
import Stackwise.Proofs.LoweringVerdicts

/-! Programs that were read from tokens. The parser checks the names and numbers of parameters
and arguments where it meets them, so whatever it builds, at any depth, has registers for all of
them. Only the definitions can clash with each other and with the calls. -/

namespace Stackwise.Proofs.ParsedLowering
open Assembly Lowering EmissionSuccess Formation LoweringVerdicts

theorem mem_bodyNodes {node : Term} {body : List Term} :
    node ∈ bodyNodes body ↔ ∃ statement ∈ body, node ∈ nodes statement := by
  induction body with
  | nil => simp [bodyNodes]
  | cons statement rest ih => simp [bodyNodes, ih]

theorem mem_argumentNodes {node : Term} {arguments : List (Nat × Term)} :
    node ∈ argumentNodes arguments ↔ ∃ argument ∈ arguments, node ∈ nodes argument.2 := by
  induction arguments with
  | nil => simp [argumentNodes]
  | cons argument rest ih => simp [argumentNodes, ih]

private theorem self_mem_nodes (term : Term) : term ∈ nodes term := by
  cases term with
  | branch test accepted otherwise => cases otherwise <;> simp [nodes]
  | leave value => cases value <;> simp [nodes]
  | _ => simp [nodes]

/-- Whatever is emitted stands in the term. -/
theorem mem_nodes_of_emittedIn {inner term : Term} (within : EmittedIn inner term) :
    inner ∈ nodes term := by
  induction within with
  | whole => exact self_mem_nodes inner
  | assigned _ ih | returned _ ih => simp [nodes, ih]
  | left _ ih | right _ ih | otherwise _ ih => simp [nodes, ih]
  | @test _ _ otherwise _ ih | @accepted _ _ otherwise _ ih => cases otherwise <;> simp [nodes, ih]
  | argument member _ ih =>
    rw [nodes]
    exact List.mem_cons_of_mem _ (mem_argumentNodes.mpr ⟨_, member, ih⟩)
  | listed _ _ ih =>
    rw [nodes]
    exact List.mem_cons_of_mem _ (mem_bodyNodes.mpr ⟨_, by simp, ih⟩)

def Proper : Term → Prop
  | .call callee arguments => isReserved callee = false ∧ ∀ argument ∈ arguments, argument.1 ≤ 5
  | .function name parameters body =>
    isReserved name = false ∧ parameters.length ≤ 6 ∧ WellFormed body
  | _ => True

private theorem proper_of_formed {category : Category} {term : Term} (formed : Formed category term) :
    ∀ node ∈ nodes term, Proper node := by
  have cons {node : Term} {rest : List Term} (head : Proper node) (tail : ∀ other ∈ rest, Proper other) :
      ∀ other ∈ node :: rest, Proper other := List.forall_mem_cons.mpr ⟨head, tail⟩
  have listed {body : List Term} (inner : ∀ statement ∈ body, ∀ node ∈ nodes statement, Proper node) :
      ∀ node ∈ bodyNodes body, Proper node := by
    intro node member
    obtain ⟨statement, inside, found⟩ := mem_bodyNodes.mp member
    exact inner statement inside node found
  induction formed with
  | literal | var | leave => simp [nodes, Proper]
  | assign _ ih | leaveWith _ ih =>
    rw [nodes]
    exact cons trivial ih
  | assignBlock _ ih =>
    rw [nodes, nodes]
    exact cons trivial (cons trivial (listed ih))
  | apply _ _ first second =>
    rw [nodes]
    exact cons trivial (List.forall_mem_append.mpr ⟨first, second⟩)
  | @call callee arguments callable few counted _ ih =>
    rw [nodes]
    refine cons ⟨callable, fun argument member => ?_⟩ fun node member => ?_
    · have position : argument.1 ∈ List.range arguments.length :=
        counted ▸ List.mem_map_of_mem member
      have := List.mem_range.mp position
      omega
    · obtain ⟨argument, passed, found⟩ := mem_argumentNodes.mp member
      exact ih argument passed node found
  | expression _ ih => exact ih
  | block _ ih =>
    rw [nodes]
    exact cons trivial (listed ih)
  | conditional _ _ test accepted =>
    rw [nodes]
    exact cons trivial (List.forall_mem_append.mpr ⟨test, accepted⟩)
  | alternative _ _ _ _ test accepted otherwise =>
    rw [nodes]
    exact cons trivial (List.forall_mem_append.mpr ⟨List.forall_mem_append.mpr ⟨test, accepted⟩, otherwise⟩)
  | function callable few _ inner ih =>
    rw [nodes]
    exact cons ⟨callable, few, inner⟩ (listed ih)

theorem proper_of_wellFormed {body : List Term} (formed : WellFormed body) :
    ∀ node ∈ bodyNodes body, Proper node := by
  intro node member
  obtain ⟨statement, inside, found⟩ := mem_bodyNodes.mp member
  exact proper_of_formed (formed statement inside) node found

private theorem not_reserves_of_proper {node : Term} (proper : Proper node) : ¬ Reserves node := by
  rintro ⟨name, reserved, ⟨parameters, body, rfl⟩ | ⟨arguments, rfl⟩⟩
  · simp [proper.1] at reserved
  · simp [proper.1] at reserved

/-- The arguments of the calls that are emitted in a well-formed body have registers. -/
theorem few_of_emittedIn {body : List Term} (formed : WellFormed body) {callee : String}
    {arguments : List (Nat × Term)} (within : EmittedIn (.call callee arguments) (.block body)) :
    ∀ argument ∈ arguments, argument.1 ≤ 5 := by
  have member : .call callee arguments ∈ bodyNodes body := by
    simpa [nodes] using mem_nodes_of_emittedIn within
  exact (proper_of_wellFormed formed _ member).2

private theorem not_overloads_of_wellFormed {program : List Term} (formed : WellFormed program) :
    ¬ Overloads program := by
  have proper := proper_of_wellFormed formed
  rintro (⟨name, parameters, body, member, many⟩ | ⟨callee, arguments, emitted, argument, passed, beyond⟩)
  · exact Nat.not_lt.mpr (proper _ member).2.1 many
  · apply Nat.not_lt.mpr _ beyond
    obtain within | ⟨name, parameters, body, member, within⟩ := emitted
    · exact few_of_emittedIn formed within argument passed
    · exact few_of_emittedIn (proper _ member).2.2 within argument passed

theorem verdict_of_wellFormed {program : List Term} (formed : WellFormed program) :
    (∃ listing, lower program = .ok listing) ∨ (∃ name, lower program = .error (.redefined name)) ∨
      ∃ callee expected found, lower program = .error (.arity callee expected found) := by
  have unreserved := reservedName?_eq_none_iff.mpr fun node member =>
    not_reserves_of_proper (proper_of_wellFormed formed node member)
  have result := outcome program
  generalize lower program = verdict at result ⊢
  cases result with
  | @redefined name => exact .inr (.inl ⟨name, rfl⟩)
  | reserved _ found => simp [unreserved] at found
  | miscalled free _ found =>
    obtain ⟨callee, arguments, parameters, body, -, -, rfl⟩ :=
      (wrongCall?_eq_some_iff (redefinition?_eq_none_iff.mp free)).mp found
    exact .inr (.inr ⟨callee, _, _, rfl⟩)
  | overloaded _ _ _ overloads => exact (not_overloads_of_wellFormed formed overloads).elim
  | @lowered listing => exact .inl ⟨listing, rfl⟩

/-- A program that was read has no defect: it is lowered, or its definitions clash, or a call
does not fit its definition. -/
theorem lower_of_parse {tokens : List Token} {program : List Term}
    (accepted : parse tokens = .ok program) :
    ((∃ listing, lower program = .ok listing) ∨ (∃ name, lower program = .error (.redefined name)) ∨
      ∃ callee expected found, lower program = .error (.arity callee expected found)) ∧
    ∀ text, lower program ≠ .error (.defect text) := by
  have verdict := verdict_of_wellFormed (wellFormed_of_parse accepted)
  refine ⟨verdict, fun text refused => ?_⟩
  rw [refused] at verdict
  rcases verdict with ⟨_, lowered⟩ | ⟨_, redefined⟩ | ⟨_, _, _, miscalled⟩
  · cases lowered
  · cases redefined
  · cases miscalled

/-- The tokens of `return; f(1); def f() { }`: a call that is never emitted and does not fit. -/
def idleMiscall : List Token :=
  [⟨.returnWord, 0, 6⟩, ⟨.symbol ";", 6, 1⟩, ⟨.name "f", 8, 1⟩, ⟨.symbol "(", 9, 1⟩, ⟨.number 1, 10, 1⟩,
    ⟨.symbol ")", 11, 1⟩, ⟨.symbol ";", 12, 1⟩, ⟨.symbol "def", 14, 3⟩, ⟨.name "f", 18, 1⟩,
    ⟨.symbol "(", 19, 1⟩, ⟨.symbol ")", 20, 1⟩, ⟨.symbol "\x7b", 22, 1⟩, ⟨.symbol "\x7d", 24, 1⟩]

theorem lower_idleMiscall : ∃ program, parse idleMiscall = .ok program ∧
    ∀ text, lower program ≠ .error (.defect text) := by
  have readable : (parse idleMiscall).isOk = true := by decide +kernel
  cases accepted : parse idleMiscall with
  | error diagnostic => simp [accepted, Except.isOk, Except.toBool] at readable
  | ok program => exact ⟨program, rfl, (lower_of_parse accepted).2⟩

end Stackwise.Proofs.ParsedLowering
