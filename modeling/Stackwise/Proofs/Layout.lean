import Stackwise.Compile
import Stackwise.Proofs.ParallelReadings

/-! Layout does not matter. The places of tokens are carried along for diagnostics and decide
nothing: tokens of the same kinds are read as the same program, or refused for the same reason. So
blanks and leading zeros change neither a listing nor the words of a diagnostic. -/

namespace Stackwise.Proofs.Layout
open Grammar ParallelReadings

private def kindPairing {ending other : Token} (same : ending.kind = other.kind) : Pairing :=
  .ofKinds [] ending other Pairing.inert_nil (fun _ => same)

section
variable {first second : List Token}

private theorem map_kind_closed (same : first.map Token.kind = second.map Token.kind) :
    (closed first).map Token.kind = (closed second).map Token.kind := by
  have last : first.getLast?.map Token.kind = second.getLast?.map Token.kind := by
    rw [← List.getLast?_map, ← List.getLast?_map, same]
  unfold closed
  cases one : first.getLast? with
  | none =>
    rw [one, eq_comm, Option.map_none, Option.map_eq_none_iff] at last
    rw [last]
  | some token =>
    rw [one, eq_comm, Option.map_some, Option.map_eq_some_iff] at last
    obtain ⟨twin, two, kind⟩ := last
    simp only [two, Token.isEnding, kind]
    by_cases ends : token.kind = .endOfInput
    · simpa [ends] using same
    · simp [ends, same]

private theorem map_kind_takeWhile (same : first.map Token.kind = second.map Token.kind) :
    (first.takeWhile (!·.isEnding)).map Token.kind = (second.takeWhile (!·.isEnding)).map Token.kind := by
  have through (tokens : List Token) : (tokens.takeWhile (!·.isEnding)).map Token.kind =
      (tokens.map Token.kind).takeWhile (fun kind => !decide (kind = .endOfInput)) := by
    rw [List.takeWhile_map]
    rfl
  rw [through, through, same]

private theorem map_kind_dropWhile (same : first.map Token.kind = second.map Token.kind) :
    (first.dropWhile (!·.isEnding)).map Token.kind = (second.dropWhile (!·.isEnding)).map Token.kind := by
  have through (tokens : List Token) : (tokens.dropWhile (!·.isEnding)).map Token.kind =
      (tokens.map Token.kind).dropWhile (fun kind => !decide (kind = .endOfInput)) := by
    rw [List.dropWhile_map]
    rfl
  rw [through, through, same]

private theorem kind_headD (same : first.map Token.kind = second.map Token.kind) (token : Token) :
    (first.headD token).kind = (second.headD token).kind := by
  cases forall₂_kind same with
  | nil => rfl
  | cons related _ => exact related

end

/-- Two readings have the same outcome but for places. -/
inductive Alike : Except Diagnostic (List Term) → Except Diagnostic (List Term) → Prop where
  | read (nodes : List Term) : Alike (.ok nodes) (.ok nodes)
  | unexpected (expected found : String) (offset other : Nat) :
      Alike (.error (.unexpected expected found offset)) (.error (.unexpected expected found other))
  | leftover (nodes : List Term) {rest others : List Token} (kinds : rest.map Token.kind = others.map Token.kind) :
      Alike (.error (.leftover nodes rest)) (.error (.leftover nodes others))

private theorem program_kinds {ending other : Token} {first second : List Token} (closing : ending.kind = other.kind)
    (same : first.map Token.kind = second.map Token.kind) :
    (kindPairing closing).Relates (fun one two => one.1 = two.1 ∧ one.2.map Token.kind = two.2.map Token.kind)
      (program ending first) (program other second) := by
  have mirrors : (kindPairing closing).Mirrors first second :=
    ⟨second, (List.append_nil second).symm, forall₂_kind same⟩
  have reading := (kindPairing closing).program_parallel mirrors
  refine reading.imp fun one two ⟨nodes, front, whole, left⟩ => ⟨nodes, ?_⟩
  rw [map_kind_of_forall₂ left, whole]
  exact congrArg _ (List.append_nil front).symm

private theorem parse_alike {first second : List Token} (same : first.map Token.kind = second.map Token.kind) :
    Alike (parse first) (parse second) := by
  have code := map_kind_takeWhile (map_kind_closed same)
  have beyond := map_kind_dropWhile (map_kind_closed same)
  have reading := program_kinds (kind_headD beyond (Token.ending 0)) code
  unfold parse
  dsimp only
  generalize program _ ((closed first).takeWhile _) = one, program _ ((closed second).takeWhile _) = two
    at reading ⊢
  cases one with
  | error mismatch =>
    obtain ⟨other, rfl, expected, found⟩ := reading rfl
    have found : mismatch.token.kind = other.token.kind := found
    simp only [Mismatch.diagnostic, expected, found]
    exact .unexpected _ _ _ _
  | ok outcome =>
    obtain ⟨nodes, rest⟩ := outcome
    obtain ⟨⟨read, others⟩, rfl, rfl, kinds⟩ := reading
    cases forall₂_kind kinds with
    | nil => exact .read nodes
    | cons =>
      refine .leftover nodes ?_
      rw [List.map_append, List.map_append, beyond]
      exact congrArg (· ++ _) kinds

/-- What is left over is reported by its first kind. -/
theorem message_leftover (nodes : List Term) {rest others : List Token}
    (kinds : rest.map Token.kind = others.map Token.kind) :
    (Diagnostic.leftover nodes rest).message = (Diagnostic.leftover nodes others).message := by
  have head : rest.head?.map Token.kind = others.head?.map Token.kind := by
    rw [← List.head?_map, ← List.head?_map, kinds]
  unfold Diagnostic.message
  dsimp only
  rw [show (rest.head?.map fun token => token.kind) = _ from head]

private theorem compile_of_scan {source : String} {tokens : List Token} (scanned : scan source = .ok tokens) :
    compile source = parse tokens >>= lower := by
  rw [compile, readSource, scanned]
  rfl

/-- Tokens of the same kinds give the same program, or fail with the same words at the place that
each list has for them. Sources with such tokens give the same listing or the same message. -/
theorem layout_irrelevant :
    (∀ first second : List Token, first.map Token.kind = second.map Token.kind →
      (∃ nodes, parse first = .ok nodes ∧ parse second = .ok nodes) ∨
      (∃ expected found offset other, parse first = .error (.unexpected expected found offset) ∧
        parse second = .error (.unexpected expected found other)) ∨
      ∃ nodes rest others, parse first = .error (.leftover nodes rest) ∧
        parse second = .error (.leftover nodes others) ∧ rest.map Token.kind = others.map Token.kind) ∧
    ∀ (one two : String) (first second : List Token), scan one = .ok first → scan two = .ok second →
      first.map Token.kind = second.map Token.kind →
      (∃ listing, compile one = .ok listing ∧ compile two = .ok listing) ∨
      ∃ refusal other, compile one = .error refusal ∧ compile two = .error other ∧
        refusal.message = other.message := by
  constructor
  · intro first second same
    have alike := parse_alike same
    generalize parse first = one, parse second = two at alike
    cases alike with
    | read nodes => exact .inl ⟨nodes, rfl, rfl⟩
    | unexpected expected found offset other => exact .inr (.inl ⟨expected, found, offset, other, rfl, rfl⟩)
    | leftover nodes kinds => exact .inr (.inr ⟨nodes, _, _, rfl, rfl, kinds⟩)
  · intro one two first second scanned other same
    have alike := parse_alike same
    rw [compile_of_scan scanned, compile_of_scan other]
    generalize parse first = one, parse second = two at alike
    cases alike with
    | read nodes =>
      show (∃ listing, lower nodes = .ok listing ∧ lower nodes = .ok listing) ∨ _
      cases lowered : lower nodes with
      | ok listing => exact .inl ⟨listing, rfl, rfl⟩
      | error refusal => exact .inr ⟨refusal, refusal, lowered, lowered, rfl⟩
    | unexpected expected found offset other => exact .inr ⟨_, _, rfl, rfl, rfl⟩
    | leftover nodes kinds => exact .inr ⟨_, _, rfl, rfl, message_leftover nodes kinds⟩

/-- A program written close together, and the same one spread out with a longer numeral. A token that
ends where offsets wrap around is read like one in front of the source. -/
theorem spread_layout_irrelevant :
    (∃ first second, scan "x=1;x+2" = .ok first ∧ scan " x = 01;\n x +2" = .ok second ∧
      first.map Token.kind = second.map Token.kind ∧
      ∃ listing, compile "x=1;x+2" = .ok listing ∧ compile " x = 01;\n x +2" = .ok listing) ∧
    closed [⟨.number 1, 0xffffffffffffffff, 1⟩] = [⟨.number 1, 0xffffffffffffffff, 1⟩, Token.ending 0] ∧
    ∃ nodes, parse [⟨.number 1, 0, 1⟩] = .ok nodes ∧ parse [⟨.number 1, 0xffffffffffffffff, 1⟩] = .ok nodes := by
  have close : Token.scan "x=1;x+2" = .ok [⟨.name "x", 0, 1⟩, ⟨.symbol "=", 1, 1⟩, ⟨.number 1, 2, 1⟩,
      ⟨.symbol ";", 3, 1⟩, ⟨.name "x", 4, 1⟩, ⟨.symbol "+", 5, 1⟩, ⟨.number 2, 6, 1⟩, .ending 7] := by
    decide +kernel
  have spread : Token.scan " x = 01;\n x +2" = .ok [⟨.name "x", 1, 1⟩, ⟨.symbol "=", 3, 1⟩,
      ⟨.number 1, 5, 2⟩, ⟨.symbol ";", 7, 1⟩, ⟨.name "x", 10, 1⟩, ⟨.symbol "+", 12, 1⟩,
      ⟨.number 2, 13, 1⟩, .ending 14] := by
    decide +kernel
  have first := congrArg (Except.mapError ScanFault.diagnostic) close
  have second := congrArg (Except.mapError ScanFault.diagnostic) spread
  refine ⟨⟨_, _, first, second, rfl, ?_⟩, by decide, ?_⟩
  · rcases layout_irrelevant.2 _ _ _ _ first second rfl with compiled | ⟨refusal, -, refused, -⟩
    · exact compiled
    · have compiles : (compile "x=1;x+2").isOk = true := by decide +kernel
      rw [refused] at compiles
      cases compiles
  · have readable : (parse [⟨.number 1, 0, 1⟩]).isOk = true := by decide +kernel
    rcases layout_irrelevant.1 [⟨.number 1, 0, 1⟩] [⟨.number 1, 0xffffffffffffffff, 1⟩] rfl with
      read | ⟨_, _, _, _, refused, -⟩ | ⟨_, _, _, refused, -⟩
    · exact read
    · rw [refused] at readable
      cases readable
    · rw [refused] at readable
      cases readable

end Stackwise.Proofs.Layout
