import Mathlib.Data.List.Basic
import Stackwise.Proofs.Lookahead

/-! Programs in parts. The statements in front of a token that begins none are a program of their own,
so a reading that stops there has told the two parts apart. Two programs in a row are one program, if the
first one is sealed. -/

namespace Stackwise.Proofs.ProgramParts
open Grammar GrammarSoundness GrammarCompleteness Lookahead

/-- Statements are read up to a token that begins none. -/
theorem not_atStatement_of_program {ending : Token} {tokens rest : List Token} {body : List Term}
    (read : program ending tokens = .ok (body, rest)) : atStatement rest = false := by
  rw [program] at read
  split at read
  next =>
    obtain ⟨⟨first, afterFirst, shorter⟩, _, continued⟩ := bind_eq_ok.mp read
    obtain ⟨⟨others, left⟩, entered, finished⟩ := bind_eq_ok.mp continued
    cases finished
    exact not_atStatement_of_program entered
  next stops =>
    cases read
    simpa using stops
termination_by tokens.length

/-- A program that is read to its end begins with a statement, if it has any token. -/
theorem atStatement_of_program {ending token : Token} {others : List Token} {body : List Term}
    (read : program ending (token :: others) = .ok (body, [])) : atStatement (token :: others) = true := by
  rw [program] at read
  split at read
  next begins => exact begins
  next => cases read

/-- The tokens that statements were read from are read on their own, whatever stood behind them. -/
theorem program_alone {ending : Token} {tokens rest : List Token} {body : List Term}
    (read : program ending tokens = .ok (body, rest)) :
    ∃ front, tokens = front ++ rest ∧ ∀ other, program other front = .ok (body, []) := by
  obtain ⟨front, same, -⟩ := program_sound read
  refine ⟨front, same, fun other => ?_⟩
  obtain ⟨used, again, followed⟩ := program_followed other read
  obtain rfl := List.append_cancel_right (same.symm.trans again)
  simpa using followed (.inl (.nothing rest)) reads_empty.1

section
variable {tokens : List Token}

theorem takeWhile_append_of_proper (proper : ∀ token ∈ tokens, token.kind ≠ .endOfInput) (further : List Token) :
    (tokens ++ further).takeWhile (!·.isEnding) = tokens ++ further.takeWhile (!·.isEnding) := by
  apply List.takeWhile_append_of_pos
  intro token member
  simpa [Token.isEnding] using proper token member

private theorem proper_of_takeWhile (tokens : List Token) :
    ∀ token ∈ tokens.takeWhile (!·.isEnding), token.kind ≠ .endOfInput := by
  intro token member
  simpa [Token.isEnding] using List.all_eq_true.mp List.all_takeWhile token member

/-- Tokens without an end are read to their last one. -/
theorem parse_proper_eq_ok_iff (proper : ∀ token ∈ tokens, token.kind ≠ .endOfInput) {nodes : List Term} :
    parse tokens = .ok nodes ↔
      program (((closed tokens).dropWhile (!·.isEnding)).headD (Token.ending 0)) tokens = .ok (nodes, []) := by
  have whole : tokens.takeWhile (!·.isEnding) = tokens := by simpa using takeWhile_append_of_proper proper []
  rw [parse_eq_ok_iff, whole]

/-- What a refusal for leftover tokens was made of. -/
theorem program_of_leftover {nodes : List Term} {rest : List Token}
    (refused : parse tokens = .error (.leftover nodes rest)) :
    ∃ token others, rest = token :: others ++ (closed tokens).dropWhile (!·.isEnding) ∧
      program (((closed tokens).dropWhile (!·.isEnding)).headD (Token.ending 0))
        ((closed tokens).takeWhile (!·.isEnding)) = .ok (nodes, token :: others) := by
  rw [parse] at refused
  split at refused
  next => cases refused
  next => cases refused
  next left more read =>
    cases refused
    cases left with
    | nil => cases more rfl
    | cons token others => exact ⟨token, others, rfl, read⟩

private theorem symbol_of_not_opens {token : Token} (proper : token.kind ≠ .endOfInput)
    (stops : token.opensStatement = false) :
    ∃ text, token.kind = .symbol text ∧ text ∉ ["(", "+", "-", "\x7b", "if", "def"] := by
  obtain ⟨kind, offset, size⟩ := token
  cases kind with
  | symbol text =>
    refine ⟨text, rfl, ?_⟩
    simpa [Token.opensStatement, Token.opensExpression, Token.is, and_assoc] using stops
  | name | number | returnWord => cases stops
  | endOfInput => exact absurd rfl proper

end

/-- A refusal for leftover tokens splits the tokens, which are closed first, in two. The second part
begins with a symbol that begins no statement, and the first part means on its own what the refusal
says was read. -/
theorem leftover_split {tokens rest : List Token} {nodes : List Term}
    (refused : parse tokens = .error (.leftover nodes rest)) :
    ∃ front, closed tokens = front ++ rest ∧ (∀ token ∈ front, token.kind ≠ .endOfInput) ∧
      (∃ token others text, rest = token :: others ∧ token.kind = .symbol text ∧
        text ∉ ["(", "+", "-", "\x7b", "if", "def"]) ∧
      parse front = .ok nodes := by
  obtain ⟨token, others, rfl, read⟩ := program_of_leftover refused
  obtain ⟨front, code, alone⟩ := program_alone read
  have proper := proper_of_takeWhile (closed tokens)
  rw [code] at proper
  have unended : ∀ token ∈ front, token.kind ≠ .endOfInput :=
    fun token member => proper token (List.mem_append_left _ member)
  have stops : token.opensStatement = false := not_atStatement_of_program read
  obtain ⟨text, kind, unfit⟩ := symbol_of_not_opens (proper token (by simp)) stops
  refine ⟨front, ?_, unended, ⟨token, _, text, rfl, kind, unfit⟩, ?_⟩
  · rw [← List.append_assoc, ← code, List.takeWhile_append_dropWhile]
  · exact (parse_proper_eq_ok_iff unended).mpr (alone _)

/-- The tokens of `if(a)if(b)return,` with an end-of-input token behind them, but not as the last one. -/
def strandedReturn : List Token :=
  [⟨.symbol "if", 0, 2⟩, ⟨.symbol "(", 2, 1⟩, ⟨.name "a", 3, 1⟩, ⟨.symbol ")", 4, 1⟩, ⟨.symbol "if", 5, 2⟩,
    ⟨.symbol "(", 7, 1⟩, ⟨.name "b", 8, 1⟩, ⟨.symbol ")", 9, 1⟩, ⟨.returnWord, 10, 6⟩, ⟨.symbol ",", 16, 1⟩,
    ⟨.endOfInput, 17, 0⟩, ⟨.name "c", 18, 1⟩]

theorem strandedReturn_split :
    parse strandedReturn = .error (.leftover [.branch (.var "a") (.branch (.var "b") (.leave none) none) none]
      [⟨.symbol ",", 16, 1⟩, ⟨.endOfInput, 17, 0⟩, ⟨.name "c", 18, 1⟩, ⟨.endOfInput, 19, 0⟩]) ∧
    ∃ front, closed strandedReturn = front ++
        [⟨.symbol ",", 16, 1⟩, ⟨.endOfInput, 17, 0⟩, ⟨.name "c", 18, 1⟩, ⟨.endOfInput, 19, 0⟩] ∧
      parse front = .ok [.branch (.var "a") (.branch (.var "b") (.leave none) none) none] := by
  have refused : parse strandedReturn =
      .error (.leftover [.branch (.var "a") (.branch (.var "b") (.leave none) none) none]
        [⟨.symbol ",", 16, 1⟩, ⟨.endOfInput, 17, 0⟩, ⟨.name "c", 18, 1⟩, ⟨.endOfInput, 19, 0⟩]) := by
    cbv
  obtain ⟨front, cut, -, -, alone⟩ := leftover_split refused
  exact ⟨refused, front, cut, alone⟩

/-- A sealed program is not continued by what begins a statement. -/
theorem program_append {ending other : Token} {first second : List Token} {nodes others : List Term}
    (ended : Sealed first) (read : program ending first = .ok (nodes, []))
    (further : program other second = .ok (others, [])) :
    program other (first ++ second) = .ok (nodes ++ others, []) := by
  obtain ⟨used, whole, followed⟩ := program_followed other read
  obtain rfl : first = used := whole.trans (List.append_nil used)
  refine followed ?_ further
  cases second with
  | nil => exact .inl (.nothing [])
  | cons token rest => exact .inr ⟨ended, atStatement_of_program further⟩

/-- Programs concatenate. The first one has no end-of-input token and is empty or ends with a
semicolon or a closing brace, so no statement of it can go on in the second one. -/
theorem parse_append {first second : List Token} {nodes others : List Term}
    (proper : ∀ token ∈ first, token.kind ≠ .endOfInput) (ended : Sealed first)
    (read : parse first = .ok nodes) (further : parse second = .ok others) :
    parse (first ++ second) = .ok (nodes ++ others) := by
  obtain ⟨code, same, alone⟩ := program_alone (parse_eq_ok_iff.mp further)
  rw [parse_eq_ok_iff, takeWhile_append_of_proper proper, same, List.append_nil]
  exact program_append ended ((parse_proper_eq_ok_iff proper).mp read) (alone _)

/-- The tokens of `if(a)return b=\x7bc\x7d`, a block at the end of a value. -/
def sealedReturn : List Token :=
  [⟨.symbol "if", 0, 2⟩, ⟨.symbol "(", 2, 1⟩, ⟨.name "a", 3, 1⟩, ⟨.symbol ")", 4, 1⟩, ⟨.returnWord, 5, 6⟩,
    ⟨.name "b", 12, 1⟩, ⟨.symbol "=", 13, 1⟩, ⟨.symbol "\x7b", 14, 1⟩, ⟨.name "c", 15, 1⟩, ⟨.symbol "\x7d", 16, 1⟩]

/-- The tokens of `-1`, which would go on with a value in front of them. -/
def negation : List Token := [⟨.symbol "-", 0, 1⟩, ⟨.number 1, 1, 1⟩]

theorem parse_append_negation :
    parse sealedReturn = .ok [.branch (.var "a") (.leave (some (.assign "b" (.block [.var "c"])))) none] ∧
    parse negation = .ok [.apply .minus (.literal 0) (.literal 1)] ∧
    parse (sealedReturn ++ negation) =
      .ok [.branch (.var "a") (.leave (some (.assign "b" (.block [.var "c"])))) none,
        .apply .minus (.literal 0) (.literal 1)] := by
  have ended : Sealed sealedReturn := by
    intro last found
    cases found
    exact .inr rfl
  have read : parse sealedReturn =
      .ok [.branch (.var "a") (.leave (some (.assign "b" (.block [.var "c"])))) none] := by
    cbv
  have further : parse negation = .ok [.apply .minus (.literal 0) (.literal 1)] := by
    cbv
  exact ⟨read, further, parse_append (by decide) ended read further⟩

end Stackwise.Proofs.ProgramParts
