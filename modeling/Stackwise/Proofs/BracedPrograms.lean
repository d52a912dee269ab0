import Stackwise.Proofs.ParallelReadings
import Stackwise.Proofs.ParsedLowering
import Stackwise.Proofs.Scanning

/-! Braces around a program. The statements of a block are read until its closing brace, those of a
program until a token that begins no statement, and the closing brace is such a token. The block is
then lowered like the program: it has the same symbols, and its code stands in the same place. -/

namespace Stackwise.Proofs.BracedPrograms
open Grammar GrammarSoundness GrammarCompleteness ParallelReadings Scanning Assembly Lowering Formation
  LoweringVerdicts ParsedLowering

/-- A brace is a lexeme of its own, whatever follows it. -/
theorem scanned_brace {c : Char} (brace : c = '\x7b' ∨ c = '\x7d') {offset : Nat} {rest : List Char}
    {tokens : List Token} (onward : Scanned (offset + 1) rest tokens) :
    Scanned offset (c :: rest) (⟨.symbol (String.ofList [c]), offset, 1⟩ :: tokens) := by
  have found : Lexeme.longest c rest = .ok ⟨.symbol (String.ofList [c]), [c]⟩ := by
    rcases brace with rfl | rfl
    · simp [Lexeme.longest, Lexeme.startsWord, Lexeme.punctuator?]
    · simp [Lexeme.longest, Lexeme.startsWord, Lexeme.punctuator?]
  rcases brace with rfl | rfl
  · exact .lexeme (by decide) found rfl onward
  · exact .lexeme (by decide) found rfl onward

/-- The tokens of a text with a closing brace behind it, wherever the text stands. -/
theorem Scanned.closed {offset : Nat} {chars : List Char} {tokens : List Token}
    (scanned : Scanned offset chars tokens) (start : Nat) :
    ∃ front place, tokens.map Token.kind = front.map Token.kind ++ [.endOfInput] ∧
      Scanned start (chars ++ ['\x7d']) (front ++ [⟨.symbol "\x7d", place, 1⟩, Token.ending (place + 1)]) := by
  induction scanned generalizing start with
  | done offset => exact ⟨[], start, rfl, scanned_brace (.inr rfl) (.done (start + 1))⟩
  | blank blank _ ih =>
    obtain ⟨front, place, kinds, scanned⟩ := ih _
    exact ⟨front, place, kinds, .blank blank scanned⟩
  | @lexeme _ c rest back lexeme _ dark found cut _ ih =>
    obtain ⟨front, place, kinds, scanned⟩ := ih (start + Text.byteSize lexeme.chars)
    refine ⟨⟨lexeme.kind, start, Text.byteSize lexeme.chars⟩ :: front, place, by rw [List.map_cons, kinds]; rfl, ?_⟩
    refine .lexeme dark ((longest_divided ⟨by decide, by decide⟩ c rest []).trans found) ?_ scanned
    rw [← List.append_assoc, ← cut]
    rfl

/-- The tokens of a source in braces. -/
theorem scan_braced {source : String} {body : List Token} {ending : Token}
    (scanned : scan source = .ok (body ++ [ending])) :
    ∃ front place, front.map Token.kind = body.map Token.kind ∧
      scan ("\x7b" ++ source ++ "\x7d") =
        .ok (⟨.symbol "\x7b", 0, 1⟩ :: (front ++ [⟨.symbol "\x7d", place, 1⟩]) ++ [Token.ending (place + 1)]) := by
  obtain ⟨front, place, kinds, closed⟩ := Scanned.closed (scan_eq_ok_iff.mp scanned) 1
  rw [List.map_append] at kinds
  refine ⟨front, place, (List.append_inj_left' kinds rfl).symm, scan_eq_ok_iff.mpr ?_⟩
  simpa using scanned_brace (.inl rfl) closed

private def bracePairing (ending other close : Token) (brace : close.kind = .symbol "\x7d") : Pairing :=
  .ofKinds [close] ending other (fun token first => by cases first; exact brace) (fun empty => by cases empty)

private theorem accept?_brace_of_atStatement {tokens : List Token} (begins : atStatement tokens = true) :
    accept? "\x7d" tokens = none ∧ tokens.isEmpty = false := by
  cases tokens with
  | nil => cases begins
  | cons token rest =>
    refine ⟨if_neg fun brace => ?_, rfl⟩
    simp [atStatement, Token.opensStatement, Token.opensExpression, Token.is, brace] at begins

/-- A program that is read to its end is the body of a block. -/
theorem blockBody_of_program {pair : Pairing} {first second : List Token} {body : List Term} {close : Token}
    {after : List Token} (read : program pair.ending first = .ok (body, []))
    (mirrors : pair.Mirrors first second) (tail : pair.tail = close :: after) :
    ∃ result, blockBody pair.other second = .ok result ∧ result.value = body ∧ result.rest = after := by
  rw [program] at read
  split at read
  next begins =>
    obtain ⟨⟨head, afterHead, shorter⟩, begun, continued⟩ := bind_eq_ok.mp read
    obtain ⟨⟨others, left⟩, entered, finished⟩ := bind_eq_ok.mp continued
    cases finished
    have beside := (pair.together _).statement (Nat.lt_succ_self _) mirrors
    rw [begun] at beside
    obtain ⟨⟨_, rest, fewer⟩, taken, rfl, further⟩ := beside
    obtain ⟨⟨_, _, less⟩, inner, rfl, rfl⟩ := blockBody_of_program entered further tail
    rw [mirrors.atStatement] at begins
    obtain ⟨absent, filled⟩ := accept?_brace_of_atStatement begins
    rw [blockBody, absent]
    simp only [filled, taken, Bool.false_eq_true, if_false]
    refine ⟨_, bind_eq_ok.mpr ⟨_, rfl, bind_eq_ok.mpr ⟨_, inner, rfl⟩⟩, rfl, rfl⟩
  next =>
    cases read
    obtain rfl := (Pairing.mirrors_nil mirrors).trans tail
    have brace := pair.inert close (by rw [tail]; rfl)
    rw [blockBody, accept?_cons (show close.is "\x7d" by simp [Token.is, brace])]
    exact ⟨_, rfl, rfl, rfl⟩
termination_by first.length

private theorem statement_block {ending opening : Token} {rest : List Token} (brace : opening.kind = .symbol "\x7b")
    {body : Parsed (List Term) rest.length} (inner : blockBody ending rest = .ok body) :
    ∃ less, statement ending (opening :: rest) = .ok ⟨.block body.value, body.rest, less⟩ := by
  have lacks : accept? "if" (opening :: rest) = none := if_neg (by simp [brace])
  rw [statement, lacks, accept?_cons (show opening.is "\x7b" by simp [Token.is, brace])]
  exact ⟨Nat.lt_succ_of_lt body.shorter, bind_eq_ok.mpr ⟨body, inner, rfl⟩⟩

/-- The tokens of a program in braces are those of a block. -/
theorem program_braced {ending other opening close : Token} {body front : List Token} {nodes : List Term}
    (begins : opening.kind = .symbol "\x7b") (ends : close.kind = .symbol "\x7d")
    (read : program ending body = .ok (nodes, [])) (kinds : front.map Token.kind = body.map Token.kind) :
    program other (opening :: (front ++ [close])) = .ok ([.block nodes], []) := by
  let pair := bracePairing ending other close ends
  have mirrors : pair.Mirrors body (front ++ [close]) := ⟨front, rfl, forall₂_kind kinds.symm⟩
  obtain ⟨⟨_, _, shorter⟩, inner, rfl, rfl⟩ := blockBody_of_program read mirrors rfl
  obtain ⟨less, block⟩ := statement_block begins inner
  have opened : atStatement (opening :: (front ++ [close])) = true := by
    simp [atStatement, Token.opensStatement, Token.is, begins]
  rw [program, if_pos opened]
  refine bind_eq_ok.mpr ⟨_, block, bind_eq_ok.mpr ⟨([], []), ?_, rfl⟩⟩
  rw [program]
  rfl

/-- A program in braces is the block of its statements. -/
theorem readSource_braced {source : String} {nodes : List Term} (accepted : readSource source = .ok nodes) :
    readSource ("\x7b" ++ source ++ "\x7d") = .ok [.block nodes] := by
  obtain ⟨tokens, scanned, parsed⟩ := bind_eq_ok.mp accepted
  obtain ⟨body, rfl, proper⟩ := (scan_eq_ok_iff.mp scanned).ended
  obtain ⟨front, place, kinds, braced⟩ := scan_braced scanned
  have read := (parse_ended_eq_ok_iff proper).mp parsed
  have unended : ∀ token ∈ front, token.kind ≠ .endOfInput := by
    intro token member ends
    have there := kinds ▸ List.mem_map_of_mem member
    obtain ⟨twin, inside, same⟩ := List.mem_map.mp there
    exact proper twin inside (same.trans ends)
  refine bind_eq_ok.mpr ⟨_, braced, (parse_ended_eq_ok_iff ?_).mpr (program_braced rfl rfl read kinds)⟩
  simpa [or_imp, forall_and] using unended

/-- Nothing behind an emission adds nothing. -/
theorem append_done (emission : Emission) : emission ++ Emission.done = emission := by
  funext allocation
  cases ran : emission allocation with
  | error defect => exact EmissionSuccess.append_eq_error (.inl ran)
  | ok reached =>
    exact Emission.append_eq_ok_iff.mpr ⟨reached.1, reached.2, [], ran, rfl, (List.append_nil reached.1).symm⟩

private theorem lowerBlock_block (function : String) (nodes : List Term) :
    lowerBlock function [.block nodes] = lowerBlock function nodes := by
  rw [lowerBlock]
  split
  · rw [lowerTerm]
  · rw [lowerTerm, show lowerBlock function [] = Emission.done by rw [lowerBlock], append_done]

private theorem bodyMentions_block (nodes : List Term) : Term.bodyMentions [.block nodes] = Term.bodyMentions nodes := by
  rw [Term.bodyMentions, Term.mentions, Term.bodyMentions, List.append_nil]

/-- The block of a program is lowered like the program. -/
theorem lower_block (nodes : List Term) : lower [.block nodes] = lower nodes := by
  have body : functionBody ⟨entry, [], [.block nodes]⟩ = functionBody ⟨entry, [], nodes⟩ := by
    rw [functionBody, functionBody, lowerBlock_block]
  have frame : lowerFunction ⟨entry, [], [.block nodes]⟩ = lowerFunction ⟨entry, [], nodes⟩ := by
    funext allocation
    rw [lowerFunction, lowerFunction, body]
  have functions : definitions [.block nodes] = definitions nodes := by
    rw [definitions, definitions, bodyMentions_block]
  have called : calls [.block nodes] = calls nodes := by
    rw [calls, calls, bodyMentions_block]
  rw [lower, lower, functions, called, lowerFunctions, lowerFunctions, frame]

private theorem compile_of_readSource {source : String} {nodes : List Term} (accepted : readSource source = .ok nodes) :
    compile source = lower nodes := by
  rw [compile, accepted]
  rfl

/-- A program in braces is read as the block of its statements and compiles to the same listing, or
is refused with the same diagnostic. -/
theorem braces_unseen {source : String} {nodes : List Term} (accepted : readSource source = .ok nodes) :
    readSource ("\x7b" ++ source ++ "\x7d") = .ok [.block nodes] ∧
      compile ("\x7b" ++ source ++ "\x7d") = compile source ∧
      ((∃ listing, compile source = .ok listing) ∨ (∃ name, compile source = .error (.redefined name)) ∨
        ∃ callee expected found, compile source = .error (.arity callee expected found)) := by
  have braced := readSource_braced accepted
  obtain ⟨tokens, -, parsed⟩ := bind_eq_ok.mp accepted
  refine ⟨braced, ?_, ?_⟩
  · rw [compile_of_readSource braced, compile_of_readSource accepted, lower_block]
  · rw [compile_of_readSource accepted]
    exact verdict_of_wellFormed (wellFormed_of_parse parsed)

/-- A definition, a conditional without an end mark and a return that hides what follows. -/
theorem mixed_braces_unseen :
    ∃ nodes, readSource "def f(a)\x7bif(a)a\x7d return f(1) b=2" = .ok nodes ∧
      readSource ("\x7b" ++ "def f(a)\x7bif(a)a\x7d return f(1) b=2" ++ "\x7d") = .ok [.block nodes] ∧
      compile ("\x7b" ++ "def f(a)\x7bif(a)a\x7d return f(1) b=2" ++ "\x7d") =
        compile "def f(a)\x7bif(a)a\x7d return f(1) b=2" := by
  have readable : (readSource "def f(a)\x7bif(a)a\x7d return f(1) b=2").isOk = true := by decide +kernel
  cases accepted : readSource "def f(a)\x7bif(a)a\x7d return f(1) b=2" with
  | error diagnostic => simp [accepted, Except.isOk, Except.toBool] at readable
  | ok nodes => exact ⟨nodes, rfl, (braces_unseen accepted).1, (braces_unseen accepted).2.1⟩

end Stackwise.Proofs.BracedPrograms
