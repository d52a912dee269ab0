import Stackwise.Compile
import Stackwise.Proofs.GrammarCompleteness

/-! Scanning, as a relation between what is left of a source and its tokens. Every token stands
between two characters of the source, only the last one is the end of the input, and it stands
behind all of them. Where scanning fails, the text complained about is in the source. -/

namespace Stackwise.Proofs.Scanning
open Grammar

/-- The bytes of a text are those of its characters. -/
theorem utf8ByteSize_ofList (chars : List Char) : (String.ofList chars).utf8ByteSize = Text.byteSize chars := by
  induction chars with
  | nil => rfl
  | cons c rest ih =>
    rw [← List.singleton_append, String.ofList_append, String.utf8ByteSize_append, ih]
    simp

section
variable {c : Char} {rest : List Char}

private theorem punctuator?_eq_some {mark : List Char} (found : Lexeme.punctuator? c rest = some mark) :
    ∃ back, c :: rest = mark ++ back ∧ mark.head? = some c := by
  unfold Lexeme.punctuator? at found
  split at found
  next double =>
    cases found
    obtain ⟨back, rfl⟩ := List.head?_eq_some_iff.mp double.1
    exact ⟨back, rfl, rfl⟩
  next =>
    split at found
    · cases found
      exact ⟨rest, rfl, rfl⟩
    · cases found

/-- A lexeme is what the text begins with, its first character included, and it is never the end
of the input. -/
theorem longest_eq_ok {lexeme : Lexeme} (found : Lexeme.longest c rest = .ok lexeme) :
    (∃ back, c :: rest = lexeme.chars ++ back ∧ lexeme.chars.head? = some c) ∧ lexeme.kind ≠ .endOfInput := by
  unfold Lexeme.longest at found
  split at found
  · dsimp only at found
    split at found
    · cases found
      exact ⟨⟨rest.dropWhile Char.isDigit, by simp, rfl⟩, nofun⟩
    · cases found
  · split at found
    · cases found
      refine ⟨⟨rest.dropWhile Lexeme.continuesWord, by simp, rfl⟩, ?_⟩
      unfold Lexeme.word
      split
      · nofun
      · split
        · nofun
        · nofun
    · split at found
      next mark marked =>
        cases found
        exact ⟨punctuator?_eq_some marked, nofun⟩
      next => cases found

/-- The text of a fault is what stands there, its first character included. -/
theorem longest_eq_error {text : List Char} (refused : Lexeme.longest c rest = .error text) :
    text ≠ [] ∧ ∃ back, c :: rest = text ++ back := by
  unfold Lexeme.longest at refused
  split at refused
  · dsimp only at refused
    split at refused
    · cases refused
    · cases refused
      exact ⟨nofun, rest.dropWhile Char.isDigit, by simp⟩
  · split at refused
    · cases refused
    · split at refused
      next => cases refused
      next =>
        cases refused
        exact ⟨nofun, rest, rfl⟩

end

theorem continuesWord_of_isDigit {c : Char} (digit : c.isDigit) : Lexeme.continuesWord c := by
  simp [Lexeme.continuesWord, Char.isAlphanum, digit]

/-- A character that continues no number, word or punctuator in front of it. -/
def Divides (mark : Char) : Prop := Lexeme.continuesWord mark = false ∧ mark ≠ '='

private theorem takeWhile_divided {passes : Char → Bool} {mark : Char} (stops : passes mark = false)
    (front back : List Char) : (front ++ mark :: back).takeWhile passes = front.takeWhile passes := by
  induction front with
  | nil => simp [stops]
  | cons c rest ih => rw [List.cons_append, List.takeWhile_cons, List.takeWhile_cons, ih]

/-- A lexeme, or the text of a fault, is the same whatever stands behind a character that divides. -/
theorem longest_divided {mark : Char} (divides : Divides mark) (c : Char) (rest back : List Char) :
    Lexeme.longest c (rest ++ mark :: back) = Lexeme.longest c rest := by
  obtain ⟨outside, unequal⟩ := divides
  have undigited : mark.isDigit = false := by
    by_contra digit
    simp [continuesWord_of_isDigit (by simpa using digit)] at outside
  have digits := takeWhile_divided undigited rest back
  have letters := takeWhile_divided outside rest back
  have marks : Lexeme.punctuator? c (rest ++ mark :: back) = Lexeme.punctuator? c rest := by
    have head : (rest ++ mark :: back).head? = some '=' ↔ rest.head? = some '=' := by
      cases rest with
      | nil => simp [unequal]
      | cons => rfl
    simp only [Lexeme.punctuator?, head]
  rw [Lexeme.longest, Lexeme.longest, digits, letters, marks]

/-- What is left of a source, from a byte offset on, is cut into the tokens. -/
inductive Scanned : Nat → List Char → List Token → Prop where
  | done (offset : Nat) : Scanned offset [] [Token.ending offset]
  | blank {offset : Nat} {c : Char} {rest : List Char} {tokens : List Token} (blank : Text.isBlank c = true)
      (onward : Scanned (offset + c.utf8Size) rest tokens) : Scanned offset (c :: rest) tokens
  | lexeme {offset : Nat} {c : Char} {rest back : List Char} {lexeme : Lexeme} {tokens : List Token}
      (dark : Text.isBlank c = false) (found : Lexeme.longest c rest = .ok lexeme)
      (cut : c :: rest = lexeme.chars ++ back)
      (onward : Scanned (offset + Text.byteSize lexeme.chars) back tokens) :
      Scanned offset (c :: rest) (⟨lexeme.kind, offset, Text.byteSize lexeme.chars⟩ :: tokens)

theorem drop_of_cut {c : Char} {rest front back : List Char} (cut : c :: rest = front ++ back)
    (head : front.head? = some c) : rest.drop (front.length - 1) = back := by
  obtain ⟨tail, rfl⟩ := List.head?_eq_some_iff.mp head
  obtain rfl := List.tail_eq_of_cons_eq cut
  simp

theorem scanFrom_eq_ok_iff {offset : Nat} {chars : List Char} {tokens : List Token} :
    Token.scanFrom offset chars = .ok tokens ↔ Scanned offset chars tokens := by
  constructor
  · intro scanned
    fun_induction Token.scanFrom offset chars generalizing tokens with
    | case1 offset =>
      cases scanned
      exact .done offset
    | case2 offset c rest blank ih => exact .blank blank (ih scanned)
    | case3 offset c rest dark text refused => cases scanned
    | case4 offset c rest dark lexeme found size =>
      rename_i ih
      obtain ⟨⟨back, cut, head⟩, -⟩ := longest_eq_ok found
      rw [drop_of_cut cut head] at scanned ih
      cases tail : Token.scanFrom (offset + size) back with
      | error fault =>
        rw [tail] at scanned
        cases scanned
      | ok others =>
        rw [tail] at scanned
        cases scanned
        exact .lexeme (by simpa using dark) found cut (ih tail)
  · intro scanned
    induction scanned with
    | done offset => rw [Token.scanFrom]
    | blank blank _ ih => rw [Token.scanFrom, if_pos blank, ih]
    | lexeme dark found cut _ ih =>
      obtain ⟨⟨back, same, head⟩, -⟩ := longest_eq_ok found
      rw [Token.scanFrom, if_neg (by simp [dark]), found]
      dsimp only
      rw [drop_of_cut cut head, ih]
      rfl

/-- A place in a text, counted in bytes from an offset on: the end of a part of its characters. -/
def Place (offset : Nat) (chars : List Char) (place : Nat) : Prop :=
  ∃ front back, chars = front ++ back ∧ place = offset + Text.byteSize front

private theorem Place.behind {offset place : Nat} {front chars : List Char}
    (there : Place (offset + Text.byteSize front) chars place) : Place offset (front ++ chars) place := by
  obtain ⟨middle, back, rfl, rfl⟩ := there
  exact ⟨front ++ middle, back, by simp, by rw [Text.byteSize_append]; omega⟩

private theorem place_start (offset : Nat) (chars : List Char) : Place offset chars offset := ⟨[], chars, rfl, rfl⟩

theorem Scanned.places {offset : Nat} {chars : List Char} {tokens : List Token}
    (scanned : Scanned offset chars tokens) : ∀ token ∈ tokens, Place offset chars token.offset := by
  induction scanned with
  | done offset =>
    intro token member
    obtain rfl := List.mem_singleton.mp member
    exact place_start offset []
  | @blank offset c rest tokens blank _ ih =>
    intro token member
    have there : Place (offset + Text.byteSize [c]) rest token.offset := ih token member
    exact there.behind
  | lexeme dark found cut _ ih =>
    intro token member
    rcases List.mem_cons.mp member with rfl | member
    · exact place_start _ _
    · rw [cut]
      exact (ih token member).behind

/-- The end of the input stands behind the source, and no token before it is one. -/
theorem Scanned.ended {offset : Nat} {chars : List Char} {tokens : List Token}
    (scanned : Scanned offset chars tokens) :
    ∃ body, tokens = body ++ [Token.ending (offset + Text.byteSize chars)] ∧
      ∀ token ∈ body, token.kind ≠ .endOfInput := by
  induction scanned with
  | done offset => exact ⟨[], rfl, nofun⟩
  | blank blank _ ih =>
    obtain ⟨body, rfl, proper⟩ := ih
    exact ⟨body, by rw [Text.byteSize_cons, Nat.add_assoc], proper⟩
  | lexeme dark found cut _ ih =>
    obtain ⟨body, rfl, proper⟩ := ih
    refine ⟨_ :: body, by rw [cut, Text.byteSize_append, Nat.add_assoc, List.cons_append], ?_⟩
    intro token member
    rcases List.mem_cons.mp member with rfl | member
    · exact (longest_eq_ok found).2
    · exact proper token member

private theorem scanFrom_eq_error {offset : Nat} {chars : List Char} {fault : ScanFault}
    (failed : Token.scanFrom offset chars = .error fault) :
    ∃ front text back, chars = front ++ text ++ back ∧ text ≠ [] ∧
      fault = ⟨String.ofList text, offset + Text.byteSize front⟩ := by
  fun_induction Token.scanFrom offset chars with
  | case1 offset => cases failed
  | case2 offset c rest blank ih =>
    obtain ⟨front, text, back, rfl, some, rfl⟩ := ih failed
    exact ⟨c :: front, text, back, by simp, some, by rw [Text.byteSize_cons, Nat.add_assoc]⟩
  | case3 offset c rest dark text refused =>
    cases failed
    obtain ⟨some, back, cut⟩ := longest_eq_error refused
    exact ⟨[], text, back, cut, some, rfl⟩
  | case4 offset c rest dark lexeme found size =>
    rename_i ih
    obtain ⟨⟨back, cut, head⟩, -⟩ := longest_eq_ok found
    rw [drop_of_cut cut head] at failed ih
    cases tail : Token.scanFrom (offset + size) back with
    | ok others =>
      rw [tail] at failed
      cases failed
    | error fault =>
      rw [tail] at failed
      cases failed
      obtain ⟨front, text, behind, rfl, some, rfl⟩ := ih tail
      refine ⟨lexeme.chars ++ front, text, behind, by simp [cut], some, ?_⟩
      rw [Text.byteSize_append, Nat.add_assoc]

section
variable {source : String} {tokens : List Token}

theorem scan_eq_ok_iff : scan source = .ok tokens ↔ Scanned 0 source.toList tokens := by
  rw [← scanFrom_eq_ok_iff, scan, Token.scan]
  cases Token.scanFrom 0 source.toList with
  | ok found =>
    show (Except.ok found : Except Diagnostic _) = .ok tokens ↔ (Except.ok found : Except ScanFault _) = .ok tokens
    rw [Except.ok.injEq, Except.ok.injEq]
  | error fault =>
    constructor
    · intro same
      cases same
    · intro same
      cases same

theorem scan_eq_error {diagnostic : Diagnostic} (failed : scan source = .error diagnostic) :
    ∃ front text back, source.toList = front ++ text ++ back ∧ text ≠ [] ∧
      diagnostic = .lexeme (String.ofList text) (Text.byteSize front) := by
  rw [scan, Token.scan] at failed
  cases result : Token.scanFrom 0 source.toList with
  | ok found =>
    rw [result] at failed
    cases failed
  | error fault =>
    rw [result] at failed
    cases failed
    obtain ⟨front, text, back, cut, some, rfl⟩ := scanFrom_eq_error result
    exact ⟨front, text, back, cut, some, by rw [ScanFault.diagnostic, Nat.zero_add]⟩

end

/-- Scanned tokens are read up to their end, which is their last token. -/
theorem parse_ended {body : List Token} (proper : ∀ token ∈ body, token.kind ≠ .endOfInput) (place : Nat) :
    parse (body ++ [Token.ending place]) =
      match program (Token.ending place) body with
      | .error mismatch => .error mismatch.diagnostic
      | .ok (read, []) => .ok read
      | .ok (read, left) => .error (.leftover read (left ++ [Token.ending place])) := by
  have whole : closed (body ++ [Token.ending place]) = body ++ [Token.ending place] := by
    simp [closed, Token.isEnding, Token.ending]
  have unended : ∀ token ∈ body, (!token.isEnding) = true := by
    intro token member
    simpa [Token.isEnding] using proper token member
  have code : (body ++ [Token.ending place]).takeWhile (!·.isEnding) = body := by
    rw [List.takeWhile_append_of_pos unended]
    simp [Token.isEnding, Token.ending]
  have beyond : (body ++ [Token.ending place]).dropWhile (!·.isEnding) = [Token.ending place] := by
    rw [List.dropWhile_append_of_pos unended]
    simp [Token.isEnding, Token.ending]
  rw [parse, whole, code, beyond]
  rfl

theorem parse_ended_eq_ok_iff {body : List Token} (proper : ∀ token ∈ body, token.kind ≠ .endOfInput)
    {place : Nat} {nodes : List Term} :
    parse (body ++ [Token.ending place]) = .ok nodes ↔ program (Token.ending place) body = .ok (nodes, []) := by
  rw [parse_ended proper]
  split
  next failed => simp [failed]
  next read => simp [read]
  next left more read =>
    simp only [read, reduceCtorEq, Except.ok.injEq, Prod.mk.injEq, false_iff, not_and]
    exact fun _ => more

end Stackwise.Proofs.Scanning
