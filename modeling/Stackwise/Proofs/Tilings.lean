import Stackwise.Proofs.Lexemes

/-! Tilings of a source. Its tokens lie one behind the other, each spells what it is and cannot be
made longer, and the bytes between them are blank. Scanning finds such a tiling whenever there is
one, and there is never a second one: the first byte that is not blank begins a token, and the
characters from there on fix how long it is. -/

namespace Stackwise.Proofs.Tilings
open Scanning Lexemes

def isBlankByte (byte : UInt8) : Bool :=
  byte = 0x20 || byte = 0x09 || byte = 0x0a || byte = 0x0c || byte = 0x0d

/-- The characters from `token.offset` on, for `token.size` bytes, spell the token and end with it. -/
def Lies (offset : Nat) (chars : List Char) (token : Token) : Prop :=
  ∃ front text back, chars = front ++ text ++ back ∧ token.offset = offset + Text.byteSize front ∧
    token.size = Text.byteSize text ∧ Spells text token.kind ∧ Stops token.kind back

def Covered (tokens : List Token) (place : Nat) : Prop :=
  ∃ token ∈ tokens, token.offset ≤ place ∧ place < token.limit

/-- Tokens tile a text that stands at a byte offset. -/
structure Tiles (offset : Nat) (chars : List Char) (tokens : List Token) : Prop where
  filled : ∀ token ∈ tokens, 0 < token.size
  ordered : tokens.Pairwise fun first second => first.limit ≤ second.offset
  spelled : ∀ token ∈ tokens, Lies offset chars token
  blank : ∀ index byte, chars.utf8Encode.data[index]? = some byte →
    Covered tokens (offset + index) ∨ isBlankByte byte

/-- The tokens of a source: a tiling, and behind it the one end of the input. -/
def Tiling (source : String) (tokens : List Token) : Prop :=
  ∃ body, tokens = body ++ [Token.ending source.utf8ByteSize] ∧ (∀ token ∈ body, token.kind ≠ .endOfInput) ∧
    Tiles 0 source.toList body

theorem data_utf8Encode_append (front back : List Char) :
    (front ++ back).utf8Encode.data = front.utf8Encode.data ++ back.utf8Encode.data := by
  rw [List.utf8Encode_append, ByteArray.data_append]

theorem size_utf8Encode (chars : List Char) : chars.utf8Encode.data.size = Text.byteSize chars := by
  induction chars with
  | nil => rfl
  | cons c rest ih =>
    rw [← List.singleton_append, data_utf8Encode_append, Array.size_append, ih, List.utf8Encode_singleton,
      List.data_toByteArray, List.size_toArray, String.length_utf8EncodeChar]
    rfl

private theorem byte_of_blank {c : Char} (blank : Text.isBlank c) {index : Nat} {byte : UInt8}
    (found : [c].utf8Encode.data[index]? = some byte) : isBlankByte byte := by
  simp only [Text.isBlank, Bool.or_eq_true, decide_eq_true_eq] at blank
  have encoded : ∃ code, [c].utf8Encode.data = #[code] ∧ isBlankByte code := by
    rcases blank with (((rfl | rfl) | rfl) | rfl) | rfl
    all_goals exact ⟨_, rfl, rfl⟩
  obtain ⟨code, single, blank⟩ := encoded
  rw [single, Array.getElem?_singleton] at found
  split at found
  · cases found
    exact blank
  · cases found

/-- A character that begins with a byte of the ASCII range is that byte. -/
theorem toNat_of_byte {c : Char} {rest : List Char} {byte : UInt8}
    (found : (c :: rest).utf8Encode.data[0]? = some byte) (small : byte.toNat < 128) : c.toNat = byte.toNat := by
  have encoded : (c :: rest).utf8Encode.data.toList =
      String.utf8EncodeChar c ++ rest.flatMap String.utf8EncodeChar := by
    simp [List.utf8Encode]
  have positive := c.utf8Size_pos
  rw [← String.length_utf8EncodeChar] at positive
  rw [← Array.getElem?_toList, encoded, List.getElem?_append_left positive] at found
  simp only [String.utf8EncodeChar] at found
  split at found
  next ascii =>
    cases found
    rw [UInt8.toNat_ofNat']
    exact (Nat.mod_eq_of_lt (show c.val.toNat < 2 ^ 8 by omega)).symm
  next =>
    split at found
    · cases found
      rw [UInt8.toNat_ofNat'] at small
      omega
    · split at found
      · cases found
        rw [UInt8.toNat_ofNat'] at small
        omega
      · cases found
        rw [UInt8.toNat_ofNat'] at small
        omega

/-- Only a blank character begins with a blank byte. -/
theorem blank_of_byte {c : Char} {rest : List Char} {byte : UInt8}
    (found : (c :: rest).utf8Encode.data[0]? = some byte) (blank : isBlankByte byte) : Text.isBlank c := by
  simp only [isBlankByte, Bool.or_eq_true, decide_eq_true_eq] at blank
  rcases blank with (((rfl | rfl) | rfl) | rfl) | rfl
  · obtain rfl : c = ' ' := Char.toNat_inj.mp (toNat_of_byte found (by decide))
    rfl
  · obtain rfl : c = '\t' := Char.toNat_inj.mp (toNat_of_byte found (by decide))
    rfl
  · obtain rfl : c = '\n' := Char.toNat_inj.mp (toNat_of_byte found (by decide))
    rfl
  · obtain rfl : c = '\x0c' := Char.toNat_inj.mp (toNat_of_byte found (by decide))
    rfl
  · obtain rfl : c = '\r' := Char.toNat_inj.mp (toNat_of_byte found (by decide))
    rfl

theorem byteSize_pos {text : List Char} (filled : text ≠ []) : 0 < Text.byteSize text := by
  obtain ⟨c, rest, rfl⟩ := List.exists_cons_of_ne_nil filled
  have positive := c.utf8Size_pos
  rw [Text.byteSize_cons]
  omega

theorem Lies.behind {offset : Nat} {front chars : List Char} {token : Token}
    (lies : Lies (offset + Text.byteSize front) chars token) : Lies offset (front ++ chars) token := by
  obtain ⟨before, text, back, rfl, place, size, spelled, stops⟩ := lies
  refine ⟨front ++ before, text, back, by simp, ?_, size, spelled, stops⟩
  rw [place, Text.byteSize_append, Nat.add_assoc]

/-- A token that does not begin in the front part of a text lies in the rest of it. -/
theorem Lies.beyond {offset : Nat} {front chars : List Char} {token : Token}
    (lies : Lies offset (front ++ chars) token) (beyond : offset + Text.byteSize front ≤ token.offset) :
    Lies (offset + Text.byteSize front) chars token := by
  obtain ⟨before, text, back, cut, place, size, spelled, stops⟩ := lies
  rw [List.append_assoc] at cut
  rcases List.append_eq_append_iff.mp cut with ⟨middle, rfl, rfl⟩ | ⟨middle, rfl, same⟩
  · refine ⟨middle, text, back, by simp, ?_, size, spelled, stops⟩
    rw [place, Text.byteSize_append, Nat.add_assoc]
  · rw [Text.byteSize_append] at beyond
    have none : middle = [] := by
      by_contra filled
      have positive := byteSize_pos filled
      omega
    subst none
    refine ⟨[], text, back, by simpa using same.symm, ?_, size, spelled, stops⟩
    simpa using place

theorem tiles_nil (offset : Nat) : Tiles offset [] [] :=
  ⟨nofun, .nil, nofun, nofun⟩

/-- The bytes of a text in two parts are covered or blank if those of both parts are. -/
theorem blank_append {offset : Nat} {front chars : List Char} {tokens : List Token}
    (first : ∀ index byte, front.utf8Encode.data[index]? = some byte →
      Covered tokens (offset + index) ∨ isBlankByte byte)
    (second : ∀ index byte, chars.utf8Encode.data[index]? = some byte →
      Covered tokens (offset + Text.byteSize front + index) ∨ isBlankByte byte) :
    ∀ index byte, (front ++ chars).utf8Encode.data[index]? = some byte →
      Covered tokens (offset + index) ∨ isBlankByte byte := by
  intro index byte found
  rw [data_utf8Encode_append, Array.getElem?_append, size_utf8Encode] at found
  split at found
  next => exact first index byte found
  next outside =>
    have place : offset + Text.byteSize front + (index - Text.byteSize front) = offset + index := by omega
    exact place ▸ second _ byte found

private theorem Tiles.behindBlank {offset : Nat} {c : Char} {rest : List Char} {tokens : List Token} (blank : Text.isBlank c)
    (tiles : Tiles (offset + Text.byteSize [c]) rest tokens) : Tiles offset (c :: rest) tokens := by
  refine ⟨tiles.filled, tiles.ordered, fun token member => (tiles.spelled token member).behind, ?_⟩
  exact blank_append (fun _ _ found => .inr (byte_of_blank blank found)) tiles.blank

/-- Every token of a tiling begins where the text begins, or behind that place. -/
theorem Tiles.le_offset {offset : Nat} {chars : List Char} {tokens : List Token} (tiles : Tiles offset chars tokens) :
    ∀ token ∈ tokens, offset ≤ token.offset := by
  intro token member
  obtain ⟨front, text, back, -, place, -⟩ := tiles.spelled token member
  omega

theorem Tiles.behindLexeme {offset : Nat} {text back : List Char} {kind : TokenKind} {tokens : List Token}
    (spelled : Spells text kind) (stops : Stops kind back) (tiles : Tiles (offset + Text.byteSize text) back tokens) :
    Tiles offset (text ++ back) (⟨kind, offset, Text.byteSize text⟩ :: tokens) := by
  have lies : Lies offset (text ++ back) ⟨kind, offset, Text.byteSize text⟩ :=
    ⟨[], text, back, rfl, rfl, rfl, spelled, stops⟩
  refine ⟨List.forall_mem_cons.mpr ⟨byteSize_pos spelled.filled, tiles.filled⟩,
    List.pairwise_cons.mpr ⟨tiles.le_offset, tiles.ordered⟩,
    List.forall_mem_cons.mpr ⟨lies, fun token member => (tiles.spelled token member).behind⟩, blank_append ?_ ?_⟩
  · intro index byte found
    have inside := (Array.getElem?_eq_some_iff.mp found).1
    rw [size_utf8Encode] at inside
    exact .inl ⟨_, List.mem_cons_self .., Nat.le_add_right .., Nat.add_lt_add_left inside offset⟩
  · intro index byte found
    refine (tiles.blank index byte found).imp_left ?_
    rintro ⟨token, member, covers⟩
    exact ⟨token, List.mem_cons_of_mem _ member, covers⟩

/-- What is left of a tiling behind the front part of a text, when its tokens lie behind that part. -/
theorem Tiles.beyond {offset : Nat} {front chars : List Char} {tokens others : List Token}
    (tiles : Tiles offset (front ++ chars) (others ++ tokens))
    (before : ∀ token ∈ others, token.limit ≤ offset + Text.byteSize front)
    (beyond : ∀ token ∈ tokens, offset + Text.byteSize front ≤ token.offset) :
    Tiles (offset + Text.byteSize front) chars tokens := by
  refine ⟨fun token member => tiles.filled token (List.mem_append_right _ member),
    (List.pairwise_append.mp tiles.ordered).2.1, fun token member => ?_, fun index byte found => ?_⟩
  · exact (tiles.spelled token (List.mem_append_right _ member)).beyond (beyond token member)
  · have whole : (front ++ chars).utf8Encode.data[Text.byteSize front + index]? = some byte := by
      rw [data_utf8Encode_append, Array.getElem?_append_right (by rw [size_utf8Encode]; omega), size_utf8Encode,
        Nat.add_sub_cancel_left, found]
    refine (tiles.blank _ byte whole).imp_left ?_
    rintro ⟨token, member, begins, ends⟩
    rw [← Nat.add_assoc] at begins ends
    rcases List.mem_append.mp member with earlier | member
    · have limited := before token earlier
      omega
    · exact ⟨token, member, begins, ends⟩

/-- Scanned tokens tile what was scanned. -/
theorem tiles_of_scanned {offset : Nat} {chars : List Char} {tokens : List Token}
    (scanned : Scanned offset chars tokens) :
    ∃ body, tokens = body ++ [Token.ending (offset + Text.byteSize chars)] ∧ Tiles offset chars body := by
  induction scanned with
  | done offset => exact ⟨[], rfl, tiles_nil offset⟩
  | blank blank _ ih =>
    obtain ⟨body, rfl, tiles⟩ := ih
    exact ⟨body, by rw [Text.byteSize_cons, Nat.add_assoc], tiles.behindBlank blank⟩
  | lexeme dark found cut _ ih =>
    obtain ⟨body, rfl, tiles⟩ := ih
    obtain ⟨back, same, spelled, stops⟩ := longest_spells found
    obtain rfl := List.append_cancel_left (same.symm.trans cut)
    refine ⟨_ :: body, by rw [cut, Text.byteSize_append, Nat.add_assoc, List.cons_append], ?_⟩
    rw [cut]
    exact tiles.behindLexeme spelled stops

private theorem longest_of_blank {c : Char} (blank : Text.isBlank c) (rest : List Char) :
    Lexeme.longest c rest = .error [c] := by
  simp only [Text.isBlank, Bool.or_eq_true, decide_eq_true_eq] at blank
  rcases blank with (((rfl | rfl) | rfl) | rfl) | rfl
  all_goals simp [Lexeme.longest, Lexeme.startsWord, Lexeme.punctuator?]

/-- A token that does not begin with the first character of a text begins behind it. -/
theorem Lies.le_of_lt {offset : Nat} {c : Char} {rest : List Char} {token : Token}
    (lies : Lies offset (c :: rest) token) (later : offset < token.offset) :
    offset + Text.byteSize [c] ≤ token.offset := by
  obtain ⟨front, text, back, cut, place, -⟩ := lies
  cases front with
  | nil => simp [place] at later
  | cons first others =>
    obtain rfl : c = first := (List.cons.inj cut).1
    rw [place, Text.byteSize_cons, Text.byteSize_cons, Text.byteSize_nil]
    omega

/-- A character that no token covers is blank, and the tokens tile what stands behind it. -/
theorem Tiles.uncovered {offset : Nat} {c : Char} {rest : List Char} {tokens : List Token}
    (tiles : Tiles offset (c :: rest) tokens) (later : ∀ token ∈ tokens, offset < token.offset) :
    Text.isBlank c ∧ Tiles (offset + Text.byteSize [c]) rest tokens := by
  constructor
  · have inside : 0 < (c :: rest).utf8Encode.data.size := by
      rw [size_utf8Encode]
      exact byteSize_pos (List.cons_ne_nil c rest)
    rcases tiles.blank 0 _ (Array.getElem?_eq_getElem inside) with ⟨token, member, begins, -⟩ | blank
    · exact absurd (later token member) (Nat.not_lt.mpr begins)
    · exact blank_of_byte (Array.getElem?_eq_getElem inside) blank
  · have parted : Tiles offset ([c] ++ rest) ([] ++ tokens) := tiles
    exact parted.beyond nofun fun token member => (tiles.spelled token member).le_of_lt (later token member)

/-- A token that begins where the text begins is spelled by the front part of the text. -/
theorem Tiles.leading {offset : Nat} {chars : List Char} {token : Token} {others : List Token}
    (tiles : Tiles offset chars (token :: others)) (begins : token.offset = offset) :
    ∃ text back, chars = text ++ back ∧ token = ⟨token.kind, offset, Text.byteSize text⟩ ∧
      Spells text token.kind ∧ Stops token.kind back ∧ Tiles (offset + Text.byteSize text) back others := by
  obtain ⟨front, text, back, rfl, place, size, spelled, stops⟩ := tiles.spelled token (List.mem_cons_self ..)
  have none : front = [] := by
    by_contra filled
    have positive := byteSize_pos filled
    omega
  subst none
  rw [List.nil_append] at tiles ⊢
  have limit : token.limit = offset + Text.byteSize text := by rw [Token.limit, begins, size]
  have parted : Tiles offset (text ++ back) ([token] ++ others) := tiles
  refine ⟨text, back, rfl, by rw [← begins, ← size], spelled, stops, parted.beyond ?_ ?_⟩
  · simp [limit]
  · intro other member
    rw [← limit]
    exact (List.pairwise_cons.mp tiles.ordered).1 other member

/-- Tokens that tile a text are those that scanning finds in it. -/
theorem scanned_of_tiles {offset : Nat} {chars : List Char} {tokens : List Token}
    (tiles : Tiles offset chars tokens) :
    Scanned offset chars (tokens ++ [Token.ending (offset + Text.byteSize chars)]) := by
  cases chars with
  | nil =>
    cases tokens with
    | nil => exact .done offset
    | cons token others =>
      obtain ⟨front, text, back, cut, -, -, spelled, -⟩ := tiles.spelled token (List.mem_cons_self ..)
      simp [spelled.filled] at cut
  | cons c rest =>
    by_cases later : ∀ token ∈ tokens, offset < token.offset
    · obtain ⟨blank, further⟩ := tiles.uncovered later
      have onward := scanned_of_tiles further
      rw [Nat.add_assoc, ← Text.byteSize_append] at onward
      exact .blank blank onward
    · cases tokens with
      | nil => exact absurd nofun later
      | cons token others =>
        have begins : token.offset = offset := by
          apply Nat.le_antisymm _ (tiles.le_offset token (List.mem_cons_self ..))
          by_contra behind
          apply later
          intro other member
          rcases List.mem_cons.mp member with rfl | member
          · exact Nat.not_le.mp behind
          · have next : token.limit ≤ other.offset := (List.pairwise_cons.mp tiles.ordered).1 other member
            rw [Token.limit] at next
            omega
        obtain ⟨text, back, cut, whole, spelled, stops, further⟩ := tiles.leading begins
        have found := longest_of_spells cut spelled stops
        have dark : Text.isBlank c = false := by
          by_contra blank
          rw [longest_of_blank (by simpa using blank)] at found
          cases found
        have shorter : back.length < (c :: rest).length := by
          have positive := List.length_pos_iff.mpr spelled.filled
          rw [cut, List.length_append]
          omega
        have onward := scanned_of_tiles further
        rw [Nat.add_assoc, ← Text.byteSize_append, ← cut] at onward
        rw [whole]
        exact .lexeme dark found cut onward
termination_by chars.length

/-- The tokens of a source are its tiling, and it has no other one: they end in the only end of the
input, right behind the source, they are filled and in order, every byte outside of them is blank,
and each one spells its kind and is not continued by what follows it. -/
theorem scan_iff_tiling {source : String} {tokens : List Token} :
    scan source = .ok tokens ↔ Tiling source tokens ∧ ∀ others, Tiling source others → others = tokens := by
  have size : source.utf8ByteSize = 0 + Text.byteSize source.toList := by
    rw [← utf8ByteSize_ofList, String.ofList_toList, Nat.zero_add]
  have scanned_of_tiling {tokens : List Token} (tiling : Tiling source tokens) : scan source = .ok tokens := by
    obtain ⟨body, rfl, -, tiles⟩ := tiling
    rw [size]
    exact scan_eq_ok_iff.mpr (scanned_of_tiles tiles)
  constructor
  · intro scanned
    refine ⟨?_, fun others tiling => Except.ok.inj ((scanned_of_tiling tiling).symm.trans scanned)⟩
    obtain ⟨body, rfl, tiles⟩ := tiles_of_scanned (scan_eq_ok_iff.mp scanned)
    refine ⟨body, by rw [size], fun token member => ?_, tiles⟩
    obtain ⟨-, text, -, -, -, -, spelled, -⟩ := tiles.spelled token member
    exact spelled.ne_endOfInput
  · exact fun tiled => scanned_of_tiling tiled.1

example : Token.scan "1a2<==" =
    .ok [⟨.number 1, 0, 1⟩, ⟨.name "a2", 1, 2⟩, ⟨.symbol "<=", 3, 2⟩, ⟨.symbol "=", 5, 1⟩, .ending 6] := by
  decide +kernel

end Stackwise.Proofs.Tilings
