import Stackwise.Proofs.SeparatedSources

/-! Tokens and the texts that are shown for them. Every kind of token that a source can have is spelled
by its text, so a source that shows tokens one after the other, with blanks between them, has these
tokens again. -/

namespace Stackwise.Proofs.DisplayedTokens
open SourceTerms Scanning Lexemes Tilings SeparatedSources

def Scannable : TokenKind → Prop
  | .symbol text => text ∈ punctuators ∨ text ∈ keywords
  | .name text => Identifier text ∧ text ∉ "return" :: keywords
  | .number value => 0 ≤ value.toInt
  | .returnWord => True
  | .endOfInput => False

/-- The numeral of a number that is not negative consists of its decimal digits. -/
theorem spells_numeral {value : Int64} (natural : 0 ≤ value.toInt) :
    Spells (TokenKind.number value).text.toList (.number value) := by
  obtain ⟨size, same⟩ := Int.eq_ofNat_of_zero_le natural
  have text : (TokenKind.number value).text.toList = Nat.toDigits 10 size := by
    rw [TokenKind.text, same]
    show (Nat.repr size).toList = _
    simp
  rw [text]
  refine .number Nat.toDigits_ne_nil (fun c member => ?_) (by simp [same])
  exact Nat.isDigit_of_mem_toDigits (by decide) (by decide) member

/-- A kind of token is spelled by the text that is shown for it. -/
theorem spells_text {kind : TokenKind} (scannable : Scannable kind) : Spells kind.text.toList kind := by
  cases kind with
  | symbol text =>
    rcases scannable with known | kept
    · exact .mark known
    · exact .keyword kept
  | name text => exact .name scannable.1 scannable.2
  | number value => exact spells_numeral scannable
  | returnWord => exact .returnWord
  | endOfInput => exact scannable.elim

private theorem scannable_of_spells {text : List Char} {kind : TokenKind} (spelled : Spells text kind) : Scannable kind := by
  cases spelled with
  | @number _ value _ _ denoted =>
    show 0 ≤ value.toInt
    rw [denoted]
    exact Int.natCast_nonneg _
  | returnWord => trivial
  | keyword kept => exact .inr kept
  | name identifier free => exact ⟨identifier, free⟩
  | mark known => exact .inl known

/-- The text of a token is a source with this token alone. -/
theorem scan_text {kind : TokenKind} (scannable : Scannable kind) :
    ∃ size place, scan kind.text = .ok [⟨kind, 0, size⟩, Token.ending place] := by
  have stops : Stops kind [] := by
    intro next first
    cases first
  have tiles : Tiles 0 (kind.text.toList ++ []) _ := (tiles_nil _).behindLexeme (spells_text scannable) stops
  have scanned := scanned_of_tiles tiles
  rw [List.append_nil] at scanned
  exact ⟨_, _, scan_eq_ok_iff.mpr scanned⟩

/-- The kinds of tokens that sources have, the end of the input apart. -/
theorem scannable_iff {kind : TokenKind} :
    Scannable kind ↔ kind ≠ .endOfInput ∧ ∃ source tokens, scan source = .ok tokens ∧ kind ∈ tokens.map Token.kind := by
  constructor
  · intro scannable
    obtain ⟨size, place, scanned⟩ := scan_text scannable
    exact ⟨(spells_text scannable).ne_endOfInput, kind.text, _, scanned, by simp⟩
  · rintro ⟨proper, source, tokens, scanned, member⟩
    obtain ⟨token, inside, rfl⟩ := List.mem_map.mp member
    obtain ⟨body, rfl, tiles⟩ := tiles_of_scanned (scan_eq_ok_iff.mp scanned)
    rcases List.mem_append.mp inside with inside | last
    · obtain ⟨front, text, back, -, -, -, spelled, -⟩ := tiles.spelled token inside
      exact scannable_of_spells spelled
    · obtain rfl := List.mem_singleton.mp last
      exact absurd rfl proper

/-- A text shows kinds of tokens one after the other, with one or more blanks between each two. -/
inductive Displays : List TokenKind → String → Prop where
  | none : Displays [] ""
  | last (kind : TokenKind) : Displays [kind] kind.text
  | more (kind : TokenKind) (gap : String) {next : TokenKind} {others : List TokenKind} {text : String}
      (filled : gap ≠ "") (blank : ∀ c ∈ gap.toList, Text.isBlank c) (onward : Displays (next :: others) text) :
      Displays (kind :: next :: others) (kind.text ++ gap ++ text)

private theorem map_kind_moved (distance : Nat) (tokens : List Token) :
    (tokens.map (moved distance)).map Token.kind = tokens.map Token.kind := by
  rw [List.map_map]
  rfl

/-- A text that shows kinds of tokens which sources have is a source with tokens of these kinds and the
end of the input behind them. -/
theorem scan_displayed {kinds : List TokenKind} {text : String} (scannable : ∀ kind ∈ kinds, Scannable kind)
    (displays : Displays kinds text) :
    ∃ tokens, scan text = .ok tokens ∧ tokens.map Token.kind = kinds ++ [.endOfInput] := by
  induction displays with
  | none => exact ⟨_, scan_eq_ok_iff.mpr (.done 0), rfl⟩
  | last kind =>
    obtain ⟨size, place, scanned⟩ := scan_text (scannable kind (by simp))
    exact ⟨_, scanned, rfl⟩
  | more kind gap filled blank _ ih =>
    rw [List.forall_mem_cons] at scannable
    obtain ⟨size, place, scanned⟩ := scan_text scannable.1
    obtain ⟨tokens, further, kinds⟩ := ih scannable.2
    refine ⟨_, scan_both filled blank scanned further, ?_⟩
    rw [List.map_append, map_kind_moved, kinds]
    rfl

/-- A keyword, a name that begins with it, two marks that would be one without the blanks, and the
greatest number. -/
theorem scan_displayed_assorted :
    ∃ tokens, scan "if ifs <\n=\t 9223372036854775807" = .ok tokens ∧
      tokens.map Token.kind =
        [.symbol "if", .name "ifs", .symbol "<", .symbol "=", .number 9223372036854775807, .endOfInput] := by
  have displays : Displays [.symbol "if", .name "ifs", .symbol "<", .symbol "=", .number 9223372036854775807]
      "if ifs <\n=\t 9223372036854775807" :=
    .more (.symbol "if") " " (by decide) (by simp [Text.isBlank])
      (.more (.name "ifs") " " (by decide) (by simp [Text.isBlank])
        (.more (.symbol "<") "\n" (by decide) (by simp [Text.isBlank])
          (.more (.symbol "=") "\t " (by decide) (by simp [Text.isBlank]) (.last (.number 9223372036854775807)))))
  refine scan_displayed ?_ displays
  have name : Identifier "ifs" := ⟨'i', ['f', 's'], rfl, rfl, by simp [Lexeme.continuesWord, Char.isAlphanum]⟩
  simp [Scannable, punctuators, keywords, name]

end Stackwise.Proofs.DisplayedTokens
