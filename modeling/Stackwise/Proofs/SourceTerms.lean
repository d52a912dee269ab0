import Stackwise.Compile
import Stackwise.Proofs.GrammarCompleteness
import Stackwise.Proofs.ListingText

/-! Terms that come from a source text. Their names are identifiers and the arguments of a call
are numbered from zero. Terms built by hand need not be so, and their listings need not run. -/

namespace Stackwise.Proofs.SourceTerms
open Derivations ListingText GrammarSoundness

/-- A letter or underscore, followed by letters, digits and underscores. -/
def Identifier (name : String) : Prop :=
  ∃ first rest, name.toList = first :: rest ∧ Lexeme.startsWord first ∧ ∀ c ∈ rest, Lexeme.continuesWord c

private theorem toNat_of_continuesWord {c : Char} (inside : Lexeme.continuesWord c) :
    (48 ≤ c.toNat ∧ c.toNat ≤ 57) ∨ (65 ≤ c.toNat ∧ c.toNat ≤ 90) ∨ c.toNat = 95 ∨
      (97 ≤ c.toNat ∧ c.toNat ≤ 122) := by
  change (((decide (c.val ≥ 'A'.val ∧ c.val ≤ 'Z'.val) || (decide (c.val ≥ 'a'.val) && decide (c.val ≤ 'z'.val))) ||
    (decide (c.val ≥ '0'.val) && decide (c.val ≤ '9'.val))) || decide (c = '_')) = true at inside
  simp only [Bool.or_eq_true, Bool.and_eq_true, decide_eq_true_eq, UInt32.le_iff_toNat_le] at inside
  rcases inside with ((upper | lower) | digit) | rfl
  · exact .inr (.inl upper)
  · exact .inr (.inr (.inr lower))
  · exact .inl digit
  · exact .inr (.inr (.inl rfl))

private theorem isSolid_of_continuesWord {c : Char} (inside : Lexeme.continuesWord c) : isSolid c := by
  have range := toNat_of_continuesWord inside
  have differs (mark : Char) (outside : mark.toNat < 48) : c ≠ mark := by
    rintro rfl
    omega
  have colon : c ≠ ':' := by
    rintro rfl
    have code : ':'.toNat = 58 := rfl
    omega
  rw [isSolid_iff]
  refine ⟨?_, differs _ (by decide), colon, differs _ (by decide)⟩
  simp only [Text.isWhiteSpace, Bool.or_eq_false_iff, Bool.and_eq_false_iff, decide_eq_false_iff_not]
  omega

theorem continuesWord_of_startsWord {c : Char} (begins : Lexeme.startsWord c) : Lexeme.continuesWord c := by
  simp only [Lexeme.startsWord, Lexeme.continuesWord, Char.isAlphanum, Bool.or_eq_true] at begins ⊢
  tauto

theorem Identifier.solid {name : String} (identifier : Identifier name) : Solid name.toList := by
  obtain ⟨first, rest, same, begins, continues⟩ := identifier
  refine ⟨by simp [same], fun c member => isSolid_of_continuesWord ?_⟩
  rw [same] at member
  rcases List.mem_cons.mp member with rfl | member
  · exact continuesWord_of_startsWord begins
  · exact continues c member

/-- An identifier begins with no character below the letters, nor with a bracket. -/
theorem Identifier.head_ne {name : String} (identifier : Identifier name) {mark : Char}
    (outside : Lexeme.startsWord mark = false) : name.toList.head? ≠ some mark := by
  obtain ⟨first, rest, same, begins, -⟩ := identifier
  rw [same, List.head?_cons]
  rintro ⟨⟩
  simp [begins] at outside

theorem Identifier.legible {name : String} (identifier : Identifier name) : LegibleLabel name :=
  ⟨identifier.solid, identifier.head_ne (by decide)⟩

def Named (tokens : List Token) : Prop :=
  ∀ token ∈ tokens, ∀ name, token.kind = .name name → Identifier name

private theorem longest_name {c : Char} {rest : List Char} {lexeme : Lexeme} {name : String}
    (found : Lexeme.longest c rest = .ok lexeme) (kind : lexeme.kind = .name name) : Identifier name := by
  unfold Lexeme.longest at found
  split at found
  · simp only at found
    split at found
    · cases found
      cases kind
    · cases found
  · split at found
    · next begins =>
      cases found
      simp only [Lexeme.word] at kind
      split at kind
      · cases kind
      · split at kind
        · cases kind
        · cases kind
          exact ⟨c, rest.takeWhile Lexeme.continuesWord, by simp, begins,
            fun d member => List.all_eq_true.mp List.all_takeWhile d member⟩
    · split at found
      · cases found
        cases kind
      · cases found

private theorem scanFrom_named {offset : Nat} {chars : List Char} {tokens : List Token}
    (scanned : Token.scanFrom offset chars = .ok tokens) : Named tokens := by
  fun_induction Token.scanFrom offset chars generalizing tokens with
  | case1 offset =>
    cases scanned
    simp [Named, Token.ending]
  | case2 offset c rest blank ih => exact ih scanned
  | case3 offset c rest dark text refused => cases scanned
  | case4 offset c rest dark lexeme found size =>
    rename_i ih
    cases tail : Token.scanFrom (offset + size) (rest.drop (lexeme.chars.length - 1)) with
    | error fault =>
      rw [tail] at scanned
      cases scanned
    | ok others =>
      rw [tail] at scanned
      cases scanned
      intro token member name kind
      rcases List.mem_cons.mp member with rfl | member
      · exact longest_name found kind
      · exact ih tail token member name kind

mutual

/-- The names in a term are identifiers, and its calls are permitted and number their arguments
from zero. -/
def Regular (permitted : String → Nat → Prop) : Term → Prop
  | .literal _ => True
  | .var name => Identifier name
  | .assign target value => Identifier target ∧ Regular permitted value
  | .apply _ left right => Regular permitted left ∧ Regular permitted right
  | .branch test accepted none => Regular permitted test ∧ Regular permitted accepted
  | .branch test accepted (some otherwise) =>
    Regular permitted test ∧ Regular permitted accepted ∧ Regular permitted otherwise
  | .leave none => True
  | .leave (some value) => Regular permitted value
  | .block body => RegularBody permitted body
  | .call callee arguments =>
    Identifier callee ∧ permitted callee arguments.length ∧
      arguments.map (·.1) = List.range arguments.length ∧ RegularArguments permitted arguments
  | .function name parameters body =>
    Identifier name ∧ (∀ parameter ∈ parameters, Identifier parameter) ∧ RegularBody permitted body

def RegularBody (permitted : String → Nat → Prop) : List Term → Prop
  | [] => True
  | statement :: rest => Regular permitted statement ∧ RegularBody permitted rest

def RegularArguments (permitted : String → Nat → Prop) : List (Nat × Term) → Prop
  | [] => True
  | (_, value) :: rest => Regular permitted value ∧ RegularArguments permitted rest

end

def RegularPhrase : Phrase → Prop
  | .program body | .block body => RegularBody (fun _ _ => True) body
  | .statement term | .definition term | .expression term | .assignment term | .equality term
  | .relational term | .sum term | .product term | .unary term | .primary term =>
    Regular (fun _ _ => True) term
  | .arguments values => ∀ value ∈ values, Regular (fun _ _ => True) value

private theorem Named.append {front back : List Token} : Named (front ++ back) ↔ Named front ∧ Named back := by
  simp only [Named, List.mem_append]
  constructor
  · intro named
    exact ⟨fun token member => named token (.inl member), fun token member => named token (.inr member)⟩
  · rintro ⟨first, second⟩ token (member | member)
    · exact first token member
    · exact second token member

theorem Named.cons {token : Token} {rest : List Token} (named : Named (token :: rest)) :
    (∀ name, token.kind = .name name → Identifier name) ∧ Named rest :=
  ⟨named token (by simp), fun other member => named other (by simp [member])⟩

private theorem names_identifiers {tokens : List Token} {names : List String} (listed : Names tokens names)
    (named : Named tokens) : ∀ name ∈ names, Identifier name := by
  induction listed with
  | last kind =>
    intro name member
    rw [List.mem_singleton.mp member]
    exact named.cons.1 _ kind
  | more kind _ _ ih =>
    intro name member
    rcases List.mem_cons.mp member with rfl | member
    · exact named.cons.1 _ kind
    · exact ih named.cons.2.cons.2 name member

private theorem regularArguments_numbered {values : List Term} {permitted : String → Nat → Prop}
    (regular : ∀ value ∈ values, Regular permitted value) (positions : List Nat) :
    RegularArguments permitted (positions.zip values) := by
  induction values generalizing positions with
  | nil => simp [RegularArguments]
  | cons value rest ih =>
    cases positions with
    | nil => simp [RegularArguments]
    | cons position others =>
      exact ⟨regular value (by simp), ih (fun other member => regular other (by simp [member])) others⟩

/-- Whatever is derived from scanned tokens is regular. -/
theorem derives_regular {strict : Bool} {tokens : List Token} {phrase : Phrase}
    (derived : Derives strict tokens phrase) (named : Named tokens) : RegularPhrase phrase := by
  induction derived with
  | empty => trivial
  | leave | number => trivial
  | noArgument => intro value member; cases member
  | sequence _ _ head tail =>
    obtain ⟨first, second⟩ := Named.append.mp named
    exact ⟨head first, tail second⟩
  | conditional _ _ _ _ _ condition consequence =>
    obtain ⟨tested, chosen⟩ := Named.append.mp named.cons.2.cons.2
    exact ⟨condition tested, consequence chosen.cons.2⟩
  | alternative _ _ _ _ _ _ _ _ condition consequence replacement =>
    obtain ⟨tested, behind⟩ := Named.append.mp named.cons.2.cons.2
    obtain ⟨chosen, left⟩ := Named.append.mp behind.cons.2
    exact ⟨condition tested, consequence chosen, replacement left.cons.2⟩
  | nested _ inner | declared _ inner | unterminated _ _ inner | assignment _ inner | equality _ inner
  | relational _ inner | sum _ inner | product _ inner | unary _ inner | primary _ inner =>
    exact inner named
  | terminated _ _ inner => exact inner (Named.append.mp named).1
  | braces _ _ _ inner => exact inner (Named.append.mp named.cons.2).1
  | function _ kind _ _ parametric _ _ _ _ inner =>
    obtain ⟨identified, behind⟩ := named.cons.2.cons
    obtain ⟨listed, tokens⟩ := Named.append.mp behind.cons.2
    refine ⟨identified _ kind, ?_, inner tokens.cons.2⟩
    rcases parametric with ⟨_, rfl⟩ | parametric
    · intro parameter member
      cases member
    · exact names_identifiers parametric listed
  | leaveWith _ _ inner | positive _ _ inner => exact inner named.cons.2
  | assign _ _ _ assigned inner | assignBlock _ _ _ assigned inner =>
    obtain ⟨front, back⟩ := Named.append.mp named
    exact ⟨assigned front, inner back.cons.2⟩
  | equal _ _ _ first second | unequal _ _ _ first second | less _ _ _ first second
  | atMost _ _ _ first second | plus _ _ _ first second | minus _ _ _ first second
  | times _ _ _ first second | «over» _ _ _ first second =>
    obtain ⟨front, back⟩ := Named.append.mp named
    exact ⟨first front, second back.cons.2⟩
  | greater _ _ _ first second | atLeast _ _ _ first second =>
    obtain ⟨front, back⟩ := Named.append.mp named
    exact ⟨second back.cons.2, first front⟩
  | negative _ _ inner => exact ⟨trivial, inner named.cons.2⟩
  | reference kind => exact named.cons.1 _ kind
  | call kind _ _ _ _ _ inner =>
    have values := inner (Named.append.mp named.cons.2.cons.2).1
    refine ⟨named.cons.1 _ kind, trivial, ?_, regularArguments_numbered values _⟩
    simp [numbered, List.map_fst_zip]
  | group _ _ _ inner => exact inner (Named.append.mp named.cons.2).1
  | lastArgument _ inner =>
    intro value member
    rw [List.mem_singleton.mp member]
    exact inner named
  | moreArguments _ _ _ head tail =>
    obtain ⟨front, back⟩ := Named.append.mp named
    intro value member
    rcases List.mem_cons.mp member with rfl | member
    · exact head front
    · exact tail back.cons.2 value member

mutual

/-- A regular term whose calls are all permitted is regular with that. -/
theorem regular_of_mentions {permitted : String → Nat → Prop} : ∀ {term : Term},
    Regular (fun _ _ => True) term →
    (∀ callee count, .call callee count ∈ term.mentions → permitted callee count) → Regular permitted term
  | .literal _, _, _ | .leave none, _, _ => trivial
  | .var _, identifier, _ => identifier
  | .assign _ _, regular, allowed => ⟨regular.1, regular_of_mentions regular.2 allowed⟩
  | .apply _ _ _, regular, allowed =>
    ⟨regular_of_mentions regular.1 fun _ _ member => allowed _ _ (List.mem_append_left _ member),
      regular_of_mentions regular.2 fun _ _ member => allowed _ _ (List.mem_append_right _ member)⟩
  | .branch _ _ none, regular, allowed =>
    ⟨regular_of_mentions regular.1 fun _ _ member => allowed _ _ (List.mem_append_left _ member),
      regular_of_mentions regular.2 fun _ _ member => allowed _ _ (List.mem_append_right _ member)⟩
  | .branch _ _ (some _), regular, allowed =>
    ⟨regular_of_mentions regular.1 fun _ _ member =>
        allowed _ _ (List.mem_append_left _ (List.mem_append_left _ member)),
      regular_of_mentions regular.2.1 fun _ _ member =>
        allowed _ _ (List.mem_append_left _ (List.mem_append_right _ member)),
      regular_of_mentions regular.2.2 fun _ _ member => allowed _ _ (List.mem_append_right _ member)⟩
  | .leave (some value), regular, allowed => @regular_of_mentions permitted value regular allowed
  | .block _, regular, allowed => regularBody_of_mentions regular allowed
  | .call _ _, regular, allowed =>
    ⟨regular.1, allowed _ _ (List.mem_cons_self ..), regular.2.2.1,
      regularArguments_of_mentions regular.2.2.2 fun _ _ member =>
        allowed _ _ (List.mem_cons_of_mem _ member)⟩
  | .function _ _ _, regular, allowed =>
    ⟨regular.1, regular.2.1, regularBody_of_mentions regular.2.2 fun _ _ member =>
      allowed _ _ (List.mem_cons_of_mem _ member)⟩

theorem regularBody_of_mentions {permitted : String → Nat → Prop} : ∀ {body : List Term},
    RegularBody (fun _ _ => True) body →
    (∀ callee count, .call callee count ∈ Term.bodyMentions body → permitted callee count) →
    RegularBody permitted body
  | [], _, _ => trivial
  | _ :: _, regular, allowed =>
    ⟨regular_of_mentions regular.1 fun _ _ member => allowed _ _ (List.mem_append_left _ member),
      regularBody_of_mentions regular.2 fun _ _ member => allowed _ _ (List.mem_append_right _ member)⟩

theorem regularArguments_of_mentions {permitted : String → Nat → Prop} :
    ∀ {arguments : List (Nat × Term)}, RegularArguments (fun _ _ => True) arguments →
    (∀ callee count, .call callee count ∈ Term.argumentMentions arguments → permitted callee count) →
    RegularArguments permitted arguments
  | [], _, _ => trivial
  | (_, _) :: _, regular, allowed =>
    ⟨regular_of_mentions regular.1 fun _ _ member => allowed _ _ (List.mem_append_left _ member),
      regularArguments_of_mentions regular.2 fun _ _ member =>
        allowed _ _ (List.mem_append_right _ member)⟩

end

def RegularDefinition (permitted : String → Nat → Prop) (function : Definition) : Prop :=
  Identifier function.name ∧ (∀ parameter ∈ function.parameters, Identifier parameter) ∧
    RegularBody permitted function.body

mutual

/-- The definitions nested anywhere in a regular term are regular. -/
theorem regular_definition {permitted : String → Nat → Prop} {function : Definition} : ∀ {term : Term},
    Regular permitted term → .definition function ∈ term.mentions → RegularDefinition permitted function
  | .literal _, _, member => by simp [Term.mentions] at member
  | .var _, _, member => by simp [Term.mentions] at member
  | .leave none, _, member => by simp [Term.mentions] at member
  | .assign _ _, regular, member => regular_definition regular.2 member
  | .apply _ _ _, regular, member => by
    rcases List.mem_append.mp member with member | member
    · exact regular_definition regular.1 member
    · exact regular_definition regular.2 member
  | .branch _ _ none, regular, member => by
    rcases List.mem_append.mp member with member | member
    · exact regular_definition regular.1 member
    · exact regular_definition regular.2 member
  | .branch _ _ (some _), regular, member => by
    rcases List.mem_append.mp member with member | member
    · rcases List.mem_append.mp member with member | member
      · exact regular_definition regular.1 member
      · exact regular_definition regular.2.1 member
    · exact regular_definition regular.2.2 member
  | .leave (some value), regular, member => @regular_definition permitted function value regular member
  | .block _, regular, member => regularBody_definition regular member
  | .call _ _, regular, member => by
    rcases List.mem_cons.mp member with different | member
    · cases different
    · exact regularArguments_definition regular.2.2.2 member
  | .function _ _ _, regular, member => by
    rcases List.mem_cons.mp member with same | member
    · cases same
      exact regular
    · exact regularBody_definition regular.2.2 member

theorem regularBody_definition {permitted : String → Nat → Prop} {function : Definition} :
    ∀ {body : List Term}, RegularBody permitted body →
    .definition function ∈ Term.bodyMentions body → RegularDefinition permitted function
  | [], _, member => by simp [Term.bodyMentions] at member
  | _ :: _, regular, member => by
    rcases List.mem_append.mp member with member | member
    · exact regular_definition regular.1 member
    · exact regularBody_definition regular.2 member

theorem regularArguments_definition {permitted : String → Nat → Prop} {function : Definition} :
    ∀ {arguments : List (Nat × Term)}, RegularArguments permitted arguments →
    .definition function ∈ Term.argumentMentions arguments → RegularDefinition permitted function
  | [], _, member => by simp [Term.argumentMentions] at member
  | (_, _) :: _, regular, member => by
    rcases List.mem_append.mp member with member | member
    · exact regular_definition regular.1 member
    · exact regularArguments_definition regular.2 member

end

def functions (program : List Term) : List Definition := ⟨Lowering.entry, [], program⟩ :: definitions program

theorem definition_mem {program : List Term} {function : Definition} (found : function ∈ definitions program) :
    .definition function ∈ Term.bodyMentions program := by
  obtain ⟨mention, member, same⟩ := List.mem_filterMap.mp found
  cases mention with
  | definition other =>
    cases same
    exact member
  | call callee count => cases same

/-- Every function of a source text is regular, and its calls are among those of the source. -/
theorem regular_functions {source : String} {program : List Term}
    (accepted : readSource source = .ok program) {function : Definition}
    (member : function ∈ functions program) :
    RegularDefinition (fun callee count => (callee, count) ∈ calls program) function := by
  obtain ⟨tokens, scanned, parsed⟩ := bind_eq_ok.mp accepted
  have named : Named tokens := by
    simp only [scan] at scanned
    cases result : Token.scan source with
    | error fault =>
      rw [result] at scanned
      cases scanned
    | ok found =>
      rw [result] at scanned
      cases scanned
      exact scanFrom_named result
  have shorter : Named (tokens.takeWhile (!·.isEnding)) := fun token taken =>
    named token ((List.takeWhile_prefix _).subset taken)
  obtain ⟨used, same, derived⟩ := program_sound (GrammarCompleteness.parse_eq_ok_iff.mp parsed)
  rw [List.append_nil] at same
  have lexical := derives_regular derived (same ▸ shorter)
  have regular : RegularBody (fun callee count => (callee, count) ∈ calls program) program :=
    regularBody_of_mentions lexical fun callee count mentioned =>
      List.mem_filterMap.mpr ⟨_, mentioned, rfl⟩
  rcases List.mem_cons.mp member with rfl | member
  · have main : Identifier "main" := ⟨'m', ['a', 'i', 'n'], by decide, by decide, List.all_eq_true.mp (by decide)⟩
    refine ⟨main, fun parameter none => ?_, regular⟩
    cases none
  · exact regularBody_definition regular (definition_mem member)

end Stackwise.Proofs.SourceTerms
