import Stackwise.Proofs.GrammarCompleteness

/-! How far the productions look ahead. A production sees one token behind those it uses, and only to
decide that nothing more belongs to it. So it reads the same again when that token is missing or is
replaced by one of its kind. A statement that ends in a semicolon or a closing brace can also be
followed by any other statement, and a production that ends in its own bracket by anything. -/

namespace Stackwise.Proofs.Lookahead
open Grammar Derivations GrammarSoundness GrammarCompleteness

/-- Where `rest` stood there is nothing any more, or a token of the kind of its first one. -/
inductive Replaces : (after rest : List Token) → Prop where
  | nothing (rest : List Token) : Replaces [] rest
  | token {one two : Token} (kinds : one.kind = two.kind) (after rest : List Token) :
      Replaces (one :: after) (two :: rest)

def Sealed (tokens : List Token) : Prop :=
  ∀ last, tokens.getLast? = some last → last.kind = .symbol ";" ∨ last.kind = .symbol "\x7d"

/-- How a production ends: with a bracket of its own, with a semicolon or a brace at times, or only
where the next token does not belong to it. -/
inductive Margin where
  | enclosed
  | sealable
  | exposed

/-- The tokens that may stand behind those used, in place of the rest. -/
def Margin.Admits : Margin → (used rest after : List Token) → Prop
  | .enclosed, _, _, _ => True
  | .sealable, used, rest, after => Replaces after rest ∨ Sealed used ∧ atStatement after = true
  | .exposed, _, rest, after => Replaces after rest

section
variable {used whole rest after : List Token}

theorem replaces_cons (token : Token) (after rest : List Token) : Replaces (token :: after) (token :: rest) :=
  .token rfl after rest

theorem Replaces.append (replaces : Replaces after rest) (used : List Token) :
    Replaces (used ++ after) (used ++ rest) := by
  cases used with
  | nil => exact replaces
  | cons token others => exact replaces_cons token _ _

theorem ne_nil_of_shorter (shorter : rest.length < (used ++ rest).length) : used ≠ [] := by
  rintro rfl
  exact Nat.lt_irrefl _ shorter

/-- Behind a token that stays, everything may be replaced. -/
theorem replaces_behind (shorter : rest.length < (used ++ rest).length) (after : List Token) :
    Replaces (used ++ after) (used ++ rest) := by
  obtain ⟨token, others, rfl⟩ := List.exists_cons_of_ne_nil (ne_nil_of_shorter shorter)
  exact replaces_cons token _ _

theorem Replaces.refusedKind (replaces : Replaces after rest) {kind : TokenKind}
    (absent : acceptKind? kind rest = none) : acceptKind? kind after = none := by
  cases replaces with
  | nothing => rfl
  | token kinds => simpa [acceptKind?, kinds] using absent

theorem Replaces.refused (replaces : Replaces after rest) {symbol : String}
    (absent : accept? symbol rest = none) : accept? symbol after = none :=
  replaces.refusedKind absent

private theorem Replaces.unlinked (replaces : Replaces after rest) {tier : Tier}
    (absent : tier.acceptLink? rest = none) : tier.acceptLink? after = none := by
  cases replaces with
  | nothing => rfl
  | @token one two kinds =>
    cases linked : tier.link? two.kind with
    | none => simp [Tier.acceptLink?, next?, kinds, linked]
    | some link => simp [acceptLink?_cons linked] at absent

private theorem Replaces.notExpression (replaces : Replaces after rest) (stops : atExpression rest = false) :
    atExpression after = false := by
  cases replaces with
  | nothing => rfl
  | token kinds => simpa [atExpression, Token.opensExpression, kinds] using stops

theorem Sealed.suffix (ended : Sealed whole) (suffix : used <:+ whole) : Sealed used := by
  obtain ⟨front, rfl⟩ := suffix
  intro last found
  apply ended last
  rw [List.getLast?_append, found, Option.some_or]

theorem Margin.admits_of_replaces {margin : Margin} (replaces : Replaces after rest) :
    margin.Admits used rest after := by
  cases margin with
  | enclosed => trivial
  | sealable => exact .inl replaces
  | exposed => exact replaces

theorem admits_cons {margin : Margin} (token : Token) (after rest : List Token) :
    margin.Admits used (token :: rest) (token :: after) :=
  Margin.admits_of_replaces (replaces_cons token after rest)

/-- What may follow the whole may follow its last part. -/
theorem admits_suffix (suffix : used <:+ whole) (admits : Margin.sealable.Admits whole rest after) :
    Margin.sealable.Admits used rest after := by
  obtain replaces | ⟨ended, begins⟩ := admits
  · exact .inl replaces
  · exact .inr ⟨ended.suffix suffix, begins⟩

/-- No statement begins with a semicolon or with the word in front of an alternative. -/
theorem refused_behind {symbol : String} (continues : symbol = ";" ∨ symbol = "else")
    (admits : Margin.sealable.Admits used rest after) (absent : accept? symbol rest = none) :
    accept? symbol after = none := by
  obtain replaces | ⟨-, begins⟩ := admits
  · exact replaces.refused absent
  · apply accept?_eq_none
    intro token next
    simp only [atStatement, next, Option.any_some, Token.opensStatement, Token.opensExpression, Token.is] at begins ⊢
    grind

end

def isOperand : Phrase → Bool
  | .equality _ | .relational _ | .sum _ | .product _ | .unary _ | .primary _ => true
  | _ => false

/-- An operand ends in a name, a number or a closing parenthesis. -/
theorem not_sealed_of_operand {strict : Bool} {tokens : List Token} {phrase : Phrase}
    (derived : Derives strict tokens phrase) (operand : isOperand phrase) : ¬ Sealed tokens := by
  induction derived with
  | relational _ ih | sum _ ih | product _ ih | unary _ ih | primary _ ih => exact ih rfl
  | @equal mark front _ _ _ _ _ _ _ ih | @unequal mark front _ _ _ _ _ _ _ ih | @less mark front _ _ _ _ _ _ _ ih
  | @atMost mark front _ _ _ _ _ _ _ ih | @greater mark front _ _ _ _ _ _ _ ih
  | @atLeast mark front _ _ _ _ _ _ _ ih | @plus mark front _ _ _ _ _ _ _ ih
  | @minus mark front _ _ _ _ _ _ _ ih | @times mark front _ _ _ _ _ _ _ ih
  | @«over» mark front _ _ _ _ _ _ _ ih =>
    intro ended
    exact ih rfl (ended.suffix ((List.suffix_cons mark _).trans (List.suffix_append front _)))
  | @positive sign _ _ _ _ ih | @negative sign _ _ _ _ ih =>
    intro ended
    exact ih rfl (ended.suffix (List.suffix_cons sign _))
  | number last | reference last =>
    intro ended
    simpa [last] using ended _ rfl
  | @call _ _ closing _ _ _ _ _ _ _ _ closed | @group _ closing _ _ _ _ closed =>
    intro ended
    have mark := ended closing (by simp [List.getLast?_cons])
    simp_all [Token.is]
  | _ => cases operand

/-- What was read is read again in front of whatever the margin admits in place of the rest. -/
def Repeats {α : Type} {bound : List Token → Nat} (margin : Margin)
    (production : (tokens : List Token) → Except Mismatch (Parsed α (bound tokens))) (value : α)
    (tokens rest : List Token) : Prop :=
  ∃ used, tokens = used ++ rest ∧
    ∀ after, margin.Admits used rest after → Yields (production (used ++ after)) value after

/-- The productions read the same again if they are called on fewer tokens than `size`. The token that
a failure at the end of the input points at may be another one the second time. -/
structure Local (ending other : Token) (size : Nat) : Prop where
  statement : ∀ {tokens rest : List Token} {term : Term}, tokens.length < size →
    Yields (statement ending tokens) term rest → Repeats .sealable (statement other) term tokens rest
  blockBody : ∀ {tokens rest : List Token} {body : List Term}, tokens.length < size →
    Yields (blockBody ending tokens) body rest → Repeats .enclosed (blockBody other) body tokens rest
  expression : ∀ {tokens rest : List Token} {term : Term}, tokens.length < size →
    Yields (expression ending tokens) term rest → Repeats .sealable (expression other) term tokens rest
  assignment : ∀ {tokens rest : List Token} {term : Term}, tokens.length < size →
    Yields (assignment ending tokens) term rest → Repeats .sealable (assignment other) term tokens rest
  operand : ∀ {tier : Tier} {tokens rest : List Token} {term : Term}, tokens.length < size →
    Yields (operand ending tier tokens) term rest → Repeats .exposed (operand other tier) term tokens rest
  primary : ∀ {tokens rest : List Token} {term : Term}, tokens.length < size →
    Yields (primary ending tokens) term rest → Repeats .exposed (primary other) term tokens rest
  argumentList : ∀ {count : Nat} {tokens rest : List Token} {values : List Term}, tokens.length < size →
    Yields (argumentList ending count tokens) values rest →
    Repeats .enclosed (argumentList other count) values tokens rest

section
variable {ending other : Token} {tokens rest : List Token} {term : Term}

theorem Local.mono {size limit : Nat} (known : Local ending other limit) (within : size ≤ limit) :
    Local ending other size where
  statement fewer := known.statement (by omega)
  blockBody fewer := known.blockBody (by omega)
  expression fewer := known.expression (by omega)
  assignment fewer := known.assignment (by omega)
  operand fewer := known.operand (by omega)
  primary fewer := known.primary (by omega)
  argumentList fewer := known.argumentList (by omega)

private theorem arguments_local {values : List Term} (below : Local ending other (tokens.length + 1))
    (read : Yields (arguments ending tokens) values rest) :
    Repeats .enclosed (arguments other) values tokens rest := by
  rw [arguments] at read
  split at read
  next closing _ accepted =>
    obtain ⟨token, closes, rfl⟩ := accept?_eq_some_iff.mp accepted
    obtain ⟨rfl, rfl⟩ := yields_pure.mp read
    refine ⟨[token], rfl, fun after _ => ?_⟩
    rw [List.singleton_append, arguments, accept?_cons closes]
    exact yields_pure.mpr ⟨rfl, rfl⟩
  next absent =>
    have ⟨shorter, _⟩ := read
    obtain ⟨used, rfl, again⟩ := below.argumentList (Nat.lt_succ_self _) read
    refine ⟨used, rfl, fun after _ => ?_⟩
    rw [arguments, (replaces_behind shorter after).refused absent]
    exact again after trivial

theorem primary_local (below : Local ending other tokens.length) (read : Yields (primary ending tokens) term rest) :
    Repeats .exposed (primary other) term tokens rest := by
  rw [primary] at read
  split at read
  next afterOpen _ accepted =>
    obtain ⟨opening, opened, rfl⟩ := accept?_eq_some_iff.mp accepted
    obtain ⟨⟨inner, afterInner, shorter⟩, begun, continued⟩ := yields_bind.mp read
    obtain ⟨⟨left, fewer⟩, expected, finished⟩ := yields_bind.mp continued
    obtain ⟨closing, closed, rfl⟩ := expect_eq_ok_iff.mp expected
    obtain ⟨rfl, rfl⟩ := yields_pure.mp finished
    obtain ⟨used, rfl, again⟩ := below.expression (by simp) ⟨shorter, begun⟩
    refine ⟨opening :: (used ++ [closing]), by simp, fun after _ => ?_⟩
    obtain ⟨_, reread⟩ := again (closing :: after) (admits_cons closing after left)
    rw [List.cons_append, List.append_assoc, List.singleton_append, primary, accept?_cons opened]
    exact yields_bind.mpr ⟨_, reread, yields_bind.mpr ⟨_, expect_cons closed, yields_pure.mpr ⟨rfl, rfl⟩⟩⟩
  next absent =>
    cases tokens with
    | nil => exact (not_yields_error read).elim
    | cons token others =>
      have ungrouped (after : List Token) : accept? "(" (token :: after) = none :=
        (replaces_cons token after others).refused absent
      simp only [next?] at read
      split at read
      next name named =>
        split at read
        next afterOpen _ accepted =>
          obtain ⟨opening, opened, rfl⟩ := accept?_eq_some_iff.mp accepted
          obtain ⟨_, checked, continued⟩ := yields_bind.mp read
          obtain ⟨⟨values, left, fewer⟩, begun, finished⟩ := yields_bind.mp continued
          obtain ⟨rfl, rfl⟩ := yields_pure.mp finished
          obtain ⟨used, rfl, again⟩ := arguments_local (below.mono (by simp)) ⟨fewer, begun⟩
          refine ⟨token :: opening :: used, rfl, fun after _ => ?_⟩
          obtain ⟨_, reread⟩ := again after trivial
          rw [List.cons_append, List.cons_append, primary, ungrouped]
          simp only [next?, named, accept?_cons opened]
          exact yields_bind.mpr ⟨_, checked, yields_bind.mpr ⟨_, reread, yields_pure.mpr ⟨rfl, rfl⟩⟩⟩
        next uncalled =>
          obtain ⟨rfl, rfl⟩ := yields_pure.mp read
          refine ⟨[token], rfl, fun after replaces => ?_⟩
          rw [List.singleton_append, primary, ungrouped]
          simp only [next?, named, Replaces.refused replaces uncalled]
          exact yields_pure.mpr ⟨rfl, rfl⟩
      next value numeral =>
        obtain ⟨rfl, rfl⟩ := yields_pure.mp read
        refine ⟨[token], rfl, fun after _ => ?_⟩
        rw [List.singleton_append, primary, ungrouped]
        simp only [next?, numeral]
        exact yields_pure.mpr ⟨rfl, rfl⟩
      next => exact (not_yields_error read).elim

private theorem unary_local (below : Local ending other tokens.length) (read : Yields (unary ending tokens) term rest) :
    Repeats .exposed (unary other) term tokens rest := by
  rw [unary] at read
  split at read
  next afterSign _ accepted =>
    obtain ⟨sign, positive, rfl⟩ := accept?_eq_some_iff.mp accepted
    obtain ⟨⟨inner, left, shorter⟩, begun, finished⟩ := yields_bind.mp read
    obtain ⟨rfl, rfl⟩ := yields_pure.mp finished
    obtain ⟨used, rfl, again⟩ := below.primary (by simp) ⟨shorter, begun⟩
    refine ⟨sign :: used, rfl, fun after replaces => ?_⟩
    obtain ⟨_, reread⟩ := again after replaces
    rw [List.cons_append, unary, accept?_cons positive]
    exact yields_bind.mpr ⟨_, reread, yields_pure.mpr ⟨rfl, rfl⟩⟩
  next unsigned =>
    split at read
    next afterSign _ accepted =>
      obtain ⟨sign, negative, rfl⟩ := accept?_eq_some_iff.mp accepted
      obtain ⟨⟨inner, left, shorter⟩, begun, finished⟩ := yields_bind.mp read
      obtain ⟨rfl, rfl⟩ := yields_pure.mp finished
      obtain ⟨used, rfl, again⟩ := below.primary (by simp) ⟨shorter, begun⟩
      refine ⟨sign :: used, rfl, fun after replaces => ?_⟩
      obtain ⟨_, reread⟩ := again after replaces
      rw [List.cons_append, unary, (replaces_cons sign _ _).refused unsigned]
      simp only [accept?_cons negative]
      exact yields_bind.mpr ⟨_, reread, yields_pure.mpr ⟨rfl, rfl⟩⟩
    next bare =>
      have ⟨shorter, _⟩ := read
      obtain ⟨used, rfl, again⟩ := primary_local below read
      refine ⟨used, rfl, fun after replaces => ?_⟩
      have kept := replaces_behind shorter after
      rw [unary, kept.refused unsigned]
      simp only [kept.refused bare]
      exact again after replaces

/-- The links of a chain up to the first token that is none of them. -/
theorem chainFrom_local {tier : Tier} {tokens rest : List Token} {left term : Term}
    (below : Local ending other (tokens.length + 1))
    (read : Yields (chainFrom ending tier left tokens) term rest) :
    Repeats .exposed (chainFrom other tier left) term tokens rest := by
  rw [chainFrom] at read
  split at read
  next unlinked =>
    obtain ⟨rfl, rfl⟩ := yields_pure.mp read
    refine ⟨[], rfl, fun after replaces => ?_⟩
    rw [List.nil_append, chainFrom, Replaces.unlinked replaces unlinked]
    exact yields_pure.mpr ⟨rfl, rfl⟩
  next link afterLink _ accepted =>
    obtain ⟨token, linked, rfl⟩ := acceptLink?_eq_some_iff.mp accepted
    obtain ⟨⟨right, afterRight, shorter⟩, begun, continued⟩ := yields_bind.mp read
    obtain ⟨⟨found, remaining, fewer⟩, ended, finished⟩ := yields_bind.mp continued
    obtain ⟨rfl, rfl⟩ := yields_pure.mp finished
    obtain ⟨front, rfl, first⟩ := below.operand (by simp only [List.length_cons]; omega) ⟨shorter, begun⟩
    obtain ⟨back, rfl, second⟩ := chainFrom_local (below.mono (by simp; omega)) ⟨fewer, ended⟩
    refine ⟨token :: (front ++ back), by simp, fun after replaces => ?_⟩
    obtain ⟨_, operand⟩ := first (back ++ after) (Replaces.append replaces back)
    obtain ⟨_, links⟩ := second after replaces
    rw [List.cons_append, List.append_assoc, chainFrom, acceptLink?_cons linked]
    exact yields_bind.mpr ⟨_, operand, yields_bind.mpr ⟨_, links, yields_pure.mpr ⟨rfl, rfl⟩⟩⟩
termination_by tokens.length
decreasing_by
  subst_vars
  simp only [List.length_append, List.length_cons]
  omega

theorem chain_local {tier : Tier} (below : Local ending other tokens.length)
    (here : ∀ {left : List Token} {found : Term}, Yields (operand ending tier tokens) found left →
      Repeats .exposed (operand other tier) found tokens left)
    (read : Yields (chain ending tier tokens) term rest) : Repeats .exposed (chain other tier) term tokens rest := by
  rw [chain] at read
  obtain ⟨⟨first, afterFirst, shorter⟩, begun, continued⟩ := yields_bind.mp read
  obtain ⟨⟨found, left, fewer⟩, ended, finished⟩ := yields_bind.mp continued
  obtain ⟨rfl, rfl⟩ := yields_pure.mp finished
  obtain ⟨front, rfl, first⟩ := here ⟨shorter, begun⟩
  obtain ⟨back, rfl, second⟩ := chainFrom_local (below.mono shorter) ⟨fewer, ended⟩
  refine ⟨front ++ back, by simp, fun after replaces => ?_⟩
  obtain ⟨_, operand⟩ := first (back ++ after) (Replaces.append replaces back)
  obtain ⟨_, links⟩ := second after replaces
  rw [List.append_assoc, chain]
  exact yields_bind.mpr ⟨_, operand, yields_bind.mpr ⟨_, links, yields_pure.mpr ⟨rfl, rfl⟩⟩⟩

theorem operand_local {tier : Tier} (below : Local ending other tokens.length)
    (read : Yields (operand ending tier tokens) term rest) :
    Repeats .exposed (operand other tier) term tokens rest := by
  induction level : tier.height using Nat.strongRecOn generalizing tier rest term with
  | ind height ih =>
    subst level
    cases tier with
    | product =>
      rw [operand] at read
      simpa only [Repeats, operand] using unary_local below read
    | sum =>
      rw [operand] at read
      simpa only [Repeats, operand] using chain_local below (ih 1 (by decide) · rfl) read
    | comparison =>
      rw [operand] at read
      simpa only [Repeats, operand] using chain_local below (ih 2 (by decide) · rfl) read
    | equality =>
      rw [operand] at read
      simpa only [Repeats, operand] using chain_local below (ih 3 (by decide) · rfl) read

/-- An assignment ends in a brace if its value is a block. A chain never does. -/
theorem assignment_local (below : Local ending other tokens.length)
    (read : Yields (assignment ending tokens) term rest) :
    Repeats .sealable (assignment other) term tokens rest := by
  rw [assignment] at read
  obtain ⟨⟨target, afterTarget, shorter⟩, begun, continued⟩ := yields_bind.mp read
  obtain ⟨front, rfl, first⟩ := chain_local below (operand_local below) ⟨shorter, begun⟩
  simp only at continued
  split at continued
  next unassigned =>
    obtain ⟨rfl, rfl⟩ := yields_pure.mp continued
    refine ⟨front, rfl, fun after admits => ?_⟩
    have sound := sound ending (front ++ afterTarget).length
    obtain ⟨used, same, derived⟩ : Consumes (front ++ afterTarget) afterTarget (.equality target) :=
      chain_sound sound (operand_sound sound) ⟨shorter, begun⟩
    obtain rfl := List.append_cancel_right same
    obtain replaces | ⟨ended, -⟩ := admits
    · obtain ⟨_, chained⟩ := first after replaces
      rw [assignment]
      refine yields_bind.mpr ⟨_, chained, ?_⟩
      simp only [replaces.refused unassigned]
      exact yields_pure.mpr ⟨rfl, rfl⟩
    · exact (not_sealed_of_operand derived rfl ended).elim
  next afterEquals _ accepted =>
    obtain ⟨mark, equals, rfl⟩ := accept?_eq_some_iff.mp accepted
    have targeted (after : List Token) :
        Yields (chain other .equality (front ++ mark :: after)) target (mark :: after) :=
      first (mark :: after) (replaces_cons mark after afterEquals)
    split at continued
    next name =>
      split at continued
      next afterBrace _ opens =>
        obtain ⟨opening, opened, rfl⟩ := accept?_eq_some_iff.mp opens
        obtain ⟨⟨body, left, fewer⟩, entered, finished⟩ := yields_bind.mp continued
        obtain ⟨rfl, rfl⟩ := yields_pure.mp finished
        obtain ⟨used, rfl, again⟩ := below.blockBody (by simp; omega) ⟨fewer, entered⟩
        refine ⟨front ++ mark :: opening :: used, by simp, fun after _ => ?_⟩
        obtain ⟨_, chained⟩ := targeted (opening :: (used ++ after))
        obtain ⟨_, block⟩ := again after trivial
        rw [List.append_assoc, List.cons_append, List.cons_append, assignment]
        refine yields_bind.mpr ⟨_, chained, ?_⟩
        simp only [accept?_cons equals, accept?_cons opened]
        exact yields_bind.mpr ⟨_, block, yields_pure.mpr ⟨rfl, rfl⟩⟩
      next unbraced =>
        obtain ⟨⟨value, left, fewer⟩, entered, finished⟩ := yields_bind.mp continued
        obtain ⟨rfl, rfl⟩ := yields_pure.mp finished
        obtain ⟨used, rfl, again⟩ := below.assignment (by simp; omega) ⟨fewer, entered⟩
        refine ⟨front ++ mark :: used, by simp, fun after admits => ?_⟩
        have suffix : used <:+ front ++ mark :: used :=
          (List.suffix_cons mark used).trans (List.suffix_append front _)
        have kept := replaces_behind fewer after
        obtain ⟨_, chained⟩ := targeted (used ++ after)
        obtain ⟨_, assigned⟩ := again after (admits_suffix suffix admits)
        rw [List.append_assoc, List.cons_append, assignment]
        refine yields_bind.mpr ⟨_, chained, ?_⟩
        simp only [accept?_cons equals, kept.refused unbraced]
        exact yields_bind.mpr ⟨_, assigned, yields_pure.mpr ⟨rfl, rfl⟩⟩
    next => exact (not_yields_error continued).elim

private theorem acceptKind?_cons {kind : TokenKind} {token : Token} {rest : List Token} (same : token.kind = kind) :
    acceptKind? kind (token :: rest) = some ⟨rest, Nat.lt_succ_self _⟩ :=
  acceptKind?_eq_some_iff.mpr ⟨token, same, rfl⟩

private theorem atExpression_append {used : List Token} (filled : used ≠ []) (after rest : List Token) :
    atExpression (used ++ after) = atExpression (used ++ rest) := by
  obtain ⟨token, others, rfl⟩ := List.exists_cons_of_ne_nil filled
  rfl

theorem expression_local (below : Local ending other tokens.length)
    (read : Yields (expression ending tokens) term rest) :
    Repeats .sealable (expression other) term tokens rest := by
  rw [expression] at read
  split at read
  next afterReturn _ accepted =>
    obtain ⟨word, begins, same⟩ := acceptKind?_eq_some_iff.mp accepted
    obtain rfl : tokens = word :: afterReturn := same
    split at read
    next follows =>
      obtain ⟨⟨value, left, fewer⟩, entered, finished⟩ := yields_bind.mp read
      obtain ⟨rfl, rfl⟩ := yields_pure.mp finished
      obtain ⟨used, rfl, again⟩ := below.assignment (by simp) ⟨fewer, entered⟩
      refine ⟨word :: used, rfl, fun after admits => ?_⟩
      obtain ⟨_, assigned⟩ := again after (admits_suffix (List.suffix_cons word used) admits)
      rw [List.cons_append, expression, acceptKind?_cons begins]
      simp only [atExpression_append (ne_nil_of_shorter fewer) after left, follows, if_true]
      exact yields_bind.mpr ⟨_, assigned, yields_pure.mpr ⟨rfl, rfl⟩⟩
    next stops =>
      obtain ⟨rfl, rfl⟩ := yields_pure.mp read
      refine ⟨[word], rfl, fun after admits => ?_⟩
      obtain replaces | ⟨ended, -⟩ := admits
      · rw [List.singleton_append, expression, acceptKind?_cons begins]
        simp only [replaces.notExpression (Bool.not_eq_true _ ▸ stops)]
        exact yields_pure.mpr ⟨rfl, rfl⟩
      · have mark := ended word rfl
        simp [begins] at mark
  next absent =>
    have ⟨shorter, _⟩ := read
    obtain ⟨used, rfl, again⟩ := assignment_local below read
    refine ⟨used, rfl, fun after admits => ?_⟩
    rw [expression, (replaces_behind shorter after).refusedKind absent]
    exact again after admits

private theorem argumentList_local {count : Nat} {values : List Term} (below : Local ending other tokens.length)
    (read : Yields (argumentList ending count tokens) values rest) :
    Repeats .enclosed (argumentList other count) values tokens rest := by
  rw [argumentList] at read
  split at read
  next => exact (not_yields_error read).elim
  next room =>
    obtain ⟨⟨value, afterValue, shorter⟩, begun, continued⟩ := yields_bind.mp read
    obtain ⟨front, rfl, first⟩ := assignment_local below ⟨shorter, begun⟩
    simp only at continued
    split at continued
    next afterComma _ accepted =>
      obtain ⟨comma, separated, rfl⟩ := accept?_eq_some_iff.mp accepted
      obtain ⟨⟨others, left, fewer⟩, entered, finished⟩ := yields_bind.mp continued
      obtain ⟨rfl, rfl⟩ := yields_pure.mp finished
      obtain ⟨used, rfl, again⟩ := below.argumentList (by simp; omega) ⟨fewer, entered⟩
      refine ⟨front ++ comma :: used, by simp, fun after _ => ?_⟩
      obtain ⟨_, assigned⟩ := first (comma :: (used ++ after)) (admits_cons comma _ _)
      obtain ⟨_, further⟩ := again after trivial
      rw [List.append_assoc, List.cons_append, argumentList, if_neg room]
      refine yields_bind.mpr ⟨_, assigned, ?_⟩
      simp only [accept?_cons separated]
      exact yields_bind.mpr ⟨_, further, yields_pure.mpr ⟨rfl, rfl⟩⟩
    next unseparated =>
      obtain ⟨⟨left, fewer⟩, expected, finished⟩ := yields_bind.mp continued
      obtain ⟨closing, closed, rfl⟩ := expect_eq_ok_iff.mp expected
      obtain ⟨rfl, rfl⟩ := yields_pure.mp finished
      refine ⟨front ++ [closing], by simp, fun after _ => ?_⟩
      have kept := replaces_cons closing after left
      obtain ⟨_, assigned⟩ := first (closing :: after) (Margin.admits_of_replaces kept)
      rw [List.append_assoc, List.singleton_append, argumentList, if_neg room]
      refine yields_bind.mpr ⟨_, assigned, ?_⟩
      simp only [kept.refused unseparated]
      exact yields_bind.mpr ⟨_, expect_cons closed, yields_pure.mpr ⟨rfl, rfl⟩⟩

private theorem parameters_local {names : List String} (read : Yields (parameters ending tokens) names rest) :
    Repeats .enclosed (parameters other) names tokens rest := by
  obtain ⟨few, distinct, used, closing, rfl, closed, parametric⟩ := parameters_sound read
  refine ⟨used ++ [closing], by simp, fun after _ => ?_⟩
  rw [List.append_assoc, List.singleton_append]
  exact yields_parameters after parametric few distinct closed

private theorem definition_local (below : Local ending other (tokens.length + 1))
    (read : Yields (definition ending tokens) term rest) :
    Repeats .enclosed (definition other) term tokens rest := by
  rw [definition] at read
  obtain ⟨⟨⟨name, token⟩, afterName, shorter⟩, begun, continued⟩ := yields_bind.mp read
  obtain ⟨named, rfl⟩ := identifier_eq_ok_iff.mp begun
  obtain ⟨_, checked, continued⟩ := yields_bind.mp continued
  obtain ⟨⟨afterOpen, _⟩, expected, continued⟩ := yields_bind.mp continued
  obtain ⟨opening, opened, rfl⟩ := expect_eq_ok_iff.mp expected
  obtain ⟨⟨names, afterNames, fewer⟩, listed, continued⟩ := yields_bind.mp continued
  obtain ⟨⟨afterBrace, _⟩, expected, continued⟩ := yields_bind.mp continued
  obtain ⟨brace, braced, rfl⟩ := expect_eq_ok_iff.mp expected
  obtain ⟨⟨body, left, less⟩, entered, finished⟩ := yields_bind.mp continued
  obtain ⟨rfl, rfl⟩ := yields_pure.mp finished
  obtain ⟨front, rfl, lists⟩ := parameters_local ⟨fewer, listed⟩
  obtain ⟨back, rfl, encloses⟩ := below.blockBody (by simp; omega) ⟨less, entered⟩
  refine ⟨token :: opening :: (front ++ brace :: back), by simp, fun after _ => ?_⟩
  obtain ⟨_, parameters⟩ := lists (brace :: (back ++ after)) trivial
  obtain ⟨_, block⟩ := encloses after trivial
  rw [List.cons_append, List.cons_append, List.append_assoc, List.cons_append, definition]
  refine yields_bind.mpr ⟨_, identifier_cons named, yields_bind.mpr ⟨_, checked, ?_⟩⟩
  refine yields_bind.mpr ⟨_, expect_cons opened, yields_bind.mpr ⟨_, parameters, ?_⟩⟩
  refine yields_bind.mpr ⟨_, expect_cons braced, yields_bind.mpr ⟨_, block, ?_⟩⟩
  exact yields_pure.mpr ⟨rfl, rfl⟩

private theorem conditional_local (below : Local ending other (tokens.length + 1))
    (read : Yields (conditional ending tokens) term rest) :
    Repeats .sealable (conditional other) term tokens rest := by
  rw [conditional] at read
  obtain ⟨⟨afterOpen, _⟩, expected, continued⟩ := yields_bind.mp read
  obtain ⟨opening, opened, rfl⟩ := expect_eq_ok_iff.mp expected
  obtain ⟨⟨test, afterTest, shorter⟩, tested, continued⟩ := yields_bind.mp continued
  obtain ⟨front, rfl, condition⟩ := below.expression (by simp only [List.length_cons]; omega) ⟨shorter, tested⟩
  obtain ⟨⟨afterClose, _⟩, expected, continued⟩ := yields_bind.mp continued
  obtain ⟨closing, closed, rfl⟩ := expect_eq_ok_iff.mp expected
  obtain ⟨⟨accepted, afterAccepted, fewer⟩, chosen, continued⟩ := yields_bind.mp continued
  obtain ⟨middle, rfl, consequence⟩ := below.statement (by simp; omega) ⟨fewer, chosen⟩
  have tests (after : List Token) : Yields (expression other (front ++ closing :: after)) test (closing :: after) :=
    condition (closing :: after) (admits_cons closing _ _)
  simp only at continued
  split at continued
  next afterElse _ accepts =>
    obtain ⟨word, follows, rfl⟩ := accept?_eq_some_iff.mp accepts
    obtain ⟨⟨otherwise, left, less⟩, entered, finished⟩ := yields_bind.mp continued
    obtain ⟨rfl, rfl⟩ := yields_pure.mp finished
    obtain ⟨back, rfl, replacement⟩ := below.statement (by simp; omega) ⟨less, entered⟩
    refine ⟨opening :: (front ++ closing :: (middle ++ word :: back)), by simp, fun after admits => ?_⟩
    have suffix : back <:+ opening :: (front ++ closing :: (middle ++ word :: back)) :=
      ⟨opening :: (front ++ closing :: (middle ++ [word])), by simp⟩
    obtain ⟨_, condition⟩ := tests (middle ++ word :: (back ++ after))
    obtain ⟨_, chooses⟩ := consequence (word :: (back ++ after)) (admits_cons word _ _)
    obtain ⟨_, replaces⟩ := replacement after (admits_suffix suffix admits)
    have shape : opening :: (front ++ closing :: (middle ++ word :: back)) ++ after =
        opening :: (front ++ closing :: (middle ++ word :: (back ++ after))) := by simp
    rw [shape, conditional]
    refine yields_bind.mpr ⟨_, expect_cons opened, yields_bind.mpr ⟨_, condition, ?_⟩⟩
    refine yields_bind.mpr ⟨_, expect_cons closed, yields_bind.mpr ⟨_, chooses, ?_⟩⟩
    simp only [accept?_cons follows]
    exact yields_bind.mpr ⟨_, replaces, yields_pure.mpr ⟨rfl, rfl⟩⟩
  next unfollowed =>
    obtain ⟨rfl, rfl⟩ := yields_pure.mp continued
    refine ⟨opening :: (front ++ closing :: middle), by simp, fun after admits => ?_⟩
    have suffix : middle <:+ opening :: (front ++ closing :: middle) :=
      ⟨opening :: (front ++ [closing]), by simp⟩
    have behind := admits_suffix suffix admits
    obtain ⟨_, condition⟩ := tests (middle ++ after)
    obtain ⟨_, chooses⟩ := consequence after behind
    have shape : opening :: (front ++ closing :: middle) ++ after =
        opening :: (front ++ closing :: (middle ++ after)) := by simp
    rw [shape, conditional]
    refine yields_bind.mpr ⟨_, expect_cons opened, yields_bind.mpr ⟨_, condition, ?_⟩⟩
    refine yields_bind.mpr ⟨_, expect_cons closed, yields_bind.mpr ⟨_, chooses, ?_⟩⟩
    simp only [refused_behind (.inr rfl) behind unfollowed]
    exact yields_pure.mpr ⟨rfl, rfl⟩

/-- An expression takes its semicolon along, or there is none and none may be put there. -/
theorem terminated_local {used left : List Token}
    (begins : ∀ after, Margin.sealable.Admits used left after →
      Yields (statement other (used ++ after)) term (skip ";" after)) :
    Repeats .sealable (statement other) term (used ++ left) (skip ";" left) := by
  cases accepted : accept? ";" left with
  | none =>
    have kept : skip ";" left = left := by simp only [skip, accepted]
    rw [kept]
    refine ⟨used, rfl, fun after admits => ?_⟩
    have stopped : skip ";" after = after := by simp only [skip, refused_behind (.inl rfl) admits accepted]
    simpa only [stopped] using begins after admits
  | some taken =>
    obtain ⟨left, _⟩ := taken
    obtain ⟨mark, marked, rfl⟩ := accept?_eq_some_iff.mp accepted
    have dropped (after : List Token) : skip ";" (mark :: after) = after := by simp only [skip, accept?_cons marked]
    rw [dropped]
    refine ⟨used ++ [mark], by simp, fun after _ => ?_⟩
    have reread := begins (mark :: after) (admits_cons mark after left)
    rw [List.append_assoc, List.singleton_append]
    rwa [dropped] at reread

theorem statement_local (below : Local ending other tokens.length)
    (read : Yields (statement ending tokens) term rest) :
    Repeats .sealable (statement other) term tokens rest := by
  rw [statement] at read
  split at read
  next afterIf _ accepted =>
    obtain ⟨word, begins, rfl⟩ := accept?_eq_some_iff.mp accepted
    obtain ⟨⟨found, left, shorter⟩, entered, finished⟩ := yields_bind.mp read
    obtain ⟨rfl, rfl⟩ := yields_pure.mp finished
    obtain ⟨used, rfl, again⟩ := conditional_local below ⟨shorter, entered⟩
    refine ⟨word :: used, rfl, fun after admits => ?_⟩
    exact yields_statement_if begins (again after (admits_suffix (List.suffix_cons word used) admits))
  next unconditional =>
  split at read
  next afterBrace _ accepted =>
    obtain ⟨opening, opened, rfl⟩ := accept?_eq_some_iff.mp accepted
    obtain ⟨⟨body, left, shorter⟩, entered, finished⟩ := yields_bind.mp read
    obtain ⟨rfl, rfl⟩ := yields_pure.mp finished
    obtain ⟨used, rfl, again⟩ := below.blockBody (by simp) ⟨shorter, entered⟩
    refine ⟨opening :: used, rfl, fun after _ => ?_⟩
    obtain ⟨_, block⟩ := again after trivial
    rw [List.cons_append, statement, (replaces_cons opening _ _).refused unconditional]
    simp only [accept?_cons opened]
    exact yields_bind.mpr ⟨_, block, yields_pure.mpr ⟨rfl, rfl⟩⟩
  next unbraced =>
  split at read
  next afterDef _ accepted =>
    obtain ⟨word, begins, rfl⟩ := accept?_eq_some_iff.mp accepted
    obtain ⟨⟨found, left, shorter⟩, entered, finished⟩ := yields_bind.mp read
    obtain ⟨rfl, rfl⟩ := yields_pure.mp finished
    obtain ⟨used, rfl, again⟩ := definition_local below ⟨shorter, entered⟩
    refine ⟨word :: used, rfl, fun after _ => ?_⟩
    obtain ⟨_, defined⟩ := again after trivial
    rw [List.cons_append, statement, (replaces_cons word _ _).refused unconditional]
    simp only [(replaces_cons word _ _).refused unbraced, accept?_cons begins]
    exact yields_bind.mpr ⟨_, defined, yields_pure.mpr ⟨rfl, rfl⟩⟩
  next undefined =>
    obtain ⟨⟨found, left, shorter⟩, entered, finished⟩ := yields_bind.mp read
    obtain ⟨rfl, rfl⟩ := yields_pure.mp finished
    obtain ⟨used, rfl, again⟩ := expression_local below ⟨shorter, entered⟩
    refine terminated_local fun after admits => ?_
    have kept := replaces_behind shorter after
    obtain ⟨_, reread⟩ := again after admits
    rw [statement, kept.refused unconditional]
    simp only [kept.refused unbraced, kept.refused undefined]
    exact yields_bind.mpr ⟨_, reread, yields_pure.mpr ⟨rfl, rfl⟩⟩

private theorem blockBody_local {body : List Term} (below : Local ending other tokens.length)
    (read : Yields (blockBody ending tokens) body rest) :
    Repeats .enclosed (blockBody other) body tokens rest := by
  rw [blockBody] at read
  split at read
  next after _ accepted =>
    obtain ⟨closing, closed, rfl⟩ := accept?_eq_some_iff.mp accepted
    obtain ⟨rfl, rfl⟩ := yields_pure.mp read
    refine ⟨[closing], rfl, fun after _ => ?_⟩
    rw [List.singleton_append, blockBody, accept?_cons closed]
    exact yields_pure.mpr ⟨rfl, rfl⟩
  next unclosed =>
    split at read
    next => exact (not_yields_error read).elim
    next filled =>
      obtain ⟨⟨first, afterFirst, shorter⟩, begun, continued⟩ := yields_bind.mp read
      obtain ⟨⟨others, left, fewer⟩, entered, finished⟩ := yields_bind.mp continued
      obtain ⟨rfl, rfl⟩ := yields_pure.mp finished
      obtain ⟨front, rfl, head⟩ := statement_local below ⟨shorter, begun⟩
      obtain ⟨back, rfl, tail⟩ := below.blockBody shorter ⟨fewer, entered⟩
      refine ⟨front ++ back, by simp, fun after _ => ?_⟩
      have further := replaces_behind fewer after
      have kept := replaces_behind shorter (back ++ after)
      obtain ⟨_, statement⟩ := head (back ++ after) (Margin.admits_of_replaces further)
      obtain ⟨_, block⟩ := tail after trivial
      rw [List.append_assoc, blockBody, kept.refused unclosed]
      have some : (front ++ (back ++ after)).isEmpty = false := by
        simp [ne_nil_of_shorter shorter]
      simp only [some]
      exact yields_bind.mpr ⟨_, statement, yields_bind.mpr ⟨_, block, yields_pure.mpr ⟨rfl, rfl⟩⟩⟩

end

private theorem locality (ending other : Token) (size : Nat) : Local ending other size := by
  induction size with
  | zero => constructor <;> intros <;> contradiction
  | succ size ih =>
    have below {tokens : List Token} (fewer : tokens.length < size + 1) : Local ending other tokens.length :=
      ih.mono (by omega)
    constructor
    · exact fun fewer read => statement_local (below fewer) read
    · exact fun fewer read => blockBody_local (below fewer) read
    · exact fun fewer read => expression_local (below fewer) read
    · exact fun fewer read => assignment_local (below fewer) read
    · exact fun fewer read => operand_local (below fewer) read
    · exact fun fewer read => primary_local (below fewer) read
    · exact fun fewer read => argumentList_local (below fewer) read

/-- Programs in a row. The statements at the front of some tokens are read again in front of a program
that the last of them does not run into, and that program is read behind them. -/
theorem program_followed {ending : Token} (other : Token) {tokens rest : List Token} {body : List Term}
    (read : program ending tokens = .ok (body, rest)) :
    ∃ used, tokens = used ++ rest ∧ ∀ {after left : List Token} {others : List Term},
      Margin.sealable.Admits used rest after → program other after = .ok (others, left) →
      program other (used ++ after) = .ok (body ++ others, left) := by
  rw [program] at read
  split at read
  next begins =>
    obtain ⟨⟨first, afterFirst, shorter⟩, begun, continued⟩ := bind_eq_ok.mp read
    obtain ⟨⟨further, left⟩, entered, finished⟩ := bind_eq_ok.mp continued
    cases finished
    obtain ⟨front, rfl, head⟩ := (locality ending other _).statement (Nat.lt_succ_self _) ⟨shorter, begun⟩
    obtain ⟨back, rfl, tail⟩ := program_followed other entered
    refine ⟨front ++ back, by simp, fun {after _ others} admits followed => ?_⟩
    have behind : Margin.sealable.Admits front (back ++ rest) (back ++ after) := by
      cases back with
      | nil => simpa using admits
      | cons token back => exact admits_cons token _ _
    obtain ⟨_, statement⟩ := head (back ++ after) behind
    have rejoined := tail (admits_suffix (List.suffix_append front back) admits) followed
    have begins : atStatement (front ++ (back ++ after)) = true := by
      obtain ⟨token, others, rfl⟩ := List.exists_cons_of_ne_nil (ne_nil_of_shorter shorter)
      exact begins
    rw [List.append_assoc, program, if_pos begins]
    exact bind_eq_ok.mpr ⟨_, statement, bind_eq_ok.mpr ⟨_, rejoined, rfl⟩⟩
  next =>
    cases read
    exact ⟨[], rfl, fun _ followed => followed⟩
termination_by tokens.length
decreasing_by subst_vars; assumption

end Stackwise.Proofs.Lookahead
