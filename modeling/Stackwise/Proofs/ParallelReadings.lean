import Mathlib.Data.List.Forall2
import Stackwise.Proofs.GrammarCompleteness

/-! Two readings side by side. Their tokens are related one by one, and related tokens are of one
kind, so every production makes the same choices in both. The second reading may go on with a
closing brace where the tokens of the first one end, since no production takes a closing brace for a
part of what it has begun. What is left of the tokens, and the token that a failure points at, are
related as the tokens are. -/

namespace Stackwise.Proofs.ParallelReadings
open Grammar GrammarSoundness GrammarCompleteness

section
variable {first second : List Token}

theorem forall₂_kind (same : first.map Token.kind = second.map Token.kind) :
    List.Forall₂ (fun one two : Token => one.kind = two.kind) first second := by
  rw [← List.forall₂_eq_eq_eq, List.forall₂_map_left_iff, List.forall₂_map_right_iff] at same
  exact same

theorem map_kind_of_forall₂ (same : List.Forall₂ (fun one two : Token => one.kind = two.kind) first second) :
    first.map Token.kind = second.map Token.kind := by
  rw [← List.forall₂_eq_eq_eq, List.forall₂_map_left_iff, List.forall₂_map_right_iff]
  exact same

end

/-- How the tokens of two readings are related, and what stands where they end. -/
structure Pairing where
  Related : Token → Token → Prop
  kinds : ∀ {first second : Token}, Related first second → first.kind = second.kind
  tail : List Token
  ending : Token
  other : Token
  inert : ∀ token, tail.head? = some token → token.kind = .symbol "\x7d"
  endings : tail = [] → Related ending other

namespace Pairing

theorem inert_nil (token : Token) (first : ([] : List Token).head? = some token) : token.kind = .symbol "\x7d" := by
  cases first

/-- Tokens are related if they are of one kind, wherever they stand. -/
def ofKinds (tail : List Token) (ending other : Token)
    (inert : ∀ token, tail.head? = some token → token.kind = .symbol "\x7d")
    (endings : tail = [] → ending.kind = other.kind) : Pairing where
  Related first second := first.kind = second.kind
  kinds := id
  tail := tail
  ending := ending
  other := other
  inert := inert
  endings := endings

/-- The second list has the tokens that are related to those of the first one, and the tail. -/
def Mirrors (pair : Pairing) (first second : List Token) : Prop :=
  ∃ front, second = front ++ pair.tail ∧ List.Forall₂ pair.Related first front

/-- What the first reading finds is found by the second one too. Without a tail they also fail for
the same reason, at related tokens. -/
def Relates (pair : Pairing) {α β : Type} (Agree : α → β → Prop) (first : Except Mismatch α)
    (second : Except Mismatch β) : Prop :=
  match first with
  | .ok value => ∃ other, second = .ok other ∧ Agree value other
  | .error mismatch => pair.tail = [] → ∃ other, second = .error other ∧
      mismatch.expected = other.expected ∧ pair.Related mismatch.token other.token

def Parallel (pair : Pairing) {α : Type} {bound limit : Nat} (first : Except Mismatch (Parsed α bound))
    (second : Except Mismatch (Parsed α limit)) : Prop :=
  pair.Relates (fun one two => one.value = two.value ∧ pair.Mirrors one.rest two.rest) first second

section
variable {pair : Pairing} {first second : List Token}

theorem mirrors_cons {token : Token} {rest : List Token} (mirrors : pair.Mirrors (token :: rest) second) :
    ∃ twin others, second = twin :: others ∧ pair.Related token twin ∧ pair.Mirrors rest others := by
  obtain ⟨front, rfl, related⟩ := mirrors
  obtain ⟨twin, others, same, further, rfl⟩ := List.forall₂_cons_left_iff.mp related
  exact ⟨twin, others ++ pair.tail, rfl, same, others, rfl, further⟩

theorem mirrors_nil (mirrors : pair.Mirrors [] second) : second = pair.tail := by
  obtain ⟨front, rfl, related⟩ := mirrors
  rw [List.forall₂_nil_left_iff.mp related, List.nil_append]

/-- A token of a kind is accepted in both readings or in neither, closing braces apart. -/
theorem Mirrors.accepts (mirrors : pair.Mirrors first second) {kind : TokenKind} (unbraced : kind ≠ .symbol "\x7d") :
    acceptKind? kind first = none ∧ acceptKind? kind second = none ∨
      ∃ rest others, acceptKind? kind first = some rest ∧ acceptKind? kind second = some others ∧
        pair.Mirrors rest.1 others.1 := by
  cases first with
  | nil =>
    rw [mirrors_nil mirrors]
    refine .inl ⟨rfl, ?_⟩
    cases ended : pair.tail with
    | nil => rfl
    | cons token rest =>
      have brace := pair.inert token (by rw [ended]; rfl)
      exact if_neg fun same => unbraced (same.symm.trans brace)
  | cons token rest =>
    obtain ⟨twin, others, rfl, related, further⟩ := mirrors_cons mirrors
    have same := pair.kinds related
    by_cases found : token.kind = kind
    · exact .inr ⟨_, _, if_pos found, if_pos (same ▸ found), further⟩
    · exact .inl ⟨if_neg found, if_neg (same ▸ found)⟩

theorem relates_bind {α β γ δ : Type} {Agree : α → β → Prop} {Onward : γ → δ → Prop}
    {one : Except Mismatch α} {two : Except Mismatch β} {next : α → Except Mismatch γ}
    {further : β → Except Mismatch δ} (begun : pair.Relates Agree one two)
    (continued : ∀ value other, Agree value other → pair.Relates Onward (next value) (further other)) :
    pair.Relates Onward (one >>= next) (two >>= further) := by
  cases one with
  | ok value =>
    obtain ⟨other, rfl, agree⟩ := begun
    exact continued value other agree
  | error mismatch =>
    intro ended
    obtain ⟨other, rfl, related⟩ := begun ended
    exact ⟨other, rfl, related⟩

theorem relates_pure {α β : Type} {Agree : α → β → Prop} {value : α} {other : β} (agree : Agree value other) :
    pair.Relates Agree (pure value) (pure other) :=
  ⟨other, rfl, agree⟩

theorem relates_error {α β : Type} {Agree : α → β → Prop} {expected : Expected} {token twin : Token}
    (related : pair.tail = [] → pair.Related token twin) :
    pair.Relates Agree (.error ⟨expected, token⟩) (.error ⟨expected, twin⟩) :=
  fun ended => ⟨_, rfl, rfl, related ended⟩

theorem Relates.imp {α β : Type} {Agree Onward : α → β → Prop} {one : Except Mismatch α} {two : Except Mismatch β}
    (relates : pair.Relates Agree one two) (implies : ∀ value other, Agree value other → Onward value other) :
    pair.Relates Onward one two := by
  cases one with
  | ok value =>
    obtain ⟨other, rfl, agree⟩ := relates
    exact ⟨other, rfl, implies value other agree⟩
  | error mismatch => exact relates

theorem Mirrors.refused {α β : Type} {Agree : α → β → Prop} (mirrors : pair.Mirrors first second)
    (expected : Expected) :
    pair.Relates Agree (refuse pair.ending expected first) (refuse pair.other expected second) := by
  refine relates_error fun ended => ?_
  cases first with
  | nil =>
    rw [mirrors_nil mirrors, ended]
    exact pair.endings ended
  | cons token rest =>
    obtain ⟨twin, others, rfl, related, -⟩ := mirrors_cons mirrors
    exact related

theorem Mirrors.expected (mirrors : pair.Mirrors first second) {symbol : String} (unbraced : symbol ≠ "\x7d") :
    pair.Relates (fun rest others => pair.Mirrors rest.1 others.1) (expect pair.ending symbol first)
      (expect pair.other symbol second) := by
  rcases mirrors.accepts (show TokenKind.symbol symbol ≠ .symbol "\x7d" by simpa using unbraced) with
    ⟨none, absent⟩ | ⟨rest, others, found, accepted, further⟩
  · simp only [expect, accept?, none, absent]
    exact mirrors.refused _
  · simp only [expect, accept?, found, accepted]
    exact ⟨others, rfl, further⟩

theorem Mirrors.identified (mirrors : pair.Mirrors first second) :
    pair.Relates
      (fun one two => one.value.1 = two.value.1 ∧ pair.Related one.value.2 two.value.2 ∧
        pair.Mirrors one.rest two.rest)
      (identifier pair.ending first) (identifier pair.other second) := by
  cases first with
  | nil =>
    intro ended
    rw [mirrors_nil mirrors, ended]
    exact ⟨_, rfl, rfl, pair.endings ended⟩
  | cons token rest =>
    obtain ⟨twin, others, rfl, related, further⟩ := mirrors_cons mirrors
    have same := pair.kinds related
    obtain ⟨kind, offset, size⟩ := token
    obtain ⟨other, place, length⟩ := twin
    cases same
    cases kind with
    | name text => exact ⟨_, rfl, rfl, related, further⟩
    | symbol | number | returnWord | endOfInput => exact mirrors.refused _

/-- A link of a tier is accepted in both readings or in neither. -/
theorem Mirrors.links (mirrors : pair.Mirrors first second) (tier : Tier) :
    tier.acceptLink? first = none ∧ tier.acceptLink? second = none ∨
      ∃ link rest others, tier.acceptLink? first = some (link, rest) ∧
        tier.acceptLink? second = some (link, others) ∧ pair.Mirrors rest.1 others.1 := by
  cases first with
  | nil =>
    rw [mirrors_nil mirrors]
    refine .inl ⟨rfl, acceptLink?_eq_none fun token next => ?_⟩
    have brace := pair.inert token next
    refine ⟨by simp [Token.is, brace], fun lower _ => ?_⟩
    rw [brace]
    cases lower <;> rfl
  | cons token rest =>
    obtain ⟨twin, others, rfl, related, further⟩ := mirrors_cons mirrors
    have same := pair.kinds related
    cases linked : tier.link? token.kind with
    | none =>
      have other := same ▸ linked
      exact .inl ⟨by simp [Tier.acceptLink?, next?, linked], by simp [Tier.acceptLink?, next?, other]⟩
    | some link =>
      exact .inr ⟨link, _, _, acceptLink?_cons linked, acceptLink?_cons (same ▸ linked), further⟩

private theorem Mirrors.skipped (mirrors : pair.Mirrors first second) {symbol : String} (unbraced : symbol ≠ "\x7d") :
    pair.Mirrors (skip symbol first) (skip symbol second) := by
  rcases mirrors.accepts (show TokenKind.symbol symbol ≠ .symbol "\x7d" by simpa using unbraced) with
    ⟨none, absent⟩ | ⟨rest, others, found, accepted, further⟩
  · simpa only [skip, accept?, none, absent] using mirrors
  · simpa only [skip, accept?, found, accepted] using further

private theorem Mirrors.atExpression (mirrors : pair.Mirrors first second) :
    Grammar.atExpression first = Grammar.atExpression second := by
  cases first with
  | nil =>
    rw [mirrors_nil mirrors]
    cases ended : pair.tail with
    | nil => rfl
    | cons token rest =>
      have brace := pair.inert token (by rw [ended]; rfl)
      simp [Grammar.atExpression, Token.opensExpression, brace]
  | cons token rest =>
    obtain ⟨twin, others, rfl, related, -⟩ := mirrors_cons mirrors
    simp [Grammar.atExpression, Token.opensExpression, pair.kinds related]

theorem Mirrors.atStatement (mirrors : pair.Mirrors first second) :
    Grammar.atStatement first = Grammar.atStatement second := by
  cases first with
  | nil =>
    rw [mirrors_nil mirrors]
    cases ended : pair.tail with
    | nil => rfl
    | cons token rest =>
      have brace := pair.inert token (by rw [ended]; rfl)
      simp [Grammar.atStatement, Token.opensStatement, Token.opensExpression, Token.is, brace]
  | cons token rest =>
    obtain ⟨twin, others, rfl, related, -⟩ := mirrors_cons mirrors
    simp [Grammar.atStatement, Token.opensStatement, Token.opensExpression, Token.is, pair.kinds related]

end

/-- The productions are parallel on fewer tokens than `size`. -/
structure Together (pair : Pairing) (size : Nat) : Prop where
  statement : ∀ {first second : List Token}, first.length < size → pair.Mirrors first second →
    pair.Parallel (statement pair.ending first) (statement pair.other second)
  blockBody : ∀ {first second : List Token}, first.length < size → pair.Mirrors first second →
    pair.Parallel (blockBody pair.ending first) (blockBody pair.other second)
  expression : ∀ {first second : List Token}, first.length < size → pair.Mirrors first second →
    pair.Parallel (expression pair.ending first) (expression pair.other second)
  assignment : ∀ {first second : List Token}, first.length < size → pair.Mirrors first second →
    pair.Parallel (assignment pair.ending first) (assignment pair.other second)
  operand : ∀ {tier : Tier} {first second : List Token}, first.length < size → pair.Mirrors first second →
    pair.Parallel (operand pair.ending tier first) (operand pair.other tier second)
  primary : ∀ {first second : List Token}, first.length < size → pair.Mirrors first second →
    pair.Parallel (primary pair.ending first) (primary pair.other second)
  argumentList : ∀ {count : Nat} {first second : List Token}, first.length < size → pair.Mirrors first second →
    pair.Parallel (argumentList pair.ending count first) (argumentList pair.other count second)

section
variable {pair : Pairing} {first second : List Token}

theorem Together.mono {size limit : Nat} (together : pair.Together limit) (within : size ≤ limit) :
    pair.Together size where
  statement fewer := together.statement (by omega)
  blockBody fewer := together.blockBody (by omega)
  expression fewer := together.expression (by omega)
  assignment fewer := together.assignment (by omega)
  operand fewer := together.operand (by omega)
  primary fewer := together.primary (by omega)
  argumentList fewer := together.argumentList (by omega)

private theorem arguments_parallel (below : pair.Together (first.length + 1)) (mirrors : pair.Mirrors first second) :
    pair.Parallel (arguments pair.ending first) (arguments pair.other second) := by
  rw [arguments, arguments]
  rcases mirrors.accepts (show TokenKind.symbol ")" ≠ .symbol "\x7d" by decide) with
    ⟨none, absent⟩ | ⟨rest, others, found, accepted, further⟩
  · simp only [accept?, none, absent]
    exact below.argumentList (Nat.lt_succ_self _) mirrors
  · simp only [accept?, found, accepted]
    exact relates_pure ⟨rfl, further⟩

theorem checkCallable_relates {token twin : Token} (name : String) (related : pair.Related token twin) :
    pair.Relates (fun _ _ => True) (checkCallable name token) (checkCallable name twin) := by
  unfold checkCallable
  split
  · exact relates_error fun _ => related
  · exact relates_pure trivial

theorem primary_parallel (below : pair.Together first.length) (mirrors : pair.Mirrors first second) :
    pair.Parallel (primary pair.ending first) (primary pair.other second) := by
  rw [primary, primary]
  rcases mirrors.accepts (show TokenKind.symbol "(" ≠ .symbol "\x7d" by decide) with
    ⟨none, absent⟩ | ⟨rest, others, found, accepted, further⟩
  · simp only [accept?, none, absent]
    cases first with
    | nil =>
      intro ended
      rw [mirrors_nil mirrors, ended]
      exact ⟨_, rfl, rfl, pair.endings ended⟩
    | cons token rest =>
      obtain ⟨twin, others, rfl, related, further⟩ := mirrors_cons mirrors
      simp only [next?, ← pair.kinds related]
      cases token.kind with
      | name name =>
        rcases further.accepts (show TokenKind.symbol "(" ≠ .symbol "\x7d" by decide) with
          ⟨none, absent⟩ | ⟨left, right, found, accepted, behind⟩
        · simp only [none, absent]
          exact relates_pure ⟨rfl, further⟩
        · simp only [found, accepted]
          refine relates_bind (checkCallable_relates name related) fun _ _ _ => ?_
          have inside : left.1.length + 1 ≤ (token :: rest).length := Nat.le_succ_of_le left.2
          refine relates_bind (arguments_parallel (below.mono inside) behind) fun one two agree => ?_
          obtain ⟨same, remains⟩ := agree
          exact relates_pure ⟨congrArg (Term.invoke name) same, remains⟩
      | number value => exact relates_pure ⟨rfl, further⟩
      | symbol | returnWord | endOfInput => exact mirrors.refused _
  · simp only [accept?, found, accepted]
    refine relates_bind (below.expression rest.2 further) fun one two agree => ?_
    obtain ⟨same, left⟩ := agree
    refine relates_bind (left.expected (by decide)) fun rest others behind => ?_
    exact relates_pure ⟨same, behind⟩

private theorem unary_parallel (below : pair.Together first.length) (mirrors : pair.Mirrors first second) :
    pair.Parallel (unary pair.ending first) (unary pair.other second) := by
  rw [unary, unary]
  rcases mirrors.accepts (show TokenKind.symbol "+" ≠ .symbol "\x7d" by decide) with
    ⟨none, absent⟩ | ⟨rest, others, found, accepted, further⟩
  · simp only [accept?, none, absent]
    rcases mirrors.accepts (show TokenKind.symbol "-" ≠ .symbol "\x7d" by decide) with
      ⟨none, absent⟩ | ⟨rest, others, found, accepted, further⟩
    · simp only [none, absent]
      exact primary_parallel below mirrors
    · simp only [found, accepted]
      refine relates_bind (below.primary rest.2 further) fun one two agree => ?_
      obtain ⟨same, left⟩ := agree
      exact relates_pure ⟨congrArg _ same, left⟩
  · simp only [accept?, found, accepted]
    refine relates_bind (below.primary rest.2 further) fun one two agree => ?_
    obtain ⟨same, left⟩ := agree
    exact relates_pure ⟨same, left⟩

/-- The links behind one term are parallel: each takes an operand off the tokens. -/
theorem chainFrom_parallel (tier : Tier) {first second : List Token} (left : Term)
    (below : pair.Together (first.length + 1)) (mirrors : pair.Mirrors first second) :
    pair.Parallel (chainFrom pair.ending tier left first) (chainFrom pair.other tier left second) := by
  rw [chainFrom, chainFrom]
  rcases mirrors.links tier with ⟨none, absent⟩ | ⟨link, rest, others, found, accepted, further⟩
  · simp only [none, absent]
    exact relates_pure ⟨rfl, mirrors⟩
  · simp only [found, accepted]
    have fewer := rest.2
    refine relates_bind (below.operand (Nat.lt_succ_of_lt fewer) further) fun one two agree => ?_
    obtain ⟨same, behind⟩ := agree
    have shorter := one.shorter
    rw [same]
    refine relates_bind (chainFrom_parallel tier _ (below.mono (by omega)) behind) fun term other agree => ?_
    obtain ⟨equal, remains⟩ := agree
    exact relates_pure ⟨equal, remains⟩
termination_by first.length

theorem chain_parallel (tier : Tier) (below : pair.Together first.length)
    (here : pair.Parallel (operand pair.ending tier first) (operand pair.other tier second)) :
    pair.Parallel (chain pair.ending tier first) (chain pair.other tier second) := by
  rw [chain, chain]
  refine relates_bind here fun one two agree => ?_
  obtain ⟨same, left⟩ := agree
  obtain ⟨term, rest, shorter⟩ := one
  obtain ⟨other, others, less⟩ := two
  cases same
  refine relates_bind (chainFrom_parallel tier _ (below.mono shorter) left) fun term other agree => ?_
  obtain ⟨equal, remains⟩ := agree
  exact relates_pure ⟨equal, remains⟩

theorem operand_parallel (tier : Tier) (below : pair.Together first.length) (mirrors : pair.Mirrors first second) :
    pair.Parallel (operand pair.ending tier first) (operand pair.other tier second) := by
  induction level : tier.height using Nat.strongRecOn generalizing tier with
  | ind height ih =>
    cases tier with
    | product =>
      rw [operand, operand]
      exact unary_parallel below mirrors
    | sum =>
      rw [operand, operand]
      exact chain_parallel .product below (ih 1 (by subst level; decide) .product rfl)
    | comparison =>
      rw [operand, operand]
      exact chain_parallel .sum below (ih 2 (by subst level; decide) .sum rfl)
    | equality =>
      rw [operand, operand]
      exact chain_parallel .comparison below (ih 3 (by subst level; decide) .comparison rfl)

theorem assignment_parallel (below : pair.Together first.length) (mirrors : pair.Mirrors first second) :
    pair.Parallel (assignment pair.ending first) (assignment pair.other second) := by
  rw [assignment, assignment]
  refine relates_bind (chain_parallel .equality below (operand_parallel .equality below mirrors))
    fun one two agree => ?_
  obtain ⟨same, left⟩ := agree
  have shorter := one.shorter
  rcases left.accepts (show TokenKind.symbol "=" ≠ .symbol "\x7d" by decide) with
    ⟨none, absent⟩ | ⟨rest, others, found, accepted, further⟩
  · simp only [accept?, none, absent]
    exact relates_pure ⟨same, left⟩
  · simp only [accept?, found, accepted, ← same]
    have fewer := rest.2
    cases one.value with
    | var name =>
      rcases further.accepts (show TokenKind.symbol "\x7b" ≠ .symbol "\x7d" by decide) with
        ⟨none, absent⟩ | ⟨left, right, found, accepted, behind⟩
      · simp only [none, absent]
        refine relates_bind (below.assignment (by omega) further) fun value other agree => ?_
        obtain ⟨equal, remains⟩ := agree
        exact relates_pure ⟨congrArg _ equal, remains⟩
      · simp only [found, accepted]
        have less := left.2
        refine relates_bind (below.blockBody (by omega) behind) fun body other agree => ?_
        obtain ⟨equal, remains⟩ := agree
        exact relates_pure ⟨congrArg (fun body => Term.assign name (.block body)) equal, remains⟩
    | _ => exact mirrors.refused _

theorem expression_parallel (below : pair.Together first.length) (mirrors : pair.Mirrors first second) :
    pair.Parallel (expression pair.ending first) (expression pair.other second) := by
  rw [expression, expression]
  rcases mirrors.accepts (show TokenKind.returnWord ≠ .symbol "\x7d" by decide) with
    ⟨none, absent⟩ | ⟨rest, others, found, accepted, further⟩
  · simp only [none, absent]
    exact assignment_parallel below mirrors
  · simp only [found, accepted, ← further.atExpression]
    split
    · refine relates_bind (below.assignment rest.2 further) fun one two agree => ?_
      obtain ⟨same, left⟩ := agree
      exact relates_pure ⟨congrArg (fun value => Term.leave (some value)) same, left⟩
    · exact relates_pure ⟨rfl, further⟩

private theorem argumentList_parallel (count : Nat) (below : pair.Together first.length)
    (mirrors : pair.Mirrors first second) :
    pair.Parallel (argumentList pair.ending count first) (argumentList pair.other count second) := by
  rw [argumentList, argumentList]
  split
  · exact mirrors.refused _
  · refine relates_bind (assignment_parallel below mirrors) fun one two agree => ?_
    obtain ⟨same, left⟩ := agree
    have shorter := one.shorter
    rcases left.accepts (show TokenKind.symbol "," ≠ .symbol "\x7d" by decide) with
      ⟨none, absent⟩ | ⟨rest, others, found, accepted, further⟩
    · simp only [accept?, none, absent]
      refine relates_bind (left.expected (by decide)) fun rest others behind => ?_
      exact relates_pure ⟨congrArg (fun value => [value]) same, behind⟩
    · simp only [accept?, found, accepted]
      have fewer := rest.2
      refine relates_bind (below.argumentList (by omega) further) fun values more agree => ?_
      obtain ⟨equal, remains⟩ := agree
      exact relates_pure ⟨congrArg₂ List.cons same equal, remains⟩

private theorem parameterList_parallel (earlier : List String) {first second : List Token}
    (mirrors : pair.Mirrors first second) :
    pair.Parallel (parameterList pair.ending earlier first) (parameterList pair.other earlier second) := by
  rw [parameterList, parameterList]
  refine relates_bind mirrors.identified fun one two agree => ?_
  obtain ⟨same, related, left⟩ := agree
  have shorter := one.shorter
  simp only [← same]
  split
  · exact relates_error fun _ => related
  · split
    · exact relates_error fun _ => related
    · rcases left.accepts (show TokenKind.symbol "," ≠ .symbol "\x7d" by decide) with
        ⟨none, absent⟩ | ⟨rest, others, found, accepted, further⟩
      · simp only [accept?, none, absent]
        refine relates_bind (left.expected (by decide)) fun rest others behind => ?_
        exact relates_pure ⟨rfl, behind⟩
      · simp only [accept?, found, accepted]
        have fewer := rest.2
        refine relates_bind (parameterList_parallel _ further) fun names more agree => ?_
        obtain ⟨equal, remains⟩ := agree
        exact relates_pure ⟨congrArg _ equal, remains⟩
termination_by first.length

private theorem parameters_parallel (mirrors : pair.Mirrors first second) :
    pair.Parallel (parameters pair.ending first) (parameters pair.other second) := by
  unfold parameters
  rcases mirrors.accepts (show TokenKind.symbol ")" ≠ .symbol "\x7d" by decide) with
    ⟨none, absent⟩ | ⟨rest, others, found, accepted, further⟩
  · simp only [accept?, none, absent]
    exact parameterList_parallel [] mirrors
  · simp only [accept?, found, accepted]
    exact relates_pure ⟨rfl, further⟩

private theorem definition_parallel (below : pair.Together (first.length + 1)) (mirrors : pair.Mirrors first second) :
    pair.Parallel (definition pair.ending first) (definition pair.other second) := by
  rw [definition, definition]
  refine relates_bind mirrors.identified fun name twin agree => ?_
  obtain ⟨same, related, afterName⟩ := agree
  simp only [← same]
  refine relates_bind (checkCallable_relates _ related) fun _ _ _ => ?_
  refine relates_bind (afterName.expected (by decide)) fun opened others afterOpen => ?_
  refine relates_bind (parameters_parallel afterOpen) fun names listed agree => ?_
  obtain ⟨equal, afterNames⟩ := agree
  refine relates_bind (afterNames.expected (by decide)) fun braced others afterBrace => ?_
  have fewer := name.shorter
  have less := opened.2
  have shorter := names.shorter
  have within := braced.2
  refine relates_bind (below.blockBody (by omega) afterBrace) fun body other agree => ?_
  obtain ⟨alike, remains⟩ := agree
  exact relates_pure ⟨congrArg₂ (Term.function _) equal alike, remains⟩

private theorem conditional_parallel (below : pair.Together (first.length + 1)) (mirrors : pair.Mirrors first second) :
    pair.Parallel (conditional pair.ending first) (conditional pair.other second) := by
  rw [conditional, conditional]
  refine relates_bind (mirrors.expected (by decide)) fun opened others afterOpen => ?_
  have fewer := opened.2
  refine relates_bind (below.expression (by omega) afterOpen) fun test tested agree => ?_
  obtain ⟨same, afterTest⟩ := agree
  have shorter := test.shorter
  refine relates_bind (afterTest.expected (by decide)) fun closed others afterClose => ?_
  have less := closed.2
  refine relates_bind (below.statement (by omega) afterClose) fun accepted chosen agree => ?_
  obtain ⟨equal, left⟩ := agree
  have within := accepted.shorter
  rcases left.accepts (show TokenKind.symbol "else" ≠ .symbol "\x7d" by decide) with
    ⟨none, absent⟩ | ⟨rest, others, found, continued, further⟩
  · simp only [accept?, none, absent]
    exact relates_pure ⟨by rw [same, equal], left⟩
  · simp only [accept?, found, continued]
    have behind := rest.2
    refine relates_bind (below.statement (by omega) further) fun otherwise other agree => ?_
    obtain ⟨alike, remains⟩ := agree
    exact relates_pure ⟨by rw [same, equal, alike], remains⟩

theorem statement_parallel (below : pair.Together first.length) (mirrors : pair.Mirrors first second) :
    pair.Parallel (statement pair.ending first) (statement pair.other second) := by
  rw [statement, statement]
  rcases mirrors.accepts (show TokenKind.symbol "if" ≠ .symbol "\x7d" by decide) with
    ⟨none, absent⟩ | ⟨rest, others, found, accepted, further⟩
  · simp only [accept?, none, absent]
    rcases mirrors.accepts (show TokenKind.symbol "\x7b" ≠ .symbol "\x7d" by decide) with
      ⟨none, absent⟩ | ⟨rest, others, found, accepted, further⟩
    · simp only [none, absent]
      rcases mirrors.accepts (show TokenKind.symbol "def" ≠ .symbol "\x7d" by decide) with
        ⟨none, absent⟩ | ⟨rest, others, found, accepted, further⟩
      · simp only [none, absent]
        refine relates_bind (expression_parallel below mirrors) fun one two agree => ?_
        obtain ⟨same, left⟩ := agree
        exact relates_pure ⟨same, left.skipped (by decide)⟩
      · simp only [found, accepted]
        refine relates_bind (definition_parallel (below.mono rest.2) further) fun one two agree => ?_
        exact relates_pure agree
    · simp only [found, accepted]
      refine relates_bind (below.blockBody rest.2 further) fun one two agree => ?_
      obtain ⟨same, left⟩ := agree
      exact relates_pure ⟨congrArg _ same, left⟩
  · simp only [accept?, found, accepted]
    refine relates_bind (conditional_parallel (below.mono rest.2) further) fun one two agree => ?_
    exact relates_pure agree

private theorem blockBody_parallel (below : pair.Together first.length) (mirrors : pair.Mirrors first second) :
    pair.Parallel (blockBody pair.ending first) (blockBody pair.other second) := by
  rw [blockBody, blockBody]
  cases first with
  | nil =>
    intro ended
    rw [mirrors_nil mirrors, ended]
    exact ⟨_, rfl, rfl, pair.endings ended⟩
  | cons token rest =>
    obtain ⟨twin, others, rfl, related, further⟩ := mirrors_cons mirrors
    have same := pair.kinds related
    by_cases closing : token.kind = .symbol "\x7d"
    · simp only [accept?, acceptKind?, if_pos closing, if_pos (same ▸ closing)]
      exact relates_pure ⟨rfl, further⟩
    · simp only [accept?, acceptKind?, if_neg closing, if_neg (same ▸ closing)]
      refine relates_bind (statement_parallel below mirrors) fun one two agree => ?_
      obtain ⟨equal, left⟩ := agree
      refine relates_bind (below.blockBody one.shorter left) fun body other agree => ?_
      obtain ⟨alike, remains⟩ := agree
      exact relates_pure ⟨congrArg₂ List.cons equal alike, remains⟩

theorem together (pair : Pairing) (size : Nat) : pair.Together size := by
  induction size with
  | zero => constructor <;> intros <;> contradiction
  | succ size ih =>
    have below {tokens : List Token} (fewer : tokens.length < size + 1) : pair.Together tokens.length :=
      ih.mono (by omega)
    constructor
    · exact fun fewer mirrors => statement_parallel (below fewer) mirrors
    · exact fun fewer mirrors => blockBody_parallel (below fewer) mirrors
    · exact fun fewer mirrors => expression_parallel (below fewer) mirrors
    · exact fun fewer mirrors => assignment_parallel (below fewer) mirrors
    · exact fun fewer mirrors => operand_parallel _ (below fewer) mirrors
    · exact fun fewer mirrors => primary_parallel (below fewer) mirrors
    · exact fun fewer mirrors => argumentList_parallel _ (below fewer) mirrors

/-- The statements of a program are read alike, and reading stops at the same place. -/
theorem program_parallel {first second : List Token} (mirrors : pair.Mirrors first second) :
    pair.Relates (fun one two => one.1 = two.1 ∧ pair.Mirrors one.2 two.2) (program pair.ending first)
      (program pair.other second) := by
  rw [program, program, ← mirrors.atStatement]
  split
  · refine relates_bind ((together pair _).statement (Nat.lt_succ_self _) mirrors) fun one two agree => ?_
    obtain ⟨same, left⟩ := agree
    have shorter := one.shorter
    refine relates_bind (program_parallel left) fun others more agree => ?_
    obtain ⟨equal, remains⟩ := agree
    exact relates_pure ⟨congrArg₂ List.cons same equal, remains⟩
  · exact relates_pure ⟨rfl, mirrors⟩
termination_by first.length

end

end Pairing

end Stackwise.Proofs.ParallelReadings
