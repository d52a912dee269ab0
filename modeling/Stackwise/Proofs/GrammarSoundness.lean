import Mathlib.Logic.Function.Basic
import Stackwise.Grammar.Program
import Stackwise.Proofs.Derivations

/-! What the productions read is derived by the grammar. The productions call each other on
fewer tokens, or on the same tokens one level further in, so soundness goes by induction on
the number of tokens and, for one number, from the innermost production outwards. -/

namespace Stackwise.Proofs.GrammarSoundness
open Grammar Derivations

def Yields {α : Type} {bound : Nat} (result : Except Mismatch (Parsed α bound)) (value : α)
    (rest : List Token) : Prop :=
  ∃ shorter, result = .ok ⟨value, rest, shorter⟩

def Consumes (tokens rest : List Token) (phrase : Phrase) : Prop :=
  ∃ used, tokens = used ++ rest ∧ Derives false used phrase

def Closes (symbol : String) (tokens rest : List Token) (phrase : Phrase) : Prop :=
  ∃ used closing, tokens = used ++ closing :: rest ∧ closing.is symbol ∧ Derives false used phrase

theorem bind_eq_ok {ε α β : Type} {first : Except ε α} {next : α → Except ε β} {result : β} :
    (first >>= next) = .ok result ↔ ∃ value, first = .ok value ∧ next value = .ok result := by
  cases first with
  | error fault => simp [bind, Except.bind]
  | ok value => simp [bind, Except.bind]

theorem yields_bind {α β : Type} {limit : Nat} {first : Except Mismatch α}
    {next : α → Except Mismatch (Parsed β limit)} {value : β} {rest : List Token} :
    Yields (first >>= next) value rest ↔ ∃ middle, first = .ok middle ∧ Yields (next middle) value rest := by
  simp only [Yields, bind_eq_ok]
  constructor
  · rintro ⟨shorter, middle, begun, ended⟩
    exact ⟨middle, begun, shorter, ended⟩
  · rintro ⟨middle, begun, shorter, ended⟩
    exact ⟨shorter, middle, begun, ended⟩

theorem yields_pure {α : Type} {bound : Nat} {parsed : Parsed α bound} {value : α}
    {rest : List Token} :
    Yields (pure parsed) value rest ↔ parsed.value = value ∧ parsed.rest = rest := by
  obtain ⟨found, left, fewer⟩ := parsed
  constructor
  · rintro ⟨shorter, same⟩
    cases same
    exact ⟨rfl, rfl⟩
  · rintro ⟨rfl, rfl⟩
    exact ⟨fewer, rfl⟩

theorem not_yields_error {α : Type} {bound : Nat} {mismatch : Mismatch} {value : α}
    {rest : List Token} :
    ¬ Yields (.error mismatch : Except Mismatch (Parsed α bound)) value rest := by
  rintro ⟨_, impossible⟩
  cases impossible

theorem accept?_eq_some_iff {symbol : String} {tokens rest : List Token}
    {shorter : rest.length < tokens.length} :
    accept? symbol tokens = some ⟨rest, shorter⟩ ↔
      ∃ token : Token, token.is symbol ∧ tokens = token :: rest := by
  simp [accept?, acceptKind?_eq_some_iff, Token.is]

theorem expect_eq_ok_iff {ending : Token} {symbol : String} {tokens rest : List Token}
    {shorter : rest.length < tokens.length} :
    expect ending symbol tokens = .ok ⟨rest, shorter⟩ ↔
      ∃ token : Token, token.is symbol ∧ tokens = token :: rest := by
  rw [← @accept?_eq_some_iff symbol tokens rest shorter]
  unfold expect
  cases accept? symbol tokens with
  | some found => simp
  | none => simp [refuse]

private theorem skip_cases (symbol : String) (tokens : List Token) :
    skip symbol tokens = tokens ∨ ∃ token : Token, token.is symbol ∧ tokens = token :: skip symbol tokens := by
  unfold skip
  split
  next rest accepted => exact .inr (accept?_eq_some_iff.mp accepted)
  next => exact .inl rfl

theorem identifier_eq_ok_iff {ending : Token} {tokens rest : List Token} {name : String}
    {token : Token} {shorter : rest.length < tokens.length} :
    identifier ending tokens = .ok ⟨(name, token), rest, shorter⟩ ↔
      token.kind = .name name ∧ tokens = token :: rest := by
  cases tokens with
  | nil => simp [identifier, next?, refuse]
  | cons head tail =>
    obtain ⟨kind, offset, size⟩ := head
    obtain ⟨kind', offset', size'⟩ := token
    cases kind <;> simp [identifier, next?, refuse] <;> grind

def around : Tier → Term → Phrase
  | .equality => .equality
  | .comparison => .relational
  | .sum => .sum
  | .product => .product

def inside : Tier → Term → Phrase
  | .equality => .relational
  | .comparison => .sum
  | .sum => .product
  | .product => .unary

private theorem derives_around {tier : Tier} {tokens : List Token} {term : Term} {strict : Bool}
    (derived : Derives strict tokens (inside tier term)) : Derives strict tokens (around tier term) := by
  cases tier with
  | equality => exact .relational derived
  | comparison => exact .sum derived
  | sum => exact .product derived
  | product => exact .unary derived

/-- Soundness of the productions that are called on fewer tokens than `size`. -/
structure Sound (ending : Token) (size : Nat) : Prop where
  statement : ∀ {tokens rest : List Token} {term : Term}, tokens.length < size →
    Yields (statement ending tokens) term rest → Consumes tokens rest (.statement term)
  blockBody : ∀ {tokens rest : List Token} {body : List Term}, tokens.length < size →
    Yields (blockBody ending tokens) body rest → Closes "\x7d" tokens rest (.program body)
  expression : ∀ {tokens rest : List Token} {term : Term}, tokens.length < size →
    Yields (expression ending tokens) term rest → Consumes tokens rest (.expression term)
  assignment : ∀ {tokens rest : List Token} {term : Term}, tokens.length < size →
    Yields (assignment ending tokens) term rest → Consumes tokens rest (.assignment term)
  operand : ∀ {tier : Tier} {tokens rest : List Token} {term : Term}, tokens.length < size →
    Yields (operand ending tier tokens) term rest → Consumes tokens rest (inside tier term)
  primary : ∀ {tokens rest : List Token} {term : Term}, tokens.length < size →
    Yields (primary ending tokens) term rest → Consumes tokens rest (.primary term)
  argumentList : ∀ {count : Nat} {tokens rest : List Token} {values : List Term},
    tokens.length < size → count ≤ 6 → Yields (argumentList ending count tokens) values rest →
    values ≠ [] ∧ count + values.length ≤ 6 ∧ Closes ")" tokens rest (.arguments values)

variable {ending : Token}

theorem Sound.mono {size limit : Nat} (sound : Sound ending limit) (within : size ≤ limit) :
    Sound ending size where
  statement fewer := sound.statement (by omega)
  blockBody fewer := sound.blockBody (by omega)
  expression fewer := sound.expression (by omega)
  assignment fewer := sound.assignment (by omega)
  operand fewer := sound.operand (by omega)
  primary fewer := sound.primary (by omega)
  argumentList fewer := sound.argumentList (by omega)

private theorem arguments_sound {tokens rest : List Token} {values : List Term}
    (below : Sound ending (tokens.length + 1))
    (read : Yields (arguments ending tokens) values rest) :
    values.length ≤ 6 ∧ Closes ")" tokens rest (.arguments values) := by
  rw [arguments] at read
  split at read
  next closing _ accepted =>
    obtain ⟨token, closes, rfl⟩ := accept?_eq_some_iff.mp accepted
    obtain ⟨rfl, rfl⟩ := yields_pure.mp read
    exact ⟨by simp, [], token, rfl, closes, .noArgument⟩
  next =>
    obtain ⟨_, few, closed⟩ := below.argumentList (Nat.lt_succ_self _) (Nat.zero_le 6) read
    exact ⟨by omega, closed⟩

theorem invoke_eq_call (name : String) (values : List Term) :
    Term.invoke name values = .call name (numbered values) := by
  have same : values.zipIdx.map (fun entry => (entry.2, entry.1)) = numbered values := by
    apply List.ext_getElem
    · simp [numbered]
    · intro index _ _
      simp [numbered]
  simp [Term.invoke, ← same]

theorem primary_sound {tokens rest : List Token} {term : Term} (below : Sound ending tokens.length)
    (read : Yields (primary ending tokens) term rest) : Consumes tokens rest (.primary term) := by
  rw [primary] at read
  split at read
  next after _ accepted =>
    obtain ⟨opening, opened, rfl⟩ := accept?_eq_some_iff.mp accepted
    obtain ⟨⟨inner, afterInner, shorter⟩, begun, continued⟩ := yields_bind.mp read
    obtain ⟨⟨left, fewer⟩, expected, finished⟩ := yields_bind.mp continued
    obtain ⟨closing, closed, rfl⟩ := expect_eq_ok_iff.mp expected
    obtain ⟨rfl, rfl⟩ := yields_pure.mp finished
    obtain ⟨used, rfl, derived⟩ := below.expression (by simp) ⟨shorter, begun⟩
    exact ⟨opening :: (used ++ [closing]), by simp, .group opened derived closed⟩
  next =>
    cases tokens with
    | nil => exact (not_yields_error read).elim
    | cons token after =>
      simp only [next?] at read
      split at read
      next name named =>
        split at read
        next afterOpen _ accepted =>
          obtain ⟨opening, opened, rfl⟩ := accept?_eq_some_iff.mp accepted
          obtain ⟨_, checked, continued⟩ := yields_bind.mp read
          obtain ⟨⟨values, left, fewer⟩, begun, finished⟩ := yields_bind.mp continued
          obtain ⟨rfl, rfl⟩ := yields_pure.mp finished
          have callable : Assembly.isReserved name = false := by
            simpa [checkCallable] using checked
          obtain ⟨few, used, closing, rfl, closed, derived⟩ :=
            arguments_sound (below.mono (by simp)) ⟨fewer, begun⟩
          refine ⟨token :: opening :: (used ++ [closing]), by simp, ?_⟩
          rw [invoke_eq_call]
          exact .call named callable opened derived few closed
        next =>
          obtain ⟨rfl, rfl⟩ := yields_pure.mp read
          exact ⟨[token], rfl, .reference named⟩
      next value numeral =>
        obtain ⟨rfl, rfl⟩ := yields_pure.mp read
        exact ⟨[token], rfl, .number numeral⟩
      next => exact (not_yields_error read).elim

private theorem unary_sound {tokens rest : List Token} {term : Term} (below : Sound ending tokens.length)
    (read : Yields (unary ending tokens) term rest) : Consumes tokens rest (.unary term) := by
  rw [unary] at read
  split at read
  next after _ accepted =>
    obtain ⟨sign, positive, rfl⟩ := accept?_eq_some_iff.mp accepted
    obtain ⟨⟨inner, left, shorter⟩, begun, finished⟩ := yields_bind.mp read
    obtain ⟨rfl, rfl⟩ := yields_pure.mp finished
    obtain ⟨used, rfl, derived⟩ := below.primary (by simp) ⟨shorter, begun⟩
    exact ⟨sign :: used, rfl, .positive positive derived⟩
  next =>
    split at read
    next after _ accepted =>
      obtain ⟨sign, negative, rfl⟩ := accept?_eq_some_iff.mp accepted
      obtain ⟨⟨inner, left, shorter⟩, begun, finished⟩ := yields_bind.mp read
      obtain ⟨rfl, rfl⟩ := yields_pure.mp finished
      obtain ⟨used, rfl, derived⟩ := below.primary (by simp) ⟨shorter, begun⟩
      exact ⟨sign :: used, rfl, .negative negative derived⟩
    next =>
      obtain ⟨used, same, derived⟩ := primary_sound below read
      exact ⟨used, same, .primary derived⟩

theorem acceptLink?_eq_some_iff {tier : Tier} {tokens rest : List Token} {link : Link}
    {shorter : rest.length < tokens.length} :
    tier.acceptLink? tokens = some (link, ⟨rest, shorter⟩) ↔
      ∃ token, tier.link? token.kind = some link ∧ tokens = token :: rest := by
  cases tokens with
  | nil => simp [Tier.acceptLink?, next?]
  | cons head tail =>
    cases linked : tier.link? head.kind with
    | none =>
      simp only [Tier.acceptLink?, next?]
      grind
    | some found =>
      simp only [Tier.acceptLink?, next?]
      grind

/-- A link between a chain and an operand of its tier makes a longer chain. -/
theorem derives_join {strict : Bool} {tier : Tier} {token : Token} {link : Link}
    {front back : List Token} {left right : Term} (linked : tier.link? token.kind = some link)
    (first : Derives strict front (around tier left))
    (second : Derives strict back (inside tier right)) :
    Derives strict (front ++ token :: back) (around tier (link.join left right)) := by
  have reads {symbol : String} (same : token.kind = .symbol symbol) : token.is symbol := by
    simp [Token.is, same]
  unfold Tier.link? at linked
  split at linked <;> cases linked
  next same => exact .equal (reads same) first second
  next same => exact .unequal (reads same) first second
  next same => exact .less (reads same) first second
  next same => exact .atMost (reads same) first second
  next same => exact .greater (reads same) first second
  next same => exact .atLeast (reads same) first second
  next same => exact .plus (reads same) first second
  next same => exact .minus (reads same) first second
  next same => exact .times (reads same) first second
  next same => exact .over (reads same) first second

/-- The links behind a chain extend it. -/
theorem chainFrom_sound {tier : Tier} {tokens rest front : List Token} {left term : Term}
    (below : Sound ending (tokens.length + 1)) (derived : Derives false front (around tier left))
    (read : Yields (chainFrom ending tier left tokens) term rest) :
    ∃ used, tokens = used ++ rest ∧ Derives false (front ++ used) (around tier term) := by
  rw [chainFrom] at read
  split at read
  next =>
    obtain ⟨rfl, rfl⟩ := yields_pure.mp read
    exact ⟨[], rfl, by simpa using derived⟩
  next link after _ accepted =>
    obtain ⟨token, linked, rfl⟩ := acceptLink?_eq_some_iff.mp accepted
    obtain ⟨⟨right, afterRight, shorter⟩, begun, continued⟩ := yields_bind.mp read
    obtain ⟨⟨found, remaining, fewer⟩, ended, finished⟩ := yields_bind.mp continued
    obtain ⟨rfl, rfl⟩ := yields_pure.mp finished
    obtain ⟨operand, rfl, second⟩ := below.operand (by simp only [List.length_cons]; omega) ⟨shorter, begun⟩
    have joined := derives_join linked derived second
    obtain ⟨used, rfl, extended⟩ :=
      chainFrom_sound (below.mono (by simp; omega)) joined ⟨fewer, ended⟩
    exact ⟨token :: (operand ++ used), by simp, by simpa using extended⟩
termination_by tokens.length
decreasing_by
  subst_vars
  simp only [List.length_append, List.length_cons]
  omega

theorem chain_sound {tier : Tier} {tokens rest : List Token} {term : Term}
    (below : Sound ending tokens.length)
    (here : ∀ {left : List Token} {found : Term}, Yields (operand ending tier tokens) found left →
      Consumes tokens left (inside tier found))
    (read : Yields (chain ending tier tokens) term rest) : Consumes tokens rest (around tier term) := by
  rw [chain] at read
  obtain ⟨⟨first, afterFirst, shorter⟩, begun, continued⟩ := yields_bind.mp read
  obtain ⟨⟨found, left, fewer⟩, ended, finished⟩ := yields_bind.mp continued
  obtain ⟨rfl, rfl⟩ := yields_pure.mp finished
  obtain ⟨operand, rfl, derived⟩ := here ⟨shorter, begun⟩
  obtain ⟨used, rfl, extended⟩ :=
    chainFrom_sound (below.mono shorter) (derives_around derived) ⟨fewer, ended⟩
  exact ⟨operand ++ used, by simp, extended⟩

theorem operand_sound {tier : Tier} {tokens rest : List Token} {term : Term}
    (below : Sound ending tokens.length) (read : Yields (operand ending tier tokens) term rest) :
    Consumes tokens rest (inside tier term) := by
  induction level : tier.height using Nat.strongRecOn generalizing tier rest term with
  | ind height ih =>
    cases tier with
    | product => rw [operand] at read; exact unary_sound below read
    | sum => rw [operand] at read; exact chain_sound below (ih 1 (by subst level; decide) · rfl) read
    | comparison => rw [operand] at read; exact chain_sound below (ih 2 (by subst level; decide) · rfl) read
    | equality => rw [operand] at read; exact chain_sound below (ih 3 (by subst level; decide) · rfl) read

theorem assignment_sound {tokens rest : List Token} {term : Term} (below : Sound ending tokens.length)
    (read : Yields (assignment ending tokens) term rest) : Consumes tokens rest (.assignment term) := by
  rw [assignment] at read
  obtain ⟨⟨target, afterTarget, shorter⟩, begun, continued⟩ := yields_bind.mp read
  obtain ⟨front, rfl, derived⟩ : Consumes tokens afterTarget (.equality target) :=
    chain_sound below (operand_sound below) ⟨shorter, begun⟩
  simp only at continued
  split at continued
  next =>
    obtain ⟨rfl, rfl⟩ := yields_pure.mp continued
    exact ⟨front, rfl, .equality derived⟩
  next after _ accepted =>
    obtain ⟨mark, equals, rfl⟩ := accept?_eq_some_iff.mp accepted
    split at continued
    next name =>
      split at continued
      next afterBrace _ opens =>
        obtain ⟨opening, opened, rfl⟩ := accept?_eq_some_iff.mp opens
        obtain ⟨⟨body, left, fewer⟩, entered, finished⟩ := yields_bind.mp continued
        obtain ⟨rfl, rfl⟩ := yields_pure.mp finished
        obtain ⟨used, closing, rfl, closed, inner⟩ :=
          below.blockBody (by simp; omega) ⟨fewer, entered⟩
        exact ⟨front ++ mark :: opening :: (used ++ [closing]), by simp,
          .assignBlock derived equals (.braces opened inner closed)⟩
      next =>
        obtain ⟨⟨value, left, fewer⟩, entered, finished⟩ := yields_bind.mp continued
        obtain ⟨rfl, rfl⟩ := yields_pure.mp finished
        obtain ⟨used, rfl, inner⟩ := below.assignment (by simp; omega) ⟨fewer, entered⟩
        exact ⟨front ++ mark :: used, by simp, .assign derived equals inner⟩
    next => exact (not_yields_error continued).elim

theorem expression_sound {tokens rest : List Token} {term : Term} (below : Sound ending tokens.length)
    (read : Yields (expression ending tokens) term rest) : Consumes tokens rest (.expression term) := by
  rw [expression] at read
  split at read
  next after _ accepted =>
    obtain ⟨word, begins, same⟩ := acceptKind?_eq_some_iff.mp accepted
    obtain rfl : tokens = word :: after := same
    split at read
    next =>
      obtain ⟨⟨value, left, fewer⟩, entered, finished⟩ := yields_bind.mp read
      obtain ⟨rfl, rfl⟩ := yields_pure.mp finished
      obtain ⟨used, same, inner⟩ := below.assignment (by simp) ⟨fewer, entered⟩
      exact ⟨word :: used, by simp [same], .leaveWith begins inner⟩
    next =>
      obtain ⟨rfl, rfl⟩ := yields_pure.mp read
      exact ⟨[word], rfl, .leave begins⟩
  next =>
    obtain ⟨used, same, inner⟩ := assignment_sound below read
    exact ⟨used, same, .assignment inner⟩

private theorem argumentList_sound {count : Nat} {tokens rest : List Token} {values : List Term}
    (below : Sound ending tokens.length) (within : count ≤ 6)
    (read : Yields (argumentList ending count tokens) values rest) :
    values ≠ [] ∧ count + values.length ≤ 6 ∧ Closes ")" tokens rest (.arguments values) := by
  rw [argumentList] at read
  split at read
  next => exact (not_yields_error read).elim
  next free =>
    have room : count < 6 := Nat.lt_of_le_of_ne within free
    obtain ⟨⟨value, afterValue, shorter⟩, begun, continued⟩ := yields_bind.mp read
    obtain ⟨front, rfl, derived⟩ := assignment_sound below ⟨shorter, begun⟩
    simp only at continued
    split at continued
    next after _ accepted =>
      obtain ⟨comma, separated, rfl⟩ := accept?_eq_some_iff.mp accepted
      obtain ⟨⟨others, left, fewer⟩, entered, finished⟩ := yields_bind.mp continued
      obtain ⟨rfl, rfl⟩ := yields_pure.mp finished
      obtain ⟨nonempty, few, used, closing, rfl, closed, inner⟩ :=
        below.argumentList (by simp; omega) room ⟨fewer, entered⟩
      obtain ⟨next, further, rfl⟩ := List.exists_cons_of_ne_nil nonempty
      refine ⟨by simp, by simp at few ⊢; omega, front ++ comma :: used, closing, by simp, closed, ?_⟩
      exact .moreArguments derived separated inner
    next =>
      obtain ⟨⟨left, fewer⟩, expected, finished⟩ := yields_bind.mp continued
      obtain ⟨closing, closed, rfl⟩ := expect_eq_ok_iff.mp expected
      obtain ⟨rfl, rfl⟩ := yields_pure.mp finished
      exact ⟨by simp, by simp; omega, front, closing, rfl, closed, .lastArgument derived⟩

private theorem parameterList_sound {earlier : List String} {tokens rest : List Token} {names : List String}
    (within : earlier.length ≤ 6) (distinct : earlier.Nodup)
    (read : Yields (parameterList ending earlier tokens) names rest) :
    (earlier ++ names).length ≤ 6 ∧ (earlier ++ names).Nodup ∧
      ∃ used closing, tokens = used ++ closing :: rest ∧ closing.is ")" ∧ Names used names := by
  rw [parameterList] at read
  obtain ⟨⟨⟨name, token⟩, afterName, shorter⟩, begun, continued⟩ := yields_bind.mp read
  obtain ⟨named, rfl⟩ := identifier_eq_ok_iff.mp begun
  simp only at continued
  split at continued
  next => exact (not_yields_error continued).elim
  next room =>
    split at continued
    next => exact (not_yields_error continued).elim
    next fresh =>
      have longer : (earlier ++ [name]).length ≤ 6 := by
        simp only [maxArguments] at room
        simp; omega
      have still : (earlier ++ [name]).Nodup := by
        rw [List.nodup_append]
        refine ⟨distinct, by simp, ?_⟩
        rintro one member other found rfl
        exact fresh (by simpa [List.mem_singleton.mp found] using member)
      split at continued
      next after _ accepted =>
        obtain ⟨comma, separated, rfl⟩ := accept?_eq_some_iff.mp accepted
        obtain ⟨⟨others, left, fewer⟩, entered, finished⟩ := yields_bind.mp continued
        obtain ⟨rfl, rfl⟩ := yields_pure.mp finished
        obtain ⟨few, apart, used, closing, rfl, closed, listed⟩ :=
          parameterList_sound longer still ⟨fewer, entered⟩
        exact ⟨by simpa using few, by simpa using apart, token :: comma :: used, closing, by simp,
          closed, .more named separated listed⟩
      next =>
        obtain ⟨⟨left, fewer⟩, expected, finished⟩ := yields_bind.mp continued
        obtain ⟨closing, closed, rfl⟩ := expect_eq_ok_iff.mp expected
        obtain ⟨rfl, rfl⟩ := yields_pure.mp finished
        exact ⟨longer, still, [token], closing, rfl, closed, .last named⟩
termination_by tokens.length
decreasing_by
  subst_vars
  simp only [List.length_cons]
  omega

theorem parameters_sound {tokens rest : List Token} {names : List String}
    (read : Yields (parameters ending tokens) names rest) :
    names.length ≤ 6 ∧ names.Nodup ∧
      ∃ used closing, tokens = used ++ closing :: rest ∧ closing.is ")" ∧ Parameters used names := by
  unfold parameters at read
  split at read
  next after _ accepted =>
    obtain ⟨closing, closed, rfl⟩ := accept?_eq_some_iff.mp accepted
    obtain ⟨rfl, rfl⟩ := yields_pure.mp read
    exact ⟨by simp, by simp, [], closing, rfl, closed, .inl ⟨rfl, rfl⟩⟩
  next =>
    obtain ⟨few, distinct, used, closing, same, closed, listed⟩ :=
      parameterList_sound (by simp) (by simp) read
    exact ⟨by simpa using few, by simpa using distinct, used, closing, same, closed, .inr listed⟩

private theorem definition_sound {tokens rest : List Token} {term : Term} {word : Token}
    (begins : word.is "def") (below : Sound ending (tokens.length + 1))
    (read : Yields (definition ending tokens) term rest) :
    Consumes (word :: tokens) rest (.statement term) := by
  rw [definition] at read
  obtain ⟨⟨⟨name, token⟩, afterName, shorter⟩, begun, continued⟩ := yields_bind.mp read
  obtain ⟨named, rfl⟩ := identifier_eq_ok_iff.mp begun
  obtain ⟨_, checked, continued⟩ := yields_bind.mp continued
  have callable : Assembly.isReserved name = false := by simpa [checkCallable] using checked
  obtain ⟨⟨afterOpen, _⟩, expected, continued⟩ := yields_bind.mp continued
  obtain ⟨opening, opened, rfl⟩ := expect_eq_ok_iff.mp expected
  obtain ⟨⟨names, afterNames, fewer⟩, listed, continued⟩ := yields_bind.mp continued
  obtain ⟨⟨afterBrace, _⟩, expected, continued⟩ := yields_bind.mp continued
  obtain ⟨brace, braced, rfl⟩ := expect_eq_ok_iff.mp expected
  obtain ⟨⟨body, left, less⟩, entered, finished⟩ := yields_bind.mp continued
  obtain ⟨rfl, rfl⟩ := yields_pure.mp finished
  obtain ⟨few, distinct, used, closing, rfl, closed, parametric⟩ :=
    parameters_sound ⟨fewer, listed⟩
  obtain ⟨inner, final, rfl, ended, derived⟩ := below.blockBody (by simp; omega) ⟨less, entered⟩
  refine ⟨word :: token :: opening :: (used ++ closing :: brace :: (inner ++ [final])), by simp, ?_⟩
  exact .declared (.function begins named callable opened parametric few distinct closed
    (.braces braced derived ended))

private theorem conditional_sound {tokens rest : List Token} {term : Term} {word : Token}
    (begins : word.is "if") (below : Sound ending (tokens.length + 1))
    (read : Yields (conditional ending tokens) term rest) :
    Consumes (word :: tokens) rest (.statement term) := by
  rw [conditional] at read
  obtain ⟨⟨afterOpen, _⟩, expected, continued⟩ := yields_bind.mp read
  obtain ⟨opening, opened, rfl⟩ := expect_eq_ok_iff.mp expected
  obtain ⟨⟨test, afterTest, shorter⟩, tested, continued⟩ := yields_bind.mp continued
  obtain ⟨front, rfl, condition⟩ := below.expression (by simp only [List.length_cons]; omega) ⟨shorter, tested⟩
  obtain ⟨⟨afterClose, _⟩, expected, continued⟩ := yields_bind.mp continued
  obtain ⟨closing, closed, rfl⟩ := expect_eq_ok_iff.mp expected
  obtain ⟨⟨accepted, afterAccepted, fewer⟩, chosen, continued⟩ := yields_bind.mp continued
  obtain ⟨middle, rfl, consequence⟩ := below.statement (by simp; omega) ⟨fewer, chosen⟩
  simp only at continued
  split at continued
  next after _ accepts =>
    obtain ⟨other, follows, rfl⟩ := accept?_eq_some_iff.mp accepts
    obtain ⟨⟨otherwise, left, less⟩, entered, finished⟩ := yields_bind.mp continued
    obtain ⟨rfl, rfl⟩ := yields_pure.mp finished
    obtain ⟨back, rfl, replacement⟩ := below.statement (by simp; omega) ⟨less, entered⟩
    exact ⟨word :: opening :: (front ++ closing :: (middle ++ other :: back)), by simp,
      .alternative begins opened condition closed consequence (by simp) follows replacement⟩
  next =>
    obtain ⟨rfl, rfl⟩ := yields_pure.mp continued
    exact ⟨word :: opening :: (front ++ closing :: middle), by simp,
      .conditional begins opened condition closed consequence⟩

theorem statement_sound {tokens rest : List Token} {term : Term} (below : Sound ending tokens.length)
    (read : Yields (statement ending tokens) term rest) : Consumes tokens rest (.statement term) := by
  rw [statement] at read
  split at read
  next after _ accepted =>
    obtain ⟨word, begins, rfl⟩ := accept?_eq_some_iff.mp accepted
    obtain ⟨⟨found, left, shorter⟩, entered, finished⟩ := yields_bind.mp read
    obtain ⟨rfl, rfl⟩ := yields_pure.mp finished
    exact conditional_sound begins below ⟨shorter, entered⟩
  next =>
  split at read
  next after _ accepted =>
    obtain ⟨opening, opened, rfl⟩ := accept?_eq_some_iff.mp accepted
    obtain ⟨⟨body, left, shorter⟩, entered, finished⟩ := yields_bind.mp read
    obtain ⟨rfl, rfl⟩ := yields_pure.mp finished
    obtain ⟨used, closing, rfl, closed, inner⟩ := below.blockBody (by simp) ⟨shorter, entered⟩
    exact ⟨opening :: (used ++ [closing]), by simp, .nested (.braces opened inner closed)⟩
  next =>
  split at read
  next after _ accepted =>
    obtain ⟨word, begins, rfl⟩ := accept?_eq_some_iff.mp accepted
    obtain ⟨⟨found, left, shorter⟩, entered, finished⟩ := yields_bind.mp read
    obtain ⟨rfl, rfl⟩ := yields_pure.mp finished
    exact definition_sound begins below ⟨shorter, entered⟩
  next =>
    obtain ⟨⟨found, left, shorter⟩, entered, finished⟩ := yields_bind.mp read
    obtain ⟨rfl, rfl⟩ := yields_pure.mp finished
    obtain ⟨used, rfl, inner⟩ := expression_sound below ⟨shorter, entered⟩
    obtain kept | ⟨mark, marked, same⟩ := skip_cases ";" left
    · exact ⟨used, by simp [kept], .unterminated rfl inner⟩
    · exact ⟨used ++ [mark], by simp [← same], .terminated inner marked⟩

private theorem blockBody_sound {tokens rest : List Token} {body : List Term} (below : Sound ending tokens.length)
    (read : Yields (blockBody ending tokens) body rest) : Closes "\x7d" tokens rest (.program body) := by
  rw [blockBody] at read
  split at read
  next after _ accepted =>
    obtain ⟨closing, closed, rfl⟩ := accept?_eq_some_iff.mp accepted
    obtain ⟨rfl, rfl⟩ := yields_pure.mp read
    exact ⟨[], closing, rfl, closed, .empty⟩
  next =>
    split at read
    next => exact (not_yields_error read).elim
    next =>
      obtain ⟨⟨first, afterFirst, shorter⟩, begun, continued⟩ := yields_bind.mp read
      obtain ⟨⟨others, left, fewer⟩, entered, finished⟩ := yields_bind.mp continued
      obtain ⟨rfl, rfl⟩ := yields_pure.mp finished
      obtain ⟨front, rfl, head⟩ := statement_sound below ⟨shorter, begun⟩
      obtain ⟨used, closing, rfl, closed, tail⟩ := below.blockBody shorter ⟨fewer, entered⟩
      exact ⟨front ++ used, closing, by simp, closed, .sequence head tail⟩

theorem sound (ending : Token) (size : Nat) : Sound ending size := by
  induction size with
  | zero => constructor <;> intros <;> contradiction
  | succ size ih =>
    have below {tokens : List Token} (fewer : tokens.length < size + 1) : Sound ending tokens.length :=
      ih.mono (by omega)
    constructor
    · exact fun fewer read => statement_sound (below fewer) read
    · exact fun fewer read => blockBody_sound (below fewer) read
    · exact fun fewer read => expression_sound (below fewer) read
    · exact fun fewer read => assignment_sound (below fewer) read
    · exact fun fewer read => operand_sound (below fewer) read
    · exact fun fewer read => primary_sound (below fewer) read
    · exact fun fewer within read => argumentList_sound (below fewer) within read

/-- Whatever is read up to the end of the tokens is derived by the grammar. -/
theorem program_sound {tokens rest : List Token} {body : List Term}
    (read : program ending tokens = .ok (body, rest)) : Consumes tokens rest (.program body) := by
  rw [program] at read
  split at read
  next =>
    obtain ⟨⟨first, afterFirst, shorter⟩, begun, continued⟩ := bind_eq_ok.mp read
    obtain ⟨⟨others, left⟩, entered, finished⟩ := bind_eq_ok.mp continued
    cases finished
    obtain ⟨front, rfl, head⟩ := (sound ending _).statement (Nat.lt_succ_self _) ⟨shorter, begun⟩
    obtain ⟨used, rfl, tail⟩ := program_sound entered
    exact ⟨front ++ used, by simp, .sequence head tail⟩
  next =>
    cases read
    exact ⟨[], rfl, .empty⟩
termination_by tokens.length
decreasing_by subst_vars; assumption

end Stackwise.Proofs.GrammarSoundness
