import Mathlib.Data.List.Basic
import Stackwise.Proofs.GrammarSoundness
import Stackwise.Proofs.TokenCursor

/-! The cursor keeps to the tokens in front of the first end-of-input token, and every production moves it
on. From any position up to that token, a reader finds what its production finds on the tokens that are left
in front of the end-of-input token, and it stops where the production does. The calls of a reader inside one
another are as deep as the measure of its production allows, so it is never cut short. -/

namespace Stackwise.Proofs.CursorProgress
open Grammar GrammarSoundness TokenCursor

section Steps

variable {α β : Type} {reader : Reader α} {next : α → Reader β} {position after : Nat} {value : α} {halt : Halt}

/-- A step that is known is taken off the front of a reader. -/
theorem bind_ok (read : reader position = .ok (value, after)) : (reader >>= next) position = next value after := by
  change (reader position >>= fun reached => next reached.1 reached.2) = _
  rw [read]
  rfl

theorem bind_error (stopped : reader position = .error halt) : (reader >>= next) position = .error halt := by
  change (reader position >>= fun reached => next reached.1 reached.2) = _
  rw [stopped]
  rfl

private theorem bind_eq_error {ε : Type} {first : Except ε α} {onward : α → Except ε β} {fault : ε} :
    (first >>= onward) = .error fault ↔
      first = .error fault ∨ ∃ found, first = .ok found ∧ onward found = .error fault := by
  cases first with
  | error stopped => simp [bind, Except.bind]
  | ok found => simp [bind, Except.bind]

end Steps

/-- Tokens with an end-of-input token among them. The first one is marked. -/
structure Tape where
  code : List Token
  ending : Token
  behind : List Token
  proper : ∀ token ∈ code, token.isEnding = false
  ended : ending.isEnding = true

namespace Tape

section Cursor

variable (tape : Tape)

def tokens : List Token := tape.code ++ tape.ending :: tape.behind

def place (rest : List Token) : Nat := tape.code.length - rest.length

theorem firstEnding_tokens : firstEnding tape.tokens = tape.code.length := by
  have passed : tape.code.findIdx Token.isEnding = tape.code.length := List.findIdx_eq_length.mpr tape.proper
  rw [firstEnding, tokens, List.findIdx_append, passed, if_neg (Nat.lt_irrefl _), List.findIdx_cons, tape.ended]
  exact Nat.zero_add _

variable {tape} {rest : List Token}

theorem drop_place (within : rest <:+ tape.code) :
    tape.tokens.drop (tape.place rest) = rest ++ tape.ending :: tape.behind := by
  obtain ⟨front, whole⟩ := within
  rw [tokens, place, ← whole, List.length_append, Nat.add_sub_cancel, List.append_assoc]
  exact List.drop_left

theorem peek_place (within : rest <:+ tape.code) :
    peek tape.tokens (tape.place rest) = .ok (rest.headD tape.ending, tape.place rest) := by
  have found : tape.tokens[tape.place rest]? = some (rest.headD tape.ending) := by
    rw [← List.head?_drop, drop_place within]
    cases rest with
    | nil => rfl
    | cons token others => rfl
  rw [peek, found]

theorem proper_of_suffix {token : Token} (within : token :: rest <:+ tape.code) : token.isEnding = false :=
  tape.proper token (within.subset List.mem_cons_self)

/-- The cursor moves on over each token of the code, and stays in front of the first end-of-input token. -/
theorem advance_place {token : Token} (within : token :: rest <:+ tape.code) :
    advance tape.tokens (tape.place (token :: rest)) = .ok ((), tape.place rest) := by
  have fits := within.length_le
  rw [List.length_cons] at fits
  have inside : ¬ firstEnding tape.tokens ≤ tape.place (token :: rest) := by
    rw [tape.firstEnding_tokens, place, List.length_cons]
    omega
  have moved : tape.place (token :: rest) + 1 = tape.place rest := by
    rw [place, place, List.length_cons]
    omega
  rw [advance, bind_ok (peek_place within), List.headD_cons, proper_of_suffix within]
  change (if firstEnding tape.tokens ≤ tape.place (token :: rest) then throw Halt.overrun
    else modify (· + 1) : Reader Unit) (tape.place (token :: rest)) = _
  rw [if_neg inside, ← moved]
  rfl

private theorem report_eq {α : Type} (mismatch : Mismatch) (position : Nat) :
    (report mismatch : Reader α) position = .error (.refused mismatch.diagnostic) := rfl

theorem unexpected_place {α : Type} (within : rest <:+ tape.code) (expected : Expected) :
    (unexpected tape.tokens expected : Reader α) (tape.place rest) =
      .error (.refused (Mismatch.diagnostic ⟨expected, rest.headD tape.ending⟩)) := by
  rw [unexpected, bind_ok (peek_place within), report_eq]

theorem ending_kind (tape : Tape) : tape.ending.kind = .endOfInput := by
  simpa [Token.isEnding] using tape.ended

private theorem opensStatement_headD (tape : Tape) (rest : List Token) :
    (rest.headD tape.ending).opensStatement = atStatement rest := by
  cases rest with
  | nil => simp [Token.opensStatement, Token.opensExpression, Token.is, tape.ending_kind, atStatement]
  | cons token others => rfl

private theorem opensExpression_headD (tape : Tape) (rest : List Token) :
    (rest.headD tape.ending).opensExpression = atExpression rest := by
  cases rest with
  | nil => simp [Token.opensExpression, tape.ending_kind, atExpression]
  | cons token others => rfl

/-- A symbol is used by the cursor where it is used up by the production. -/
theorem accepts_place (within : rest <:+ tape.code) (symbol : String) :
    accept? symbol rest = none ∧ accepts tape.tokens symbol (tape.place rest) = .ok (false, tape.place rest) ∨
      ∃ left fewer, accept? symbol rest = some ⟨left, fewer⟩ ∧ left <:+ rest ∧
        accepts tape.tokens symbol (tape.place rest) = .ok (true, tape.place left) := by
  rw [accepts, bind_ok (peek_place within)]
  cases rest with
  | nil =>
    refine .inl ⟨rfl, ?_⟩
    simp only [List.headD_nil, Token.is, tape.ending_kind]
    rfl
  | cons token others =>
    rw [List.headD_cons]
    by_cases same : token.is symbol
    · refine .inr ⟨others, Nat.lt_succ_self _, accept?_eq_some_iff.mpr ⟨token, same, rfl⟩, List.suffix_cons _ _, ?_⟩
      rw [if_pos same, bind_ok (advance_place within)]
      rfl
    · refine .inl ⟨if_neg (by simpa [Token.is] using same), ?_⟩
      rw [if_neg same]
      rfl

end Cursor

/-- From the position of `rest`, the reader finds what the production found on `rest`, and ends at the position
of what the production left. -/
def Agrees (tape : Tape) {α : Type} {bound : Nat} (reader : Reader α) (rest : List Token)
    (outcome : Except Mismatch (Parsed α bound)) : Prop :=
  match outcome with
  | .ok parsed => parsed.rest <:+ rest ∧ reader (tape.place rest) = .ok (parsed.value, tape.place parsed.rest)
  | .error mismatch => reader (tape.place rest) = .error (.refused mismatch.diagnostic)

section Laws

variable {tape : Tape} {α β : Type} {bound limit : Nat} {reader : Reader α} {next : α → Reader β}
  {rest left : List Token}

theorem agrees_pure {value : α} {shorter : rest.length < bound} :
    tape.Agrees (pure value) rest (pure ⟨value, rest, shorter⟩) :=
  ⟨List.suffix_refl rest, rfl⟩

theorem agrees_report {mismatch : Mismatch} :
    tape.Agrees (report mismatch : Reader α) rest (.error mismatch : Except Mismatch (Parsed α bound)) := rfl

theorem agrees_unexpected (within : rest <:+ tape.code) (expected : Expected) :
    tape.Agrees (unexpected tape.tokens expected : Reader α) rest
      (refuse tape.ending expected rest : Except Mismatch (Parsed α bound)) :=
  unexpected_place within expected

/-- The cursor has moved on, and the rest of the reader agrees from there. -/
theorem Agrees.after {outcome : Except Mismatch (Parsed β bound)} {value : α} (suffix : left <:+ rest)
    (read : reader (tape.place rest) = .ok (value, tape.place left)) (agrees : tape.Agrees (next value) left outcome) :
    tape.Agrees (reader >>= next) rest outcome := by
  cases outcome with
  | ok parsed =>
    obtain ⟨further, finished⟩ := agrees
    exact ⟨further.trans suffix, (bind_ok read).trans finished⟩
  | error mismatch => exact (bind_ok read).trans agrees

theorem Agrees.bind {read : Except Mismatch (Parsed α bound)} {onward : Parsed α bound → Except Mismatch (Parsed β limit)}
    (begun : tape.Agrees reader rest read)
    (continued : ∀ value left shorter, left <:+ rest → tape.Agrees (next value) left (onward ⟨value, left, shorter⟩)) :
    tape.Agrees (reader >>= next) rest (read >>= onward) := by
  cases read with
  | ok parsed =>
    obtain ⟨suffix, reached⟩ := begun
    exact .after suffix reached (continued _ _ parsed.shorter suffix)
  | error mismatch => exact bind_error begun

/-- A production may pass on what another one has read. -/
theorem Agrees.passed {read : Except Mismatch (Parsed α bound)} {fewer : ∀ parsed : Parsed α bound, parsed.rest.length < limit}
    (agrees : tape.Agrees reader rest read) :
    tape.Agrees reader rest (read >>= fun parsed => pure ⟨parsed.value, parsed.rest, fewer parsed⟩) := by
  cases read with
  | ok parsed => exact agrees
  | error mismatch => exact agrees

theorem agrees_requires {onward : Shorter rest → Except Mismatch (Parsed β limit)} {symbol : String}
    {next : Unit → Reader β} (within : rest <:+ tape.code)
    (continued : ∀ left fewer, left <:+ rest → tape.Agrees (next ()) left (onward ⟨left, fewer⟩)) :
    tape.Agrees (requires tape.tokens symbol >>= next) rest (expect tape.ending symbol rest >>= onward) := by
  rw [expect]
  rcases accepts_place within symbol with ⟨absent, stays⟩ | ⟨left, fewer, found, suffix, moves⟩
  · rw [absent]
    apply bind_error
    rw [requires, bind_ok stays]
    exact unexpected_place within _
  · rw [found]
    refine .after suffix ?_ (continued left fewer suffix)
    rw [requires, bind_ok moves]
    rfl

/-- A choice by the next symbol is made alike. -/
theorem agrees_accepts {symbol : String} {next : Bool → Reader β} {absent : Except Mismatch (Parsed β limit)}
    {found : (left : List Token) → left.length < rest.length → Except Mismatch (Parsed β limit)}
    (within : rest <:+ tape.code)
    (taken : ∀ (left : List Token) (fewer : left.length < rest.length), left <:+ rest →
      tape.Agrees (next true) left (found left fewer))
    (passed : tape.Agrees (next false) rest absent) :
    tape.Agrees (accepts tape.tokens symbol >>= next) rest
      (match accept? symbol rest with
      | some ⟨left, fewer⟩ => found left fewer
      | none => absent) := by
  rcases accepts_place within symbol with ⟨missing, stays⟩ | ⟨left, fewer, met, suffix, moves⟩
  · rw [missing]
    exact .after (List.suffix_refl rest) stays passed
  · rw [met]
    exact .after suffix moves (taken left fewer suffix)

theorem agrees_name (within : rest <:+ tape.code) :
    tape.Agrees (readName tape.tokens) rest (identifier tape.ending rest) := by
  rw [readName]
  refine .after (List.suffix_refl rest) (peek_place within) ?_
  cases rest with
  | nil =>
    simp only [List.headD_nil, tape.ending_kind]
    exact agrees_unexpected within _
  | cons token others =>
    obtain ⟨kind, offset, size⟩ := token
    cases kind with
    | name text => exact .after (List.suffix_cons _ _) (advance_place within) agrees_pure
    | symbol | number | returnWord | endOfInput => exact agrees_unexpected within _

end Laws

/-- The reader agrees with the production wherever the production needs calls less deep than `fuel`. -/
def Follows (tape : Tape) {α : Type} {bound : List Token → Nat} (fuel cost : Nat) (reader : Reader α)
    (production : (tokens : List Token) → Except Mismatch (Parsed α (bound tokens))) : Prop :=
  ∀ {rest : List Token}, rest <:+ tape.code → 16 * rest.length + cost < fuel → tape.Agrees reader rest (production rest)

/-- The readers agree with the productions. What a production costs beyond its tokens is what its measure
adds to them. -/
structure Faithful (tape : Tape) (fuel : Nat) : Prop where
  statement : tape.Follows fuel 12 (readStatement tape.tokens fuel) (statement tape.ending)
  conditional : tape.Follows fuel 0 (readConditional tape.tokens fuel) (conditional tape.ending)
  body : tape.Follows fuel 13 (readBody tape.tokens fuel) (blockBody tape.ending)
  definition : tape.Follows fuel 0 (readDefinition tape.tokens fuel) (definition tape.ending)
  expression : tape.Follows fuel 11 (readExpression tape.tokens fuel) (expression tape.ending)
  assignment : tape.Follows fuel 10 (readAssignment tape.tokens fuel) (assignment tape.ending)
  chain : ∀ tier, tape.Follows fuel (2 * tier.height + 1) (readChain tape.tokens tier fuel) (chain tape.ending tier)
  links : ∀ tier left, tape.Follows fuel 0 (readLinks tape.tokens tier left fuel) (chainFrom tape.ending tier left)
  operand : ∀ tier, tape.Follows fuel (2 * tier.height) (readOperand tape.tokens tier fuel) (operand tape.ending tier)
  unary : tape.Follows fuel 1 (readUnary tape.tokens fuel) (unary tape.ending)
  primary : tape.Follows fuel 0 (readPrimary tape.tokens fuel) (primary tape.ending)
  arguments : tape.Follows fuel 15 (readArguments tape.tokens fuel) (arguments tape.ending)
  argumentList : ∀ count, tape.Follows fuel 14 (readArgumentList tape.tokens count fuel) (argumentList tape.ending count)

section Productions

variable {tape : Tape} {fuel : Nat}

private theorem unary_follows (below : tape.Faithful fuel) :
    tape.Follows (fuel + 1) 1 (readUnary tape.tokens (fuel + 1)) (unary tape.ending) := by
  intro rest within enough
  rw [readUnary, unary]
  refine agrees_accepts within (fun left fewer suffix => ?_) ?_
  · exact (below.primary (suffix.trans within) (by omega)).passed
  refine agrees_accepts within (fun left fewer suffix => ?_) ?_
  · exact (below.primary (suffix.trans within) (by omega)).bind fun _ _ _ _ => agrees_pure
  · exact below.primary within (by omega)

private theorem operand_follows (below : tape.Faithful fuel) (tier : Tier) :
    tape.Follows (fuel + 1) (2 * tier.height) (readOperand tape.tokens tier (fuel + 1)) (operand tape.ending tier) := by
  intro rest within enough
  cases tier with
  | equality =>
    rw [readOperand, operand]
    exact below.chain .comparison within (by simp only [Tier.height] at enough ⊢; omega)
  | comparison =>
    rw [readOperand, operand]
    exact below.chain .sum within (by simp only [Tier.height] at enough ⊢; omega)
  | sum =>
    rw [readOperand, operand]
    exact below.chain .product within (by simp only [Tier.height] at enough ⊢; omega)
  | product =>
    rw [readOperand, operand]
    exact below.unary within (by simp only [Tier.height] at enough; omega)

private theorem links_follow (below : tape.Faithful fuel) (tier : Tier) (left : Term) :
    tape.Follows (fuel + 1) 0 (readLinks tape.tokens tier left (fuel + 1)) (chainFrom tape.ending tier left) := by
  intro rest within enough
  have height := tier.height_le
  rw [readLinks, chainFrom]
  refine .after (List.suffix_refl rest) (peek_place within) ?_
  cases rest with
  | nil =>
    have unlinked : tier.link? tape.ending.kind = none := by
      rw [tape.ending_kind]
      cases tier <;> rfl
    simp only [List.headD_nil, unlinked]
    exact agrees_pure
  | cons token others =>
    rw [List.headD_cons]
    cases linked : tier.link? token.kind with
    | none =>
      have unlinked : tier.acceptLink? (token :: others) = none := by simp [Tier.acceptLink?, next?, linked]
      rw [unlinked]
      exact agrees_pure
    | some link =>
      have suffix := List.suffix_cons token others
      have found : tier.acceptLink? (token :: others) = some (link, ⟨others, Nat.lt_succ_self _⟩) := by
        simp [Tier.acceptLink?, next?, linked]
      rw [found]
      refine .after suffix (advance_place within) ?_
      rw [List.length_cons] at enough
      refine (below.operand tier (suffix.trans within) (by omega)).bind fun right afterRight shorter behind => ?_
      exact (below.links tier _ (behind.trans (suffix.trans within)) (by omega)).passed

private theorem chain_follows (below : tape.Faithful fuel) (tier : Tier) :
    tape.Follows (fuel + 1) (2 * tier.height + 1) (readChain tape.tokens tier (fuel + 1)) (chain tape.ending tier) := by
  intro rest within enough
  rw [readChain, chain]
  refine (below.operand tier within (by omega)).bind fun first afterFirst shorter behind => ?_
  exact (below.links tier _ (behind.trans within) (by omega)).passed

private theorem assignment_follows (below : tape.Faithful fuel) :
    tape.Follows (fuel + 1) 10 (readAssignment tape.tokens (fuel + 1)) (assignment tape.ending) := by
  intro rest within enough
  rw [readAssignment, assignment]
  refine .after (List.suffix_refl rest) (peek_place within) ?_
  refine (below.chain .equality within (by simp only [Tier.height]; omega)).bind fun target afterTarget shorter behind => ?_
  have reached := behind.trans within
  rcases accepts_place reached "=" with ⟨absent, stays⟩ | ⟨left, fewer, found, suffix, moves⟩
  · simp only [absent]
    exact .after (List.suffix_refl _) stays agrees_pure
  · simp only [found]
    refine .after suffix moves ?_
    have passed := suffix.trans reached
    cases target with
    | var name =>
      refine agrees_accepts passed (fun inner less further => ?_) ?_
      · exact (below.body (further.trans passed) (by omega)).bind fun _ _ _ _ => agrees_pure
      · exact (below.assignment passed (by omega)).bind fun _ _ _ _ => agrees_pure
    | _ => exact agrees_report

private theorem expression_follows (below : tape.Faithful fuel) :
    tape.Follows (fuel + 1) 11 (readExpression tape.tokens (fuel + 1)) (expression tape.ending) := by
  intro rest within enough
  rw [readExpression, expression]
  refine .after (List.suffix_refl rest) (peek_place within) ?_
  cases rest with
  | nil =>
    simp only [List.headD_nil, tape.ending_kind]
    exact below.assignment within (by omega)
  | cons token others =>
    rw [List.headD_cons]
    have suffix := List.suffix_cons token others
    have reached := suffix.trans within
    rw [List.length_cons] at enough
    by_cases leaves : token.kind = .returnWord
    · simp only [if_pos leaves, acceptKind?]
      refine .after suffix (advance_place within) ?_
      refine .after (List.suffix_refl others) (peek_place reached) ?_
      rw [tape.opensExpression_headD others]
      split
      · exact (below.assignment reached (by omega)).bind fun _ _ _ _ => agrees_pure
      · exact agrees_pure
    · simp only [if_neg leaves, acceptKind?]
      exact below.assignment within (by simp only [List.length_cons]; omega)

private theorem primary_follows (below : tape.Faithful fuel) :
    tape.Follows (fuel + 1) 0 (readPrimary tape.tokens (fuel + 1)) (primary tape.ending) := by
  intro rest within enough
  rw [readPrimary, primary]
  refine agrees_accepts within (fun inner fewer suffix => ?_) ?_
  · have reached := suffix.trans within
    refine (below.expression reached (by omega)).bind fun term afterTerm shorter behind => ?_
    exact agrees_requires (behind.trans reached) fun _ _ _ => agrees_pure
  refine .after (List.suffix_refl rest) (peek_place within) ?_
  cases rest with
  | nil =>
    simp only [List.headD_nil, tape.ending_kind]
    exact agrees_unexpected within _
  | cons token others =>
    have suffix := List.suffix_cons token others
    have reached := suffix.trans within
    simp only [List.headD_cons, next?]
    rw [List.length_cons] at enough
    cases token.kind with
    | name name =>
      refine .after suffix (advance_place within) ?_
      refine agrees_accepts reached (fun passed fewer further => ?_) agrees_pure
      cases reserved : Assembly.isReserved name with
      | true =>
        simp only [checkCallable, reserved]
        exact agrees_report
      | false =>
        simp only [checkCallable, reserved]
        exact (below.arguments (further.trans reached) (by omega)).bind fun _ _ _ _ => agrees_pure
    | number value => exact .after suffix (advance_place within) agrees_pure
    | symbol | returnWord | endOfInput => exact agrees_unexpected within _

private theorem argumentList_follows (below : tape.Faithful fuel) (count : Nat) :
    tape.Follows (fuel + 1) 14 (readArgumentList tape.tokens count (fuel + 1)) (argumentList tape.ending count) := by
  intro rest within enough
  rw [readArgumentList, argumentList]
  split
  · exact agrees_unexpected within _
  · refine (below.assignment within (by omega)).bind fun value afterValue shorter behind => ?_
    have reached := behind.trans within
    refine agrees_accepts reached (fun others fewer suffix => ?_) ?_
    · exact (below.argumentList _ (suffix.trans reached) (by omega)).bind fun _ _ _ _ => agrees_pure
    · exact agrees_requires reached fun _ _ _ => agrees_pure

private theorem arguments_follow (below : tape.Faithful fuel) :
    tape.Follows (fuel + 1) 15 (readArguments tape.tokens (fuel + 1)) (arguments tape.ending) := by
  intro rest within enough
  rw [readArguments, arguments]
  exact agrees_accepts within (fun _ _ _ => agrees_pure) (below.argumentList 0 within (by omega))

private theorem parameterList_agrees (earlier : List String) (fuel : Nat) {rest : List Token} (within : rest <:+ tape.code)
    (enough : rest.length < fuel) :
    tape.Agrees (readParameterList tape.tokens earlier fuel) rest (parameterList tape.ending earlier rest) := by
  induction fuel generalizing earlier rest with
  | zero => cases enough
  | succ fuel ih =>
    rw [readParameterList, parameterList]
    refine (agrees_name within).bind fun named afterName shorter behind => ?_
    obtain ⟨name, token⟩ := named
    have reached := behind.trans within
    simp only
    split
    · exact agrees_report
    · split
      · exact agrees_report
      · refine agrees_accepts reached (fun others fewer suffix => ?_) ?_
        · exact (ih _ (suffix.trans reached) (by omega)).bind fun _ _ _ _ => agrees_pure
        · exact agrees_requires reached fun _ _ _ => agrees_pure

theorem parameters_agree {rest : List Token} (within : rest <:+ tape.code) (enough : rest.length < fuel) :
    tape.Agrees (readParameters tape.tokens fuel) rest (parameters tape.ending rest) := by
  rw [readParameters, parameters]
  exact agrees_accepts within (fun _ _ _ => agrees_pure) (parameterList_agrees [] fuel within enough)

private theorem definition_follows (below : tape.Faithful fuel) :
    tape.Follows (fuel + 1) 0 (readDefinition tape.tokens (fuel + 1)) (definition tape.ending) := by
  intro rest within enough
  rw [readDefinition, definition]
  refine (agrees_name within).bind fun declared afterName shorter behind => ?_
  obtain ⟨name, token⟩ := declared
  have named := behind.trans within
  cases reserved : Assembly.isReserved name with
  | true =>
    simp only [checkCallable, reserved]
    exact agrees_report
  | false =>
    simp only [checkCallable, reserved]
    refine agrees_requires named fun opened fewer suffix => ?_
    have inside := suffix.trans named
    refine (parameters_agree inside (by omega)).bind fun names afterNames less further => ?_
    have listed := further.trans inside
    refine agrees_requires listed fun braced least last => ?_
    exact (below.body (last.trans listed) (by omega)).bind fun _ _ _ _ => agrees_pure

private theorem conditional_follows (below : tape.Faithful fuel) :
    tape.Follows (fuel + 1) 0 (readConditional tape.tokens (fuel + 1)) (conditional tape.ending) := by
  intro rest within enough
  rw [readConditional, conditional]
  refine agrees_requires within fun opened fewer suffix => ?_
  have inside := suffix.trans within
  refine (below.expression inside (by omega)).bind fun test afterTest less behind => ?_
  have tested := behind.trans inside
  refine agrees_requires tested fun closed short further => ?_
  have passed := further.trans tested
  refine (below.statement passed (by omega)).bind fun accepted afterAccepted shorter behind => ?_
  have reached := behind.trans passed
  refine agrees_accepts reached (fun left least last => ?_) agrees_pure
  exact (below.statement (last.trans reached) (by omega)).bind fun _ _ _ _ => agrees_pure

private theorem statement_follows (below : tape.Faithful fuel) :
    tape.Follows (fuel + 1) 12 (readStatement tape.tokens (fuel + 1)) (statement tape.ending) := by
  intro rest within enough
  rw [readStatement, statement]
  refine agrees_accepts within (fun left fewer suffix => ?_) ?_
  · exact (below.conditional (suffix.trans within) (by omega)).passed
  refine agrees_accepts within (fun left fewer suffix => ?_) ?_
  · exact (below.body (suffix.trans within) (by omega)).bind fun _ _ _ _ => agrees_pure
  refine agrees_accepts within (fun left fewer suffix => ?_) ?_
  · exact (below.definition (suffix.trans within) (by omega)).passed
  refine (below.expression within (by omega)).bind fun term afterTerm shorter behind => ?_
  have reached := behind.trans within
  simp only [skip]
  rcases accepts_place reached ";" with ⟨absent, stays⟩ | ⟨left, fewer, found, suffix, moves⟩
  · simp only [absent]
    exact .after (List.suffix_refl _) stays agrees_pure
  · simp only [found]
    exact .after suffix moves agrees_pure

private theorem body_follows (below : tape.Faithful fuel) :
    tape.Follows (fuel + 1) 13 (readBody tape.tokens (fuel + 1)) (blockBody tape.ending) := by
  intro rest within enough
  rw [readBody, blockBody]
  refine agrees_accepts within (fun _ _ _ => agrees_pure) ?_
  refine .after (List.suffix_refl rest) (peek_place within) ?_
  cases rest with
  | nil =>
    simp only [List.headD_nil, tape.ended]
    exact agrees_unexpected within _
  | cons token others =>
    simp only [List.headD_cons, proper_of_suffix within]
    refine (below.statement within (by omega)).bind fun first afterFirst shorter behind => ?_
    exact (below.body (behind.trans within) (by omega)).bind fun _ _ _ _ => agrees_pure

end Productions

/-- The induction is on the fuel and not on the tokens, since a production may call another one before it has
used a token. -/
theorem faithful (tape : Tape) (fuel : Nat) : tape.Faithful fuel := by
  induction fuel with
  | zero => constructor <;> intros <;> intro rest _ enough <;> cases enough
  | succ fuel below =>
    constructor
    · exact statement_follows below
    · exact conditional_follows below
    · exact body_follows below
    · exact definition_follows below
    · exact expression_follows below
    · exact assignment_follows below
    · exact chain_follows below
    · exact links_follow below
    · exact operand_follows below
    · exact unary_follows below
    · exact primary_follows below
    · exact arguments_follow below
    · exact argumentList_follows below

/-- The cursor reads the statements of a program, and stops where the program does. -/
theorem program_agrees (tape : Tape) (fuel : Nat) {rest : List Token} (within : rest <:+ tape.code)
    (enough : 16 * rest.length + 13 < fuel) :
    (∀ read left, program tape.ending rest = .ok (read, left) →
      left <:+ rest ∧ readProgram tape.tokens fuel (tape.place rest) = .ok (read, tape.place left)) ∧
    ∀ mismatch, program tape.ending rest = .error mismatch →
      readProgram tape.tokens fuel (tape.place rest) = .error (.refused mismatch.diagnostic) := by
  induction fuel generalizing rest with
  | zero => cases enough
  | succ fuel ih =>
    rw [readProgram, program, bind_ok (peek_place within), tape.opensStatement_headD rest]
    cases atStatement rest with
    | false =>
      refine ⟨fun read left ended => ?_, fun mismatch refused => ?_⟩
      · cases ended
        exact ⟨List.suffix_refl rest, rfl⟩
      · cases refused
    | true =>
      have first := (tape.faithful fuel).statement within (by omega)
      rw [if_pos rfl, if_pos rfl]
      constructor
      · intro read left ended
        obtain ⟨⟨term, afterTerm, shorter⟩, begun, onward⟩ := bind_eq_ok.mp ended
        obtain ⟨⟨others, last⟩, further, same⟩ := bind_eq_ok.mp onward
        cases same
        rw [begun] at first
        obtain ⟨suffix, reached⟩ := first
        obtain ⟨behind, finished⟩ := (ih (suffix.trans within) (by dsimp only; omega)).1 _ _ further
        rw [bind_ok reached]
        exact ⟨behind.trans suffix, bind_ok finished⟩
      · intro mismatch refused
        rcases bind_eq_error.mp refused with begun | ⟨⟨term, afterTerm, shorter⟩, begun, onward⟩
        · rw [begun] at first
          exact bind_error first
        · rw [begun] at first
          obtain ⟨suffix, reached⟩ := first
          rw [bind_ok reached]
          rcases bind_eq_error.mp onward with further | ⟨found, _, finished⟩
          · exact bind_error ((ih (suffix.trans within) (by dsimp only; omega)).2 mismatch further)
          · cases finished

/-- From every position up to the first end-of-input token, the reader finds what the production finds on the
tokens between the two. When it succeeds, it has moved on by a token at least, and not past the end-of-input
token. -/
def Tracks (tape : Tape) {α : Type} (reader : Reader α)
    (production : (tokens : List Token) → Except Mismatch (Parsed α tokens.length)) : Prop :=
  ∀ position ≤ tape.code.length,
    match production (tape.code.drop position) with
    | .ok parsed => ∃ next, reader position = .ok (parsed.value, next) ∧ parsed.rest = tape.code.drop next ∧
        position < next ∧ next ≤ tape.code.length
    | .error mismatch => reader position = .error (.refused mismatch.diagnostic)

private theorem tracks_of_agrees {tape : Tape} {α : Type} {reader : Reader α}
    {production : (tokens : List Token) → Except Mismatch (Parsed α tokens.length)}
    (agrees : ∀ {rest : List Token}, rest <:+ tape.code → tape.Agrees reader rest (production rest)) :
    tape.Tracks reader production := by
  intro position inside
  have here : tape.place (tape.code.drop position) = position := by
    rw [place, List.length_drop]
    omega
  have reads := agrees (List.drop_suffix position tape.code)
  generalize production (tape.code.drop position) = outcome at reads ⊢
  cases outcome with
  | error mismatch =>
    rw [Agrees, here] at reads
    exact reads
  | ok parsed =>
    obtain ⟨suffix, reached⟩ := reads
    rw [here] at reached
    have shorter := parsed.shorter
    have dropped : (tape.code.drop position).length = tape.code.length - position := List.length_drop
    refine ⟨tape.place parsed.rest, reached, ?_, ?_, ?_⟩
    · exact List.suffix_iff_eq_drop.mp (suffix.trans (List.drop_suffix position tape.code))
    · rw [place]
      omega
    · exact Nat.sub_le _ _

/-- Every production keeps the cursor in its bounds and moves it on. -/
structure Disciplined (tape : Tape) (fuel : Nat) : Prop where
  statement : tape.Tracks (readStatement tape.tokens fuel) (statement tape.ending)
  conditional : tape.Tracks (readConditional tape.tokens fuel) (conditional tape.ending)
  body : tape.Tracks (readBody tape.tokens fuel) (blockBody tape.ending)
  definition : tape.Tracks (readDefinition tape.tokens fuel) (definition tape.ending)
  parameters : tape.Tracks (readParameters tape.tokens fuel) (parameters tape.ending)
  expression : tape.Tracks (readExpression tape.tokens fuel) (expression tape.ending)
  assignment : tape.Tracks (readAssignment tape.tokens fuel) (assignment tape.ending)
  chain : ∀ tier, tape.Tracks (readChain tape.tokens tier fuel) (chain tape.ending tier)
  unary : tape.Tracks (readUnary tape.tokens fuel) (unary tape.ending)
  primary : tape.Tracks (readPrimary tape.tokens fuel) (primary tape.ending)
  arguments : tape.Tracks (readArguments tape.tokens fuel) (arguments tape.ending)

private theorem disciplined {tape : Tape} {fuel : Nat} (enough : 16 * tape.tokens.length ≤ fuel) : tape.Disciplined fuel := by
  have faithful := tape.faithful fuel
  rw [tokens, List.length_append, List.length_cons] at enough
  have affords {rest : List Token} {cost : Nat} (within : rest <:+ tape.code) (low : cost < 16) :
      16 * rest.length + cost < fuel := by
    have := within.length_le
    omega
  constructor
  · exact tracks_of_agrees fun within => faithful.statement within (affords within (by decide))
  · exact tracks_of_agrees fun within => faithful.conditional within (affords within (by decide))
  · exact tracks_of_agrees fun within => faithful.body within (affords within (by decide))
  · exact tracks_of_agrees fun within => faithful.definition within (affords within (by decide))
  · exact tracks_of_agrees fun within => parameters_agree within (by have := within.length_le; omega)
  · exact tracks_of_agrees fun within => faithful.expression within (affords within (by decide))
  · exact tracks_of_agrees fun within => faithful.assignment within (affords within (by decide))
  · exact fun tier => tracks_of_agrees fun within =>
      faithful.chain tier within (affords within (by have := tier.height_le; omega))
  · exact tracks_of_agrees fun within => faithful.unary within (affords within (by decide))
  · exact tracks_of_agrees fun within => faithful.primary within (affords within (by decide))
  · exact tracks_of_agrees fun within => faithful.arguments within (affords within (by decide))

end Tape

private theorem exists_ending (tokens : List Token) : ∃ token ∈ closed tokens, token.isEnding = true := by
  unfold closed
  split
  next => exact ⟨_, List.mem_singleton_self _, rfl⟩
  next last found =>
    split
    next ends => exact ⟨last, List.mem_of_getLast? found, ends⟩
    next => exact ⟨_, List.mem_append_right _ (List.mem_singleton_self _), rfl⟩

/-- Closed tokens are marked at their first end-of-input token. -/
theorem exists_tape (tokens : List Token) :
    ∃ tape : Tape, closed tokens = tape.tokens ∧ tape.code = (closed tokens).takeWhile (!·.isEnding) ∧
      tape.ending :: tape.behind = (closed tokens).dropWhile (!·.isEnding) := by
  have whole : (closed tokens).takeWhile (!·.isEnding) ++ (closed tokens).dropWhile (!·.isEnding) = closed tokens :=
    List.takeWhile_append_dropWhile
  have proper : ∀ token ∈ (closed tokens).takeWhile (!·.isEnding), token.isEnding = false := by
    intro token member
    simpa using List.all_eq_true.mp List.all_takeWhile token member
  cases stopped : (closed tokens).dropWhile (!·.isEnding) with
  | nil =>
    obtain ⟨token, member, ends⟩ := exists_ending tokens
    rw [stopped, List.append_nil] at whole
    have inside : token ∈ (closed tokens).takeWhile (!·.isEnding) := by rwa [whole]
    rw [proper token inside] at ends
    cases ends
  | cons ending behind =>
    have head := List.head?_dropWhile_not (fun token : Token => !token.isEnding) (closed tokens)
    rw [stopped] at head
    change (!ending.isEnding) = false at head
    have ended : ending.isEnding = true := by simpa using head
    exact ⟨⟨_, ending, behind, proper, ended⟩, by rw [Tape.tokens, ← stopped, whole], rfl, rfl⟩

/-- With calls as deep as sixteen times the number of tokens, the cursor reads what the program is. -/
theorem run_eq_parse {tokens : List Token} {fuel : Nat} (enough : 16 * (closed tokens).length ≤ fuel) :
    run fuel tokens = (parse tokens).mapError .refused := by
  obtain ⟨tape, whole, code, beyond⟩ := exists_tape tokens
  rw [whole, Tape.tokens, List.length_append, List.length_cons] at enough
  have start : tape.place tape.code = 0 := Nat.sub_self _
  obtain ⟨reads, refuses⟩ := tape.program_agrees fuel (List.suffix_refl _) (by omega)
  rw [start] at reads refuses
  rw [parse, ← code, ← beyond, List.headD_cons, run, whole]
  cases read : program tape.ending tape.code with
  | error mismatch =>
    rw [refuses mismatch read]
    rfl
  | ok pair =>
    obtain ⟨terms, left⟩ := pair
    obtain ⟨suffix, reached⟩ := reads terms left read
    rw [reached]
    change (peek tape.tokens (tape.place left) >>= fun found => if found.1.isEnding then pure terms
      else throw (Halt.refused (.leftover terms (tape.tokens.drop (tape.place left))))) = _
    rw [Tape.peek_place suffix, Tape.drop_place suffix]
    cases left with
    | nil =>
      change (if tape.ending.isEnding then pure terms else _) = _
      rw [if_pos tape.ended]
      rfl
    | cons token others =>
      change (if token.isEnding then pure terms else _) = _
      rw [Tape.proper_of_suffix suffix]
      rfl

def closing (behind : List Token) : List Token :=
  match behind.getLast? with
  | none => []
  | some last => if last.isEnding then [] else [last.closing]

/-- With more tokens behind, as much more is left over. -/
def extended (more : List Token) : Except Diagnostic (List Term) → Except Diagnostic (List Term)
  | .error (.leftover read rest) => .error (.leftover read (rest ++ more))
  | outcome => outcome

private theorem closed_behind {ending : Token} (ended : ending.isEnding = true) (tokens behind : List Token) :
    closed (tokens ++ ending :: behind) = tokens ++ ending :: (behind ++ closing behind) := by
  rw [closed, closing, List.getLast?_append, List.getLast?_cons]
  cases last : behind.getLast? with
  | none => simp [List.getLast?_eq_none_iff.mp last, ended]
  | some token =>
    cases ends : token.isEnding with
    | true => simp [ends]
    | false => simp [ends]

section Behind

variable {ending : Token}

private theorem takeWhile_behind (ended : ending.isEnding = true) (tokens behind : List Token) :
    (tokens ++ ending :: behind).takeWhile (!·.isEnding) = tokens.takeWhile (!·.isEnding) := by
  induction tokens with
  | nil => simp [ended]
  | cons token others ih =>
    cases ends : token.isEnding with
    | true => simp [ends]
    | false => simp [ends, ih]

private theorem dropWhile_behind (ended : ending.isEnding = true) (tokens : List Token) :
    ∃ first others, ∀ behind, (tokens ++ ending :: behind).dropWhile (!·.isEnding) = first :: (others ++ behind) := by
  induction tokens with
  | nil => exact ⟨ending, [], fun behind => by simp [ended]⟩
  | cons token tokens ih =>
    cases ends : token.isEnding with
    | true => exact ⟨token, tokens ++ [ending], fun behind => by simp [ends]⟩
    | false =>
      obtain ⟨first, others, dropped⟩ := ih
      exact ⟨first, others, fun behind => by simp [ends, dropped]⟩

/-- The tokens behind an end-of-input token are never looked at. -/
theorem parse_behind (ended : ending.isEnding = true) (tokens behind : List Token) :
    parse (tokens ++ ending :: behind) = extended (behind ++ closing behind) (parse (tokens ++ [ending])) := by
  obtain ⟨first, others, dropped⟩ := dropWhile_behind ended tokens
  have alone := closed_behind ended tokens []
  rw [parse, parse, closed_behind ended, alone, takeWhile_behind ended, takeWhile_behind ended, dropped, dropped]
  simp only [List.headD_cons]
  cases program first (tokens.takeWhile (!·.isEnding)) with
  | error mismatch => rfl
  | ok pair =>
    obtain ⟨read, left⟩ := pair
    cases left with
    | nil => rfl
    | cons token rest => simp [extended, closing]

end Behind

/-- The cursor keeps to the tokens up to the first end-of-input token, whether there is one, several or none.
It never looks where no token is and never passes that token, at any position it can stand at and in any
production. A production that succeeds has moved it on, so the calls inside one another are at most sixteen
times as deep as there are tokens, and with that the cursor reads the program or refuses it as `parse` does.
The tokens behind an end-of-input token change nothing but what is reported as left over. -/
theorem cursor_keeps_within (tokens : List Token) :
    (∃ tape : Tape, closed tokens = tape.tokens ∧ firstEnding (closed tokens) = tape.code.length ∧
      ∀ fuel, 16 * (closed tokens).length ≤ fuel → tape.Disciplined fuel) ∧
    (∀ fuel, 16 * (closed tokens).length ≤ fuel → run fuel tokens = (parse tokens).mapError .refused) ∧
    ∀ ending behind, ending.isEnding = true →
      parse (tokens ++ ending :: behind) = extended (behind ++ closing behind) (parse (tokens ++ [ending])) := by
  refine ⟨?_, fun fuel enough => run_eq_parse enough, fun ending behind ended => parse_behind ended tokens behind⟩
  obtain ⟨tape, whole, -, -⟩ := exists_tape tokens
  refine ⟨tape, whole, ?_, fun fuel enough => Tape.disciplined ?_⟩
  · rw [whole, tape.firstEnding_tokens]
  · rwa [← whole]

def stray : List Token := [⟨.name "a", 0, 1⟩, ⟨.symbol "=", 2, 1⟩, ⟨.number 1, 4, 1⟩, ⟨.symbol ")", 6, 1⟩]

/-- What is behind an end-of-input token is left over with the parenthesis, and so is the token that closes
it, which here is at the offset to which the end of the last token wraps around. -/
theorem stray_keeps_within :
    16 * (closed (stray ++ Token.ending 7 :: [⟨.name "b", 0xffffffffffffffff, 9⟩])).length ≤ 112 ∧
    run 112 (stray ++ Token.ending 7 :: [⟨.name "b", 0xffffffffffffffff, 9⟩]) =
      .error (.refused (.leftover [.assign "a" (.literal 1)]
        [⟨.symbol ")", 6, 1⟩, Token.ending 7, ⟨.name "b", 0xffffffffffffffff, 9⟩, Token.ending 8])) := by
  have short : 16 * (closed (stray ++ Token.ending 7 :: [⟨.name "b", 0xffffffffffffffff, 9⟩])).length ≤ 112 := by decide
  have alone : parse (stray ++ [Token.ending 7]) =
      .error (.leftover [.assign "a" (.literal 1)] [⟨.symbol ")", 6, 1⟩, Token.ending 7]) := by cbv
  have reads := (cursor_keeps_within (stray ++ Token.ending 7 :: [⟨.name "b", 0xffffffffffffffff, 9⟩])).2.1 112 short
  have behind := (cursor_keeps_within stray).2.2 (Token.ending 7) [⟨.name "b", 0xffffffffffffffff, 9⟩] rfl
  refine ⟨short, ?_⟩
  rw [reads, behind, alone]
  rfl

end Stackwise.Proofs.CursorProgress
