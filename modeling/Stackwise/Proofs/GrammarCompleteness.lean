import Stackwise.Proofs.GrammarSoundness

/-! The productions read whatever has a strict derivation. Each production is followed by a
token that cannot extend what it read, so the first choice it makes is the right one. -/

namespace Stackwise.Proofs.GrammarCompleteness
open Grammar Derivations GrammarSoundness

/-- The next token neither opens the arguments of a call nor links operands in the tiers up
to a height, so it cannot extend a chain of these tiers. -/
def Clear (height : Nat) (tokens : List Token) : Prop :=
  ∀ token, tokens.head? = some token →
    token.is "(" = false ∧ ∀ tier : Tier, tier.height ≤ height → tier.link? token.kind = none

/-- The next token cannot extend an assignment either. -/
def Finished (tokens : List Token) : Prop :=
  Clear 4 tokens ∧ ∀ token, tokens.head? = some token → token.is "=" = false

def Lacks (symbol : String) (tokens : List Token) : Prop :=
  ∀ token, tokens.head? = some token → token.is symbol = false

private theorem Clear.mono {height limit : Nat} {tokens : List Token} (clear : Clear limit tokens)
    (within : height ≤ limit) : Clear height tokens := by
  intro token next
  obtain ⟨unopened, unlinked⟩ := clear token next
  exact ⟨unopened, fun tier low => unlinked tier (Nat.le_trans low within)⟩

theorem finished_of_is {token : Token} {symbol : String} (rest : List Token) (same : token.is symbol)
    (closes : symbol = ";" ∨ symbol = ")" ∨ symbol = ",") : Finished (token :: rest) := by
  have kind : token.kind = .symbol symbol := by simpa [Token.is] using same
  refine ⟨?_, ?_⟩
  · intro other next
    cases next
    refine ⟨?_, fun tier _ => ?_⟩
    · rcases closes with rfl | rfl | rfl <;> simp [Token.is, kind]
    · rw [kind]
      rcases closes with rfl | rfl | rfl <;> cases tier <;> rfl
  · intro other next
    cases next
    rcases closes with rfl | rfl | rfl <;> simp [Token.is, kind]

private theorem clear_of_link {tier : Tier} {token : Token} {link : Link} (rest : List Token)
    (linked : tier.link? token.kind = some link) : Clear (tier.height - 1) (token :: rest) := by
  intro other next
  cases next
  unfold Tier.link? at linked
  split at linked <;> cases linked
  all_goals
    next kind =>
      refine ⟨by simp [Token.is, kind], fun lower low => ?_⟩
      rw [kind]
      cases lower <;> first | rfl | exact absurd low (by decide)

def opens : Phrase → Token → Bool
  | .program _, token | .statement _, token => token.opensStatement
  | .block _, token => token.is "\x7b"
  | .definition _, token => token.is "def"
  | .expression _, token => token.opensExpression || token.kind = .returnWord
  | .primary _, token => token.opensExpression && !token.is "+" && !token.is "-"
  | _, token => token.opensExpression

/-- Only an empty list of statements or arguments is derived from no token, and a first
token is one that the category can begin with. -/
def Starts (phrase : Phrase) (tokens : List Token) : Prop :=
  phrase = .program [] ∨ phrase = .arguments [] ∨
    ∃ token rest, tokens = token :: rest ∧ opens phrase token

theorem starts {strict : Bool} {tokens : List Token} {phrase : Phrase}
    (derived : Derives strict tokens phrase) : Starts phrase tokens := by
  induction derived with
  | empty => exact .inl rfl
  | noArgument => exact .inr (.inl rfl)
  | sequence head tail ih _ | terminated head _ ih | unterminated _ head ih | nested head ih
  | declared head ih | assignment head ih | equality head ih | assign head _ _ ih _
  | assignBlock head _ _ ih _ | relational head ih | equal _ head _ ih _ | unequal _ head _ ih _
  | sum head ih | less _ head _ ih _ | atMost _ head _ ih _ | greater _ head _ ih _
  | atLeast _ head _ ih _ | product head ih | plus _ head _ ih _ | minus _ head _ ih _
  | unary head ih | times _ head _ ih _ | «over» _ head _ ih _ | primary head ih
  | lastArgument head ih | moreArguments head _ _ ih _ =>
    obtain impossible | impossible | ⟨token, rest, rfl, begins⟩ := ih
    · cases impossible
    · cases impossible
    · refine .inr (.inr ⟨token, _, rfl, ?_⟩)
      simp only [opens, Token.opensStatement, Bool.or_eq_true, Bool.and_eq_true] at begins ⊢
      grind
  | conditional begins | alternative begins | braces begins | function begins
  | leave begins | leaveWith begins | positive begins | negative begins | number begins
  | reference begins | call begins | group begins =>
    refine .inr (.inr ⟨_, _, rfl, ?_⟩)
    simp_all [opens, Token.opensStatement, Token.opensExpression, Token.is]

theorem accept?_cons {symbol : String} {token : Token} {rest : List Token} (same : token.is symbol) :
    accept? symbol (token :: rest) = some ⟨rest, Nat.lt_succ_self _⟩ :=
  accept?_eq_some_iff.mpr ⟨token, same, rfl⟩

theorem accept?_eq_none {symbol : String} {tokens : List Token} (lacks : Lacks symbol tokens) :
    accept? symbol tokens = none := by
  cases accepted : accept? symbol tokens with
  | none => rfl
  | some found =>
    obtain ⟨rest, shorter⟩ := found
    obtain ⟨token, same, rfl⟩ := accept?_eq_some_iff.mp accepted
    simp [lacks token rfl] at same

theorem expect_cons {ending : Token} {symbol : String} {token : Token} {rest : List Token}
    (same : token.is symbol) :
    expect ending symbol (token :: rest) = .ok ⟨rest, Nat.lt_succ_self _⟩ :=
  expect_eq_ok_iff.mpr ⟨token, same, rfl⟩

theorem identifier_cons {ending token : Token} {name : String} {rest : List Token}
    (named : token.kind = .name name) :
    identifier ending (token :: rest) = .ok ⟨(name, token), rest, Nat.lt_succ_self _⟩ :=
  identifier_eq_ok_iff.mpr ⟨named, rfl⟩

/-- A token of one kind is no symbol of another. -/
theorem lacks_of_is {symbol other : String} {token : Token} (rest : List Token) (same : token.is symbol)
    (different : symbol ≠ other) : Lacks other (token :: rest) := by
  intro next first
  cases first
  simp_all [Token.is]

theorem lacks_of_opens {symbol : String} {token : Token} (rest : List Token)
    (begins : token.opensExpression) (closed : symbol ≠ "(" ∧ symbol ≠ "+" ∧ symbol ≠ "-") :
    Lacks symbol (token :: rest) := by
  intro next first
  cases first
  simp only [Token.is, Token.opensExpression] at begins ⊢
  split at begins <;> simp_all
  grind

variable (ending : Token)

/-- A chain followed by more links is read as those links behind its term. -/
def Chains (tier : Tier) (term : Term) (tokens : List Token) : Prop :=
  ∀ rest left value, Clear (tier.height - 1) rest → Yields (chainFrom ending tier term rest) value left →
    Yields (chain ending tier (tokens ++ rest)) value left

/-- The tokens are read as the phrase in front of whatever cannot extend them. -/
def Reads : Phrase → List Token → Prop
  | .program body, tokens =>
    program ending tokens = .ok (body, []) ∧ ∀ closing rest, closing.is "\x7d" →
      Yields (blockBody ending (tokens ++ closing :: rest)) body rest
  | .statement term, tokens => ∀ rest, (endsOpen term → Lacks "else" rest) →
    Yields (statement ending (tokens ++ rest)) term rest
  | .block body, tokens => ∃ opening inner, tokens = opening :: inner ∧ opening.is "\x7b" ∧
    ∀ rest, Yields (blockBody ending (inner ++ rest)) body rest
  | .definition term, tokens => ∃ word inner, tokens = word :: inner ∧ word.is "def" ∧
    ∀ rest, Yields (definition ending (inner ++ rest)) term rest
  | .expression term, tokens => ∀ rest, Finished rest → atExpression rest = false →
    Yields (expression ending (tokens ++ rest)) term rest
  | .assignment term, tokens => ∀ rest, Finished rest → Yields (assignment ending (tokens ++ rest)) term rest
  | .equality term, tokens => Chains ending .equality term tokens
  | .relational term, tokens => Chains ending .comparison term tokens
  | .sum term, tokens => Chains ending .sum term tokens
  | .product term, tokens => Chains ending .product term tokens
  | .unary term, tokens => ∀ rest, Clear 0 rest → Yields (unary ending (tokens ++ rest)) term rest
  | .primary term, tokens => ∀ rest, Clear 0 rest → Yields (primary ending (tokens ++ rest)) term rest
  | .arguments [], tokens => tokens = []
  | .arguments values, tokens => ∀ closing rest count, closing.is ")" → count + values.length ≤ 6 →
    Yields (argumentList ending count (tokens ++ closing :: rest)) values rest

variable {ending}

theorem acceptLink?_eq_none {tier : Tier} {tokens : List Token} (clear : Clear tier.height tokens) :
    tier.acceptLink? tokens = none := by
  cases accepted : tier.acceptLink? tokens with
  | none => rfl
  | some found =>
    obtain ⟨link, rest, shorter⟩ := found
    obtain ⟨token, linked, rfl⟩ := acceptLink?_eq_some_iff.mp accepted
    simp [(clear token rfl).2 tier (Nat.le_refl _)] at linked

theorem acceptLink?_cons {tier : Tier} {link : Link} {token : Token} {rest : List Token}
    (linked : tier.link? token.kind = some link) :
    tier.acceptLink? (token :: rest) = some (link, ⟨rest, Nat.lt_succ_self _⟩) :=
  acceptLink?_eq_some_iff.mpr ⟨token, linked, rfl⟩

theorem Chains.read {tier : Tier} {term : Term} {tokens rest : List Token}
    (chains : Chains ending tier term tokens) (clear : Clear tier.height rest) :
    Yields (chain ending tier (tokens ++ rest)) term rest := by
  apply chains rest rest term (clear.mono (Nat.sub_le _ _))
  rw [chainFrom, acceptLink?_eq_none clear]
  exact yields_pure.mpr ⟨rfl, rfl⟩

theorem operand_of_reads {tier : Tier} {term : Term} {tokens rest : List Token}
    (reads : Reads ending (inside tier term) tokens) (clear : Clear (tier.height - 1) rest) :
    Yields (operand ending tier (tokens ++ rest)) term rest := by
  cases tier with
  | equality => rw [operand]; exact Chains.read reads clear
  | comparison => rw [operand]; exact Chains.read reads clear
  | sum => rw [operand]; exact Chains.read reads clear
  | product => rw [operand]; exact reads rest clear

private theorem chains_operand (tier : Tier) {term : Term} {tokens : List Token}
    (reads : Reads ending (inside tier term) tokens) : Chains ending tier term tokens := by
  intro rest left value clear extended
  obtain ⟨shorter, first⟩ := operand_of_reads reads clear
  obtain ⟨fewer, links⟩ := extended
  rw [chain]
  refine yields_bind.mpr ⟨_, first, yields_bind.mpr ⟨_, links, yields_pure.mpr ⟨rfl, rfl⟩⟩⟩

private theorem chains_join (tier : Tier) (link : Link) {symbol : String} {token : Token}
    {front back : List Token} {left right : Term} (links : tier.link? (.symbol symbol) = some link)
    (same : token.is symbol) (first : Chains ending tier left front)
    (second : Reads ending (inside tier right) back) :
    Chains ending tier (link.join left right) (front ++ token :: back) := by
  intro rest remaining value clear extended
  have linked : tier.link? token.kind = some link := by
    rw [show token.kind = .symbol symbol by simpa [Token.is] using same, links]
  obtain ⟨shorter, operand⟩ := operand_of_reads second clear
  obtain ⟨fewer, links⟩ := extended
  rw [List.append_assoc, List.cons_append]
  apply first _ _ _ (clear_of_link _ linked)
  rw [chainFrom, acceptLink?_cons linked]
  refine yields_bind.mpr ⟨_, operand, yields_bind.mpr ⟨_, links, yields_pure.mpr ⟨rfl, rfl⟩⟩⟩

theorem lacks_of_kind {symbol : String} {token : Token} (rest : List Token)
    (different : token.kind ≠ .symbol symbol) : Lacks symbol (token :: rest) := by
  intro next first
  cases first
  simpa [Token.is] using different

private theorem reads_number {token : Token} {value : Int64} (numeral : token.kind = .number value) :
    Reads ending (.primary (.literal value)) [token] := by
  intro rest _
  rw [List.singleton_append, primary, accept?_eq_none (lacks_of_kind rest (by simp [numeral]))]
  simp only [next?, numeral]
  exact yields_pure.mpr ⟨rfl, rfl⟩

private theorem reads_reference {token : Token} {name : String} (named : token.kind = .name name) :
    Reads ending (.primary (.var name)) [token] := by
  intro rest clear
  have unopened : Lacks "(" rest := fun next first => (clear next first).1
  rw [List.singleton_append, primary, accept?_eq_none (lacks_of_kind rest (by simp [named]))]
  simp only [next?, named, accept?_eq_none unopened]
  exact yields_pure.mpr ⟨rfl, rfl⟩

private theorem reads_group {opening closing : Token} {tokens : List Token} {term : Term}
    (opened : opening.is "(") (inner : Reads ending (.expression term) tokens) (closed : closing.is ")") :
    Reads ending (.primary term) (opening :: (tokens ++ [closing])) := by
  intro rest _
  have stops : atExpression (closing :: rest) = false := by
    simp_all [atExpression, Token.opensExpression, Token.is]
  obtain ⟨shorter, read⟩ := inner (closing :: rest) (finished_of_is rest closed (by simp)) stops
  rw [List.cons_append, List.append_assoc, List.singleton_append, primary, accept?_cons opened]
  exact yields_bind.mpr ⟨_, read, yields_bind.mpr ⟨_, expect_cons closed, yields_pure.mpr ⟨rfl, rfl⟩⟩⟩

private theorem reads_arguments {strict : Bool} {tokens : List Token} {values : List Term} {closing : Token}
    (rest : List Token) (derived : Derives strict tokens (.arguments values)) (reads : Reads ending (.arguments values) tokens)
    (few : values.length ≤ 6) (closed : closing.is ")") :
    Yields (arguments ending (tokens ++ closing :: rest)) values rest := by
  cases values with
  | nil =>
    obtain rfl : tokens = [] := reads
    rw [List.nil_append, arguments, accept?_cons closed]
    exact yields_pure.mpr ⟨rfl, rfl⟩
  | cons value others =>
    obtain impossible | impossible | ⟨token, further, rfl, begins⟩ := starts derived
    · cases impossible
    · cases impossible
    · rw [arguments, List.cons_append, accept?_eq_none (lacks_of_opens _ begins (by decide))]
      exact reads closing rest 0 closed (by simpa using few)

private theorem reads_call {strict : Bool} {naming opening closing : Token} {tokens : List Token} {name : String}
    {values : List Term} (named : naming.kind = .name name)
    (callable : Assembly.isReserved name = false) (opened : opening.is "(")
    (derived : Derives strict tokens (.arguments values)) (reads : Reads ending (.arguments values) tokens)
    (few : values.length ≤ 6) (closed : closing.is ")") :
    Reads ending (.primary (.call name (numbered values))) (naming :: opening :: (tokens ++ [closing])) := by
  intro rest _
  obtain ⟨shorter, read⟩ := reads_arguments rest derived reads few closed
  rw [List.cons_append, List.cons_append, List.append_assoc, List.singleton_append, primary,
    accept?_eq_none (lacks_of_kind _ (by simp [named]))]
  simp only [next?, named, accept?_cons opened]
  have checked : checkCallable name naming = .ok () := by simp [checkCallable, callable]
  rw [← invoke_eq_call]
  exact yields_bind.mpr ⟨_, checked, yields_bind.mpr ⟨_, read, yields_pure.mpr ⟨rfl, rfl⟩⟩⟩

private theorem reads_unary {strict : Bool} {tokens : List Token} {term : Term}
    (derived : Derives strict tokens (.primary term)) (reads : Reads ending (.primary term) tokens) :
    Reads ending (.unary term) tokens := by
  intro rest clear
  obtain impossible | impossible | ⟨token, further, rfl, begins⟩ := starts derived
  · cases impossible
  · cases impossible
  · simp only [opens, Bool.and_eq_true, Bool.not_eq_true'] at begins
    have positive : Lacks "+" (token :: (further ++ rest)) := by
      rintro next first
      cases first
      exact begins.1.2
    have negative : Lacks "-" (token :: (further ++ rest)) := by
      rintro next first
      cases first
      exact begins.2
    rw [List.cons_append, unary, accept?_eq_none positive]
    simp only [accept?_eq_none negative]
    exact reads rest clear

private theorem reads_positive {sign : Token} {tokens : List Token} {term : Term} (symbol : sign.is "+")
    (reads : Reads ending (.primary term) tokens) : Reads ending (.unary term) (sign :: tokens) := by
  intro rest clear
  obtain ⟨shorter, read⟩ := reads rest clear
  rw [List.cons_append, unary, accept?_cons symbol]
  exact yields_bind.mpr ⟨_, read, yields_pure.mpr ⟨rfl, rfl⟩⟩

private theorem reads_negative {sign : Token} {tokens : List Token} {term : Term} (symbol : sign.is "-")
    (reads : Reads ending (.primary term) tokens) :
    Reads ending (.unary (.apply .minus (.literal 0) term)) (sign :: tokens) := by
  intro rest clear
  obtain ⟨shorter, read⟩ := reads rest clear
  rw [List.cons_append, unary, accept?_eq_none (lacks_of_is _ symbol (by decide))]
  simp only [accept?_cons symbol]
  exact yields_bind.mpr ⟨_, read, yields_pure.mpr ⟨rfl, rfl⟩⟩

private theorem reads_equality {tokens : List Token} {term : Term} (reads : Reads ending (.equality term) tokens) :
    Reads ending (.assignment term) tokens := by
  intro rest finished
  obtain ⟨shorter, read⟩ := Chains.read reads finished.1
  rw [assignment]
  refine yields_bind.mpr ⟨_, read, ?_⟩
  simp only [accept?_eq_none finished.2]
  exact yields_pure.mpr ⟨rfl, rfl⟩

/-- The equals sign ends the chain in front of it. -/
theorem clear_of_equals {mark : Token} (rest : List Token) (equals : mark.is "=") : Clear 4 (mark :: rest) := by
  intro token next
  cases next
  have kind : mark.kind = .symbol "=" := by simpa [Token.is] using equals
  refine ⟨by simp [Token.is, kind], fun tier _ => ?_⟩
  rw [kind]
  cases tier <;> rfl

private theorem reads_assign {strict : Bool} {mark : Token} {front back : List Token} {name : String} {value : Term}
    (assigned : Reads ending (.equality (.var name)) front) (equals : mark.is "=")
    (derived : Derives strict back (.assignment value)) (inner : Reads ending (.assignment value) back) :
    Reads ending (.assignment (.assign name value)) (front ++ mark :: back) := by
  intro rest finished
  obtain ⟨shorter, target⟩ := Chains.read assigned (clear_of_equals (back ++ rest) equals)
  obtain ⟨fewer, read⟩ := inner rest finished
  obtain impossible | impossible | ⟨token, further, rfl, begins⟩ := starts derived
  · cases impossible
  · cases impossible
  · rw [List.append_assoc, List.cons_append, assignment]
    refine yields_bind.mpr ⟨_, target, ?_⟩
    simp only [accept?_cons equals]
    have unbraced : Lacks "\x7b" (token :: (further ++ rest)) := lacks_of_opens _ begins (by decide)
    simp only [List.cons_append] at read ⊢
    simp only [accept?_eq_none unbraced]
    exact yields_bind.mpr ⟨_, read, yields_pure.mpr ⟨rfl, rfl⟩⟩

private theorem reads_assignBlock {mark : Token} {front back : List Token} {name : String} {body : List Term}
    (assigned : Reads ending (.equality (.var name)) front) (equals : mark.is "=")
    (inner : Reads ending (.block body) back) :
    Reads ending (.assignment (.assign name (.block body))) (front ++ mark :: back) := by
  intro rest _
  obtain ⟨shorter, target⟩ := Chains.read assigned (clear_of_equals (back ++ rest) equals)
  obtain ⟨opening, tokens, rfl, opened, inside⟩ := inner
  obtain ⟨fewer, read⟩ := inside rest
  rw [List.append_assoc, List.cons_append, assignment]
  refine yields_bind.mpr ⟨_, target, ?_⟩
  simp only [accept?_cons equals]
  simp only [List.cons_append, accept?_cons opened]
  exact yields_bind.mpr ⟨_, read, yields_pure.mpr ⟨rfl, rfl⟩⟩

private theorem reads_lastArgument {tokens : List Token} {value : Term}
    (inner : Reads ending (.assignment value) tokens) : Reads ending (.arguments [value]) tokens := by
  intro closing rest count closed few
  obtain ⟨shorter, read⟩ := inner (closing :: rest) (finished_of_is rest closed (by simp))
  have room : count ≠ maxArguments := by simp only [List.length_singleton, maxArguments] at few ⊢; omega
  have last : Lacks "," (closing :: rest) := lacks_of_is rest closed (by decide)
  rw [argumentList, if_neg room]
  refine yields_bind.mpr ⟨_, read, ?_⟩
  simp only [accept?_eq_none last]
  exact yields_bind.mpr ⟨_, expect_cons closed, yields_pure.mpr ⟨rfl, rfl⟩⟩

private theorem reads_moreArguments {comma : Token} {front back : List Token} {value next : Term}
    {others : List Term} (head : Reads ending (.assignment value) front) (separated : comma.is ",")
    (tail : Reads ending (.arguments (next :: others)) back) :
    Reads ending (.arguments (value :: next :: others)) (front ++ comma :: back) := by
  intro closing rest count closed few
  simp only [List.length_cons] at few
  obtain ⟨shorter, read⟩ :=
    head (comma :: (back ++ closing :: rest)) (finished_of_is _ separated (by simp))
  obtain ⟨fewer, further⟩ := tail closing rest (count + 1) closed (by simp only [List.length_cons]; omega)
  have room : count ≠ maxArguments := by simp only [maxArguments]; omega
  rw [List.append_assoc, List.cons_append, argumentList, if_neg room]
  refine yields_bind.mpr ⟨_, read, ?_⟩
  simp only [accept?_cons separated]
  exact yields_bind.mpr ⟨_, further, yields_pure.mpr ⟨rfl, rfl⟩⟩

private theorem reads_leave {word : Token} (begins : word.kind = .returnWord) :
    Reads ending (.expression (.leave none)) [word] := by
  intro rest _ stops
  have accepted : acceptKind? .returnWord (word :: rest) = some ⟨rest, Nat.lt_succ_self _⟩ :=
    acceptKind?_eq_some_iff.mpr ⟨word, begins, rfl⟩
  rw [List.singleton_append, expression, accepted]
  simp only [stops]
  exact yields_pure.mpr ⟨rfl, rfl⟩

private theorem reads_leaveWith {strict : Bool} {word : Token} {tokens : List Token} {term : Term}
    (begins : word.kind = .returnWord) (derived : Derives strict tokens (.assignment term))
    (inner : Reads ending (.assignment term) tokens) :
    Reads ending (.expression (.leave (some term))) (word :: tokens) := by
  intro rest finished _
  obtain ⟨shorter, read⟩ := inner rest finished
  have accepted : acceptKind? .returnWord (word :: (tokens ++ rest)) =
      some ⟨tokens ++ rest, Nat.lt_succ_self _⟩ :=
    acceptKind?_eq_some_iff.mpr ⟨word, begins, rfl⟩
  have follows : atExpression (tokens ++ rest) = true := by
    obtain impossible | impossible | ⟨token, further, rfl, opened⟩ := starts derived
    · cases impossible
    · cases impossible
    · simpa [atExpression, opens] using opened
  rw [List.cons_append, expression, accepted]
  simp only [follows, if_true]
  exact yields_bind.mpr ⟨_, read, yields_pure.mpr ⟨rfl, rfl⟩⟩

private theorem reads_assignment {strict : Bool} {tokens : List Token} {term : Term}
    (derived : Derives strict tokens (.assignment term)) (inner : Reads ending (.assignment term) tokens) :
    Reads ending (.expression term) tokens := by
  intro rest finished _
  have other : acceptKind? .returnWord (tokens ++ rest) = none := by
    obtain impossible | impossible | ⟨token, further, rfl, opened⟩ := starts derived
    · cases impossible
    · cases impossible
    · simp only [opens, Token.opensExpression] at opened
      simp only [List.cons_append, acceptKind?]
      grind
  rw [expression, other]
  exact inner rest finished

/-- A statement that begins with an expression is read as one. -/
theorem reads_terminated {strict : Bool} {tokens : List Token} {mark : Token} {term : Term}
    (derived : Derives strict tokens (.expression term)) (inner : Reads ending (.expression term) tokens)
    (ended : mark.is ";") : Reads ending (.statement term) (tokens ++ [mark]) := by
  intro rest _
  have stops : atExpression (mark :: rest) = false := by
    simp_all [atExpression, Token.opensExpression, Token.is]
  obtain ⟨shorter, read⟩ := inner (mark :: rest) (finished_of_is rest ended (by simp)) stops
  have other {symbol : String} (word : symbol = "if" ∨ symbol = "\x7b" ∨ symbol = "def") :
      Lacks symbol (tokens ++ mark :: rest) := by
    obtain impossible | impossible | ⟨token, further, rfl, opened⟩ := starts derived
    · cases impossible
    · cases impossible
    · rintro next first
      cases first
      simp only [opens, Token.opensExpression] at opened
      simp only [Token.is]
      grind
  rw [List.append_assoc, List.singleton_append, statement, accept?_eq_none (other (by simp))]
  simp only [accept?_eq_none (other (.inr (.inl rfl))), accept?_eq_none (other (.inr (.inr rfl)))]
  refine yields_bind.mpr ⟨_, read, yields_pure.mpr ⟨rfl, ?_⟩⟩
  simp [skip, accept?_cons ended]

private theorem reads_nested {tokens : List Token} {body : List Term} (inner : Reads ending (.block body) tokens) :
    Reads ending (.statement (.block body)) tokens := by
  intro rest _
  obtain ⟨opening, inside, rfl, opened, reads⟩ := inner
  obtain ⟨shorter, read⟩ := reads rest
  have other : Lacks "if" (opening :: (inside ++ rest)) := lacks_of_is _ opened (by decide)
  rw [List.cons_append, statement, accept?_eq_none other]
  simp only [accept?_cons opened]
  exact yields_bind.mpr ⟨_, read, yields_pure.mpr ⟨rfl, rfl⟩⟩

private theorem reads_declared {tokens : List Token} {term : Term} (inner : Reads ending (.definition term) tokens) :
    Reads ending (.statement term) tokens := by
  intro rest _
  obtain ⟨word, inside, rfl, begins, reads⟩ := inner
  obtain ⟨shorter, read⟩ := reads rest
  have noIf : Lacks "if" (word :: (inside ++ rest)) := lacks_of_is _ begins (by decide)
  have noBrace : Lacks "\x7b" (word :: (inside ++ rest)) := lacks_of_is _ begins (by decide)
  rw [List.cons_append, statement, accept?_eq_none noIf]
  simp only [accept?_eq_none noBrace, accept?_cons begins]
  exact yields_bind.mpr ⟨_, read, yields_pure.mpr ⟨rfl, rfl⟩⟩

theorem yields_statement_if {word : Token} {tokens rest : List Token} {term : Term}
    (begins : word.is "if") (read : Yields (conditional ending tokens) term rest) :
    Yields (statement ending (word :: tokens)) term rest := by
  obtain ⟨_, read⟩ := read
  rw [statement, accept?_cons begins]
  exact yields_bind.mpr ⟨_, read, yields_pure.mpr ⟨rfl, rfl⟩⟩

private theorem reads_conditional {word opening closing : Token} {tested chosen : List Token}
    {test accepted : Term} (begins : word.is "if") (opened : opening.is "(")
    (condition : Reads ending (.expression test) tested) (closed : closing.is ")")
    (consequence : Reads ending (.statement accepted) chosen) :
    Reads ending (.statement (.branch test accepted none))
      (word :: opening :: (tested ++ closing :: chosen)) := by
  intro rest lacks
  have unfollowed : Lacks "else" rest := lacks rfl
  have stops : atExpression (closing :: (chosen ++ rest)) = false := by
    simp_all [atExpression, Token.opensExpression, Token.is]
  obtain ⟨_, tests⟩ := condition _ (finished_of_is (chosen ++ rest) closed (by simp)) stops
  obtain ⟨_, chooses⟩ := consequence rest fun _ => unfollowed
  have shape : word :: opening :: (tested ++ closing :: chosen) ++ rest =
      word :: opening :: (tested ++ closing :: (chosen ++ rest)) := by simp
  rw [shape]
  apply yields_statement_if begins
  rw [conditional]
  refine yields_bind.mpr ⟨_, expect_cons opened, yields_bind.mpr ⟨_, tests, ?_⟩⟩
  refine yields_bind.mpr ⟨_, expect_cons closed, yields_bind.mpr ⟨_, chooses, ?_⟩⟩
  simp only [accept?_eq_none unfollowed]
  exact yields_pure.mpr ⟨rfl, rfl⟩

private theorem reads_alternative {word opening closing other : Token} {tested chosen left : List Token}
    {test accepted otherwise : Term} (begins : word.is "if") (opened : opening.is "(")
    (condition : Reads ending (.expression test) tested) (closed : closing.is ")")
    (consequence : Reads ending (.statement accepted) chosen) (settled : endsOpen accepted = false)
    (continued : other.is "else") (replacement : Reads ending (.statement otherwise) left) :
    Reads ending (.statement (.branch test accepted (some otherwise)))
      (word :: opening :: (tested ++ closing :: (chosen ++ other :: left))) := by
  intro rest lacks
  have stops : atExpression (closing :: (chosen ++ other :: (left ++ rest))) = false := by
    simp_all [atExpression, Token.opensExpression, Token.is]
  obtain ⟨_, tests⟩ := condition _ (finished_of_is _ closed (by simp)) stops
  obtain ⟨_, chooses⟩ := consequence (other :: (left ++ rest)) (by simp [settled])
  obtain ⟨_, replaces⟩ := replacement rest lacks
  have shape : word :: opening :: (tested ++ closing :: (chosen ++ other :: left)) ++ rest =
      word :: opening :: (tested ++ closing :: (chosen ++ other :: (left ++ rest))) := by simp
  rw [shape]
  apply yields_statement_if begins
  rw [conditional]
  refine yields_bind.mpr ⟨_, expect_cons opened, yields_bind.mpr ⟨_, tests, ?_⟩⟩
  refine yields_bind.mpr ⟨_, expect_cons closed, yields_bind.mpr ⟨_, chooses, ?_⟩⟩
  simp only [accept?_cons continued]
  exact yields_bind.mpr ⟨_, replaces, yields_pure.mpr ⟨rfl, rfl⟩⟩

private theorem reads_braces {opening closing : Token} {tokens : List Token} {body : List Term}
    (opened : opening.is "\x7b") (inner : Reads ending (.program body) tokens)
    (closed : closing.is "\x7d") : Reads ending (.block body) (opening :: (tokens ++ [closing])) := by
  refine ⟨opening, tokens ++ [closing], rfl, opened, fun rest => ?_⟩
  rw [List.append_assoc, List.singleton_append]
  exact inner.2 closing rest closed

private theorem yields_parameterList {earlier names : List String} {listed : List Token} {closing : Token}
    (rest : List Token) (derived : Names listed names) (few : (earlier ++ names).length ≤ 6)
    (distinct : (earlier ++ names).Nodup) (closed : closing.is ")") :
    Yields (parameterList ending earlier (listed ++ closing :: rest)) names rest := by
  induction derived generalizing earlier with
  | @last token name named =>
    have room : ¬ maxArguments ≤ earlier.length := by simp [maxArguments] at few ⊢; omega
    have fresh : name ∉ earlier := by
      rw [List.nodup_append] at distinct
      exact fun member => distinct.2.2 name member name (by simp) rfl
    have final : Lacks "," (closing :: rest) := lacks_of_is rest closed (by decide)
    rw [List.singleton_append, parameterList]
    refine yields_bind.mpr ⟨_, identifier_cons named, ?_⟩
    simp only [room, fresh, if_false, accept?_eq_none final]
    exact yields_bind.mpr ⟨_, expect_cons closed, yields_pure.mpr ⟨rfl, rfl⟩⟩
  | @more token comma listed name names named separated others ih =>
    have room : ¬ maxArguments ≤ earlier.length := by simp [maxArguments] at few ⊢; omega
    have fresh : name ∉ earlier := by
      rw [List.nodup_append] at distinct
      exact fun member => distinct.2.2 name member name (by simp) rfl
    obtain ⟨_, read⟩ := @ih (earlier ++ [name]) (by simpa using few) (by simpa using distinct)
    rw [List.cons_append, List.cons_append, parameterList]
    refine yields_bind.mpr ⟨_, identifier_cons named, ?_⟩
    simp only [room, fresh, if_false, accept?_cons separated]
    exact yields_bind.mpr ⟨_, read, yields_pure.mpr ⟨rfl, rfl⟩⟩

theorem yields_parameters {names : List String} {listed : List Token} {closing : Token}
    (rest : List Token) (derived : Parameters listed names) (few : names.length ≤ 6)
    (distinct : names.Nodup) (closed : closing.is ")") :
    Yields (parameters ending (listed ++ closing :: rest)) names rest := by
  unfold parameters
  obtain ⟨rfl, rfl⟩ | derived := derived
  · rw [List.nil_append, accept?_cons closed]
    exact yields_pure.mpr ⟨rfl, rfl⟩
  · have named : Lacks ")" (listed ++ closing :: rest) := by
      cases derived with
      | last named => exact lacks_of_kind _ (by simp [named])
      | more named => exact lacks_of_kind _ (by simp [named])
    rw [accept?_eq_none named]
    exact yields_parameterList rest derived few distinct closed

private theorem reads_function {word naming opening closing : Token} {listed tokens : List Token} {name : String}
    {parameters : List String} {body : List Term} (begins : word.is "def")
    (named : naming.kind = .name name) (callable : Assembly.isReserved name = false)
    (opened : opening.is "(") (parametric : Parameters listed parameters) (few : parameters.length ≤ 6)
    (distinct : parameters.Nodup) (closed : closing.is ")") (inner : Reads ending (.block body) tokens) :
    Reads ending (.definition (.function name parameters body))
      (word :: naming :: opening :: (listed ++ closing :: tokens)) := by
  refine ⟨word, _, rfl, begins, fun rest => ?_⟩
  obtain ⟨brace, inside, rfl, braced, reads⟩ := inner
  obtain ⟨_, read⟩ := reads rest
  obtain ⟨_, lists⟩ := yields_parameters (brace :: (inside ++ rest)) parametric few distinct closed
  have checked : checkCallable name naming = .ok () := by simp [checkCallable, callable]
  have shape : naming :: opening :: (listed ++ closing :: brace :: inside) ++ rest =
      naming :: opening :: (listed ++ closing :: brace :: (inside ++ rest)) := by simp
  rw [shape, definition]
  refine yields_bind.mpr ⟨_, identifier_cons named, yields_bind.mpr ⟨_, checked, ?_⟩⟩
  refine yields_bind.mpr ⟨_, expect_cons opened, yields_bind.mpr ⟨_, lists, ?_⟩⟩
  refine yields_bind.mpr ⟨_, expect_cons braced, yields_bind.mpr ⟨_, read, ?_⟩⟩
  exact yields_pure.mpr ⟨rfl, rfl⟩

theorem reads_empty : Reads ending (.program []) [] := by
  refine ⟨by simp [program, atStatement, pure, Except.pure], fun closing rest closed => ?_⟩
  rw [List.nil_append, blockBody, accept?_cons closed]
  exact yields_pure.mpr ⟨rfl, rfl⟩

private theorem tokens_of_empty {strict : Bool} {tokens : List Token}
    (derived : Derives strict tokens (.program [])) : tokens = [] := by
  cases derived
  rfl

/-- A further statement is no alternative of the statement in front of it. -/
theorem lacks_else_of_program {strict : Bool} {tokens : List Token} {body : List Term}
    (rest : List Token) (derived : Derives strict tokens (.program body)) (closed : tokens = [] → Lacks "else" rest) :
    Lacks "else" (tokens ++ rest) := by
  cases tokens with
  | nil => exact closed rfl
  | cons token further =>
    rintro next first
    cases first
    obtain same | impossible | ⟨token, further, same, begins⟩ := starts derived
    · cases same
      cases tokens_of_empty derived
    · cases impossible
    · cases same
      simp only [opens, Token.opensStatement, Token.opensExpression, Token.is] at begins ⊢
      grind

private theorem reads_sequence {strict : Bool} {first rest : List Token} {statement : Term} {body : List Term}
    (derived : Derives strict first (.statement statement)) (head : Reads ending (.statement statement) first)
    (following : Derives strict rest (.program body)) (tail : Reads ending (.program body) rest) :
    Reads ending (.program (statement :: body)) (first ++ rest) := by
  obtain impossible | impossible | ⟨token, further, rfl, begins⟩ := starts derived
  · cases impossible
  · cases impossible
  refine ⟨?_, fun closing left closed => ?_⟩
  · have unfollowed : Lacks "else" rest := by
      simpa using lacks_else_of_program [] following (by intro _ _ none; cases none)
    obtain ⟨shorter, read⟩ := head rest fun _ => unfollowed
    have begun : atStatement (token :: further ++ rest) = true := by
      simpa [atStatement, opens] using begins
    rw [program, if_pos begun]
    exact bind_eq_ok.mpr ⟨_, read, bind_eq_ok.mpr ⟨_, tail.1, rfl⟩⟩
  · have unfollowed : Lacks "else" (rest ++ closing :: left) :=
      lacks_else_of_program _ following fun _ => lacks_of_is left closed (by decide)
    obtain ⟨shorter, read⟩ := head (rest ++ closing :: left) fun _ => unfollowed
    obtain ⟨fewer, others⟩ := tail.2 closing left closed
    have unclosed : Lacks "\x7d" (token :: further ++ (rest ++ closing :: left)) := by
      rintro next same
      cases same
      simp only [opens, Token.opensStatement, Token.opensExpression, Token.is] at begins ⊢
      grind
    rw [List.append_assoc, blockBody, accept?_eq_none unclosed]
    simp only [List.cons_append, List.isEmpty_cons]
    exact yields_bind.mpr ⟨_, read, yields_bind.mpr ⟨_, others, yields_pure.mpr ⟨rfl, rfl⟩⟩⟩

/-- Every strict derivation is what the productions read. The induction is on the
derivation; a chain is read from its first operand on, which is why its case says what
happens to the links that follow. -/
theorem reads {tokens : List Token} {phrase : Phrase} (derived : Derives true tokens phrase) :
    Reads ending phrase tokens := by
  induction derived with
  | empty => exact reads_empty
  | sequence head tail first rest => exact reads_sequence head first tail rest
  | conditional begins opened _ closed _ test accepted =>
    exact reads_conditional begins opened test closed accepted
  | alternative begins opened _ closed _ settled continued _ test accepted otherwise =>
    exact reads_alternative begins opened test closed accepted (settled rfl) continued otherwise
  | nested _ inner => exact reads_nested inner
  | declared _ inner => exact reads_declared inner
  | terminated derived ended inner => exact reads_terminated derived inner ended
  | unterminated lenient => cases lenient
  | braces opened _ closed inner => exact reads_braces opened inner closed
  | function begins named callable opened parametric few distinct closed _ inner =>
    exact reads_function begins named callable opened parametric few distinct closed inner
  | leave begins => exact reads_leave begins
  | leaveWith begins derived inner => exact reads_leaveWith begins derived inner
  | assignment derived inner => exact reads_assignment derived inner
  | equality _ inner => exact reads_equality inner
  | assign _ equals derived assigned inner => exact reads_assign assigned equals derived inner
  | assignBlock _ equals _ assigned inner => exact reads_assignBlock assigned equals inner
  | relational _ inner => exact chains_operand .equality inner
  | sum _ inner => exact chains_operand .comparison inner
  | product _ inner => exact chains_operand .sum inner
  | unary _ inner => exact chains_operand .product inner
  | primary derived inner => exact reads_unary derived inner
  | positive symbol _ inner => exact reads_positive symbol inner
  | negative symbol _ inner => exact reads_negative symbol inner
  | number numeral => exact reads_number numeral
  | reference named => exact reads_reference named
  | call named callable opened derived few closed inner =>
    exact reads_call named callable opened derived inner few closed
  | group opened _ closed inner => exact reads_group opened inner closed
  | noArgument => rfl
  | lastArgument _ inner => exact reads_lastArgument inner
  | moreArguments _ separated _ head tail => exact reads_moreArguments head separated tail
  | equal symbol _ _ first second => exact chains_join .equality ⟨.equal, false⟩ rfl symbol first second
  | unequal symbol _ _ first second => exact chains_join .equality ⟨.unequal, false⟩ rfl symbol first second
  | less symbol _ _ first second => exact chains_join .comparison ⟨.less, false⟩ rfl symbol first second
  | atMost symbol _ _ first second => exact chains_join .comparison ⟨.atMost, false⟩ rfl symbol first second
  | greater symbol _ _ first second => exact chains_join .comparison ⟨.less, true⟩ rfl symbol first second
  | atLeast symbol _ _ first second => exact chains_join .comparison ⟨.atMost, true⟩ rfl symbol first second
  | plus symbol _ _ first second => exact chains_join .sum ⟨.plus, false⟩ rfl symbol first second
  | minus symbol _ _ first second => exact chains_join .sum ⟨.minus, false⟩ rfl symbol first second
  | times symbol _ _ first second => exact chains_join .product ⟨.times, false⟩ rfl symbol first second
  | «over» symbol _ _ first second => exact chains_join .product ⟨.over, false⟩ rfl symbol first second

private theorem takeWhile_closed (tokens : List Token) :
    (closed tokens).takeWhile (!·.isEnding) = tokens.takeWhile (!·.isEnding) := by
  unfold closed
  cases last : tokens.getLast? with
  | none =>
    rw [List.getLast?_eq_none_iff] at last
    subst last
    rfl
  | some token =>
    simp only
    split
    · rfl
    · rw [List.takeWhile_append]
      split
      next whole =>
        have all : tokens.takeWhile (!·.isEnding) = tokens :=
          (List.takeWhile_prefix _).eq_of_length whole
        have ends : token.closing.isEnding = true := rfl
        simp [all, ends]
      next => rfl

/-- Reading succeeds when the statements use up the tokens in front of the first
end-of-input token. -/
theorem parse_eq_ok_iff {tokens : List Token} {body : List Term} :
    parse tokens = .ok body ↔
      program (((closed tokens).dropWhile (!·.isEnding)).headD (Token.ending 0))
        (tokens.takeWhile (!·.isEnding)) = .ok (body, []) := by
  simp only [parse, takeWhile_closed]
  split
  · simp_all
  · simp_all
  · next read left _ => simp_all

/-- The parser agrees with the grammar. What it accepts is derived from the tokens in front of
the first end-of-input token, and it accepts whatever has a strict derivation from them. -/
theorem parse_agrees_with_grammar (tokens : List Token) (body : List Term) :
    (parse tokens = .ok body → Derives false (tokens.takeWhile (!·.isEnding)) (.program body)) ∧
    (Derives true (tokens.takeWhile (!·.isEnding)) (.program body) → parse tokens = .ok body) := by
  refine ⟨fun accepted => ?_, fun derived => parse_eq_ok_iff.mpr (reads derived).1⟩
  obtain ⟨used, same, derived⟩ := program_sound (parse_eq_ok_iff.mp accepted)
  rw [same, List.append_nil]
  exact derived

/-- The tokens of `a > 1;` with spans that fit no source and a token behind the end. -/
def reversedComparison : List Token :=
  [⟨.name "a", 7, 0⟩, ⟨.symbol ">", 0, 3⟩, ⟨.number 1, 2, 9⟩, ⟨.symbol ";", 1, 1⟩, ⟨.endOfInput, 0, 0⟩,
    ⟨.symbol ")", 0, 0⟩]

theorem parse_reversedComparison :
    parse reversedComparison = .ok [.apply .less (.literal 1) (.var "a")] ∧
    Derives false (reversedComparison.takeWhile (!·.isEnding))
      (.program [.apply .less (.literal 1) (.var "a")]) := by
  have left : Derives true [⟨.name "a", 7, 0⟩] (.relational (.var "a")) :=
    .sum (.product (.unary (.primary (.reference rfl))))
  have right : Derives true [⟨.number 1, 2, 9⟩] (.sum (.literal 1)) :=
    .product (.unary (.primary (.number rfl)))
  have compared : Derives true [⟨.name "a", 7, 0⟩, ⟨.symbol ">", 0, 3⟩, ⟨.number 1, 2, 9⟩]
      (.relational (.apply .less (.literal 1) (.var "a"))) := .greater rfl left right
  have ended : Derives true [⟨.name "a", 7, 0⟩, ⟨.symbol ">", 0, 3⟩, ⟨.number 1, 2, 9⟩, ⟨.symbol ";", 1, 1⟩]
      (.statement (.apply .less (.literal 1) (.var "a"))) :=
    .terminated (.assignment (.equality (.relational compared))) rfl
  have derived : Derives true (reversedComparison.takeWhile (!·.isEnding))
      (.program [.apply .less (.literal 1) (.var "a")]) := .sequence ended .empty
  have accepted := (parse_agrees_with_grammar reversedComparison _).2 derived
  exact ⟨accepted, (parse_agrees_with_grammar reversedComparison _).1 accepted⟩

end Stackwise.Proofs.GrammarCompleteness
