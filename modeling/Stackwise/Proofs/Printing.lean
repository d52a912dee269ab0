import Mathlib.Data.List.TakeWhile
import Stackwise.Proofs.Formation

/-! Well-formed programs as tokens. A term is printed for the place it stands in, and is put in
parentheses only where that place asks for a tighter construct than the term can be read as.
The printed tokens are read back as the same program, and no tokens that are read as it have
fewer parentheses. -/

namespace Stackwise.Proofs.Printing
open Grammar Derivations GrammarSoundness GrammarCompleteness Formation

/-- The places in which a term can stand, loosest first. -/
inductive Place where
  | statement
  | expression
  | assignment
  | equality
  | comparison
  | sum
  | product
  | unary
  | primary
  deriving DecidableEq

namespace Place

def rank : Place → Nat
  | .statement => 0
  | .expression => 1
  | .assignment => 2
  | .equality => 3
  | .comparison => 4
  | .sum => 5
  | .product => 6
  | .unary => 7
  | .primary => 8

def phrase : Place → Term → Phrase
  | .statement => .statement
  | .expression => .expression
  | .assignment => .assignment
  | .equality => .equality
  | .comparison => .relational
  | .sum => .sum
  | .product => .product
  | .unary => .unary
  | .primary => .primary

def outer : Place → Place
  | .statement => .statement
  | .expression | .assignment => .expression
  | .equality => .assignment
  | .comparison => .equality
  | .sum => .comparison
  | .product => .sum
  | .unary => .product
  | .primary => .unary

end Place

/-- The place of a chain of an operator, which is also that of its first operand. -/
def home : Operator → Place
  | .equal | .unequal => .equality
  | .less | .atMost => .comparison
  | .plus | .minus => .sum
  | .times | .over => .product

def second : Operator → Place
  | .equal | .unequal => .comparison
  | .less | .atMost => .sum
  | .plus | .minus => .product
  | .times | .over => .unary

def spelling : Operator → String
  | .equal => "=="
  | .unequal => "!="
  | .less => "<"
  | .atMost => "<="
  | .plus => "+"
  | .minus => "-"
  | .times => "*"
  | .over => "/"

def reversed : Operator → String
  | .less => ">"
  | _ => ">="

def isComparison : Term → Bool
  | .apply .less _ _ | .apply .atMost _ _ => true
  | _ => false

/-- Whether a comparison is better written from right to left: its right operand is a
comparison, which may only stand in front. -/
def flips (operator : Operator) (left right : Term) : Bool :=
  home operator = .comparison && isComparison right && !isComparison left

/-- Whether a difference can be written with a sign in front of its right operand. -/
def negates (place : Place) (operator : Operator) (left : Term) : Bool :=
  match operator, left with
  | .minus, .literal value => value = 0 && (place = .product || place = .unary)
  | _, _ => false

theorem negates_iff {place : Place} {operator : Operator} {left : Term} :
    negates place operator left ↔
      operator = .minus ∧ left = .literal 0 ∧ (place = .product ∨ place = .unary) := by
  unfold negates
  split
  next value => simp
  next other =>
    constructor
    · simp
    · rintro ⟨rfl, rfl, _⟩
      exact (other 0 rfl rfl).elim

def symbol (text : String) : Token := ⟨.symbol text, 0, 0⟩

def word (name : String) : Token := ⟨.name name, 0, 0⟩

def numeral (value : Int64) : Token := ⟨.number value, 0, 0⟩

def returning : Token := ⟨.returnWord, 0, 0⟩

/-- Whether a construct at home in one place needs parentheses in another. -/
def tooTight (place own : Place) : Bool := own.rank < place.rank

/-- The tokens of a construct that is at home in one place, as they stand in another. -/
def placed (place own : Place) (tokens : List Token) : List Token :=
  if tooTight place own then symbol "(" :: (tokens ++ [symbol ")"])
  else if place = .statement then tokens ++ [symbol ";"]
  else tokens

def braced (tokens : List Token) : List Token := symbol "\x7b" :: (tokens ++ [symbol "\x7d"])

def listed : List String → List Token
  | [] => []
  | [name] => [word name]
  | name :: next :: names => word name :: symbol "," :: listed (next :: names)

mutual

def shown (place : Place) : Term → List Token
  | .literal value => placed place .primary [numeral value]
  | .var name => placed place .primary [word name]
  | .assign target value =>
    placed place .assignment (word target :: symbol "=" :: shown .assignment value)
  | .apply operator left right =>
    if negates place operator left then symbol "-" :: shown .primary right
    else placed place (home operator) <|
      if flips operator left right then
        shown (home operator) right ++ symbol (reversed operator) :: shown (second operator) left
      else shown (home operator) left ++ symbol (spelling operator) :: shown (second operator) right
  | .branch test accepted none =>
    symbol "if" :: symbol "(" :: (shown .expression test ++ symbol ")" :: shown .statement accepted)
  | .branch test accepted (some otherwise) =>
    symbol "if" :: symbol "(" :: (shown .expression test ++ symbol ")" ::
      (shown .statement accepted ++ symbol "else" :: shown .statement otherwise))
  | .leave none => placed place .expression [returning]
  | .leave (some value) => placed place .expression (returning :: shown .assignment value)
  | .block body => braced (printed body)
  | .call callee arguments =>
    placed place .primary (word callee :: symbol "(" :: (shownArguments arguments ++ [symbol ")"]))
  | .function name parameters body =>
    symbol "def" :: word name :: symbol "(" :: (listed parameters ++ symbol ")" :: braced (printed body))

def printed : List Term → List Token
  | [] => []
  | statement :: rest => shown .statement statement ++ printed rest

def shownArguments : List (Nat × Term) → List Token
  | [] => []
  | [(_, value)] => shown .assignment value
  | (_, value) :: next :: rest => shown .assignment value ++ symbol "," :: shownArguments (next :: rest)

end

section Derivation

variable {strict : Bool} {tokens : List Token} {term : Term}

private theorem derives_outer {place : Place} (proper : place ≠ .statement)
    (derived : Derives strict tokens (place.phrase term)) :
    Derives strict tokens (place.outer.phrase term) := by
  cases place with
  | statement => contradiction
  | expression => exact derived
  | assignment => exact .assignment derived
  | equality => exact .equality derived
  | comparison => exact .relational derived
  | sum => exact .sum derived
  | product => exact .product derived
  | unary => exact .unary derived
  | primary => exact .primary derived

private theorem rank_outer {place : Place} (proper : 1 < place.rank) : place.outer.rank + 1 = place.rank := by
  cases place <;> simp_all [Place.rank, Place.outer]

private theorem rank_injective {place other : Place} (same : place.rank = other.rank) : place = other := by
  cases place <;> cases other <;> simp_all [Place.rank]

/-- A construct may stand in every looser place. -/
theorem derives_looser {place own : Place} (proper : 0 < place.rank) (within : place.rank ≤ own.rank)
    (derived : Derives strict tokens (own.phrase term)) : Derives strict tokens (place.phrase term) := by
  induction gap : own.rank - place.rank generalizing own with
  | zero =>
    obtain rfl := rank_injective (Nat.le_antisymm within (Nat.le_of_sub_eq_zero gap))
    exact derived
  | succ gap ih =>
    have step : own.outer.rank + 1 = own.rank := rank_outer (by omega)
    have inner : own ≠ .statement := by
      rintro rfl
      simp [Place.rank] at gap
    exact @ih own.outer (by omega) (derives_outer inner derived) (by omega)

theorem derives_placed {place own : Place} (proper : 0 < own.rank)
    (derived : Derives strict tokens (own.phrase term)) :
    Derives strict (placed place own tokens) (place.phrase term) := by
  have inner : Derives strict tokens (Place.expression.phrase term) :=
    derives_looser (by decide) proper derived
  unfold placed
  split
  next tighter =>
    simp only [tooTight, decide_eq_true_eq] at tighter
    have grouped : Derives strict (symbol "(" :: (tokens ++ [symbol ")"])) (Place.primary.phrase term) :=
      .group rfl inner rfl
    exact derives_looser (by omega) (by cases place <;> decide) grouped
  next looser =>
    simp only [tooTight, decide_eq_true_eq] at looser
    split
    next same =>
      subst same
      exact .terminated inner rfl
    next different =>
      apply derives_looser _ (Nat.le_of_not_lt looser) derived
      cases place <;> simp_all [Place.rank]

private theorem derives_target (name : String) : Derives strict [word name] (.equality (.var name)) :=
  .relational (.sum (.product (.unary (.primary (.reference rfl)))))

private theorem derives_forward {front back : List Token} (operator : Operator) {left right : Term}
    (first : Derives strict front ((home operator).phrase left))
    (last : Derives strict back ((second operator).phrase right)) :
    Derives strict (front ++ symbol (spelling operator) :: back)
      ((home operator).phrase (.apply operator left right)) := by
  cases operator with
  | equal => exact .equal rfl first last
  | unequal => exact .unequal rfl first last
  | less => exact .less rfl first last
  | atMost => exact .atMost rfl first last
  | plus => exact .plus rfl first last
  | minus => exact .minus rfl first last
  | times => exact .times rfl first last
  | «over» => exact .over rfl first last

private theorem derives_backward {front back : List Token} {operator : Operator} {left right : Term}
    (compares : home operator = .comparison)
    (first : Derives strict front ((home operator).phrase right))
    (last : Derives strict back ((second operator).phrase left)) :
    Derives strict (front ++ symbol (reversed operator) :: back)
      ((home operator).phrase (.apply operator left right)) := by
  cases operator with
  | less => exact .greater rfl first last
  | atMost => exact .atLeast rfl first last
  | equal | unequal | plus | minus | times | «over» => cases compares

private theorem names_listed (names : List String) : Parameters (listed names) names := by
  have listing (name : String) (others : List String) :
      Names (listed (name :: others)) (name :: others) := by
    induction others generalizing name with
    | nil => exact .last rfl
    | cons next others ih => exact .more rfl rfl (ih next)
  cases names with
  | nil => exact .inl ⟨rfl, rfl⟩
  | cons name others => exact .inr (listing name others)

theorem derives_printed {body : List Term}
    (inner : ∀ statement ∈ body, Derives strict (shown .statement statement) (.statement statement)) :
    Derives strict (printed body) (.program body) := by
  induction body with
  | nil =>
    rw [printed]
    exact .empty
  | cons statement rest ih =>
    rw [printed]
    apply Derives.sequence
    · exact inner statement List.mem_cons_self
    · exact ih fun other member => inner other (List.mem_cons_of_mem _ member)

private theorem derives_braced {body : List Term}
    (inner : ∀ statement ∈ body, Derives strict (shown .statement statement) (.statement statement)) :
    Derives strict (braced (printed body)) (.block body) :=
  .braces rfl (derives_printed inner) rfl

private theorem derives_arguments {arguments : List (Nat × Term)}
    (inner : ∀ argument ∈ arguments,
      Derives strict (shown .assignment argument.2) (.assignment argument.2)) :
    Derives strict (shownArguments arguments) (.arguments (arguments.map Prod.snd)) := by
  induction arguments with
  | nil =>
    rw [shownArguments]
    exact .noArgument
  | cons argument others ih =>
    have head := inner argument List.mem_cons_self
    have tail := ih fun other member => inner other (List.mem_cons_of_mem _ member)
    cases others with
    | nil =>
      rw [shownArguments]
      exact .lastArgument head
    | cons next others =>
      rw [shownArguments]
      exact .moreArguments head rfl tail

end Derivation

/-- A printed term is what it was printed from, and an expression in every place. -/
def Shows : Category → Term → Prop
  | .expression, term => ∀ place : Place, Derives true (shown place term) (place.phrase term)
  | .statement, term => Derives true (shown .statement term) (.statement term)

private theorem shows_apply {operator : Operator} {left right : Term} (first : Shows .expression left)
    (last : Shows .expression right) : Shows .expression (.apply operator left right) := by
  intro place
  rw [shown]
  split
  next negated =>
    obtain ⟨rfl, rfl, among⟩ := negates_iff.mp negated
    have signed : Derives true (symbol "-" :: shown .primary right)
        (.unary (.apply .minus (.literal 0) right)) := .negative rfl (last .primary)
    obtain rfl | rfl := among
    · exact .unary signed
    · exact signed
  next =>
    apply derives_placed (by cases operator <;> decide)
    split
    next flipped =>
      simp only [flips, Bool.and_eq_true, decide_eq_true_eq] at flipped
      exact derives_backward flipped.1.1 (last _) (first _)
    next => exact derives_forward operator (first _) (last _)

private theorem shows_call {callee : String} {arguments : List (Nat × Term)}
    (callable : Assembly.isReserved callee = false) (few : arguments.length ≤ 6)
    (counted : arguments.map Prod.fst = List.range arguments.length)
    (inner : ∀ argument ∈ arguments, Shows .expression argument.2) :
    Shows .expression (.call callee arguments) := by
  have same : arguments = numbered (arguments.map Prod.snd) := by
    rw [numbered, List.length_map, ← counted]
    exact List.zip_of_prod rfl rfl
  intro place
  rw [shown]
  apply derives_placed (by decide)
  have values := derives_arguments fun argument member => inner argument member .assignment
  have derived : Derives true (word callee :: symbol "(" :: (shownArguments arguments ++ [symbol ")"]))
      (.primary (.call callee (numbered (arguments.map Prod.snd)))) :=
    .call rfl callable rfl values (by simpa using few) rfl
  rw [← same] at derived
  exact derived

private theorem shows {category : Category} {term : Term} (formed : Formed category term) :
    Shows category term := by
  induction formed with
  | literal value =>
    intro place
    rw [shown]
    exact derives_placed (by decide) (.number rfl)
  | var name =>
    intro place
    rw [shown]
    exact derives_placed (by decide) (.reference rfl)
  | @assign target value _ ih =>
    intro place
    rw [shown]
    apply derives_placed (by decide)
    exact .assign (derives_target target) rfl (ih .assignment)
  | @assignBlock target body _ ih =>
    intro place
    rw [shown, shown]
    apply derives_placed (by decide)
    exact .assignBlock (derives_target target) rfl (derives_braced ih)
  | apply _ _ first last => exact shows_apply first last
  | call callable few counted _ ih => exact shows_call callable few counted ih
  | leave =>
    intro place
    rw [shown]
    exact derives_placed (by decide) (.leave rfl)
  | leaveWith _ ih =>
    intro place
    rw [shown]
    exact derives_placed (by decide) (.leaveWith rfl (ih .assignment))
  | expression _ ih => exact ih .statement
  | block _ ih =>
    rw [Shows, shown]
    exact .nested (derives_braced ih)
  | conditional _ _ test accepted =>
    rw [Shows, shown]
    exact .conditional rfl rfl (test .expression) rfl accepted
  | alternative _ _ settled _ test accepted otherwise =>
    rw [Shows, shown]
    exact .alternative rfl rfl (test .expression) rfl accepted (fun _ => settled) rfl otherwise
  | function callable few distinct _ ih =>
    rw [Shows, shown]
    exact .declared
      (.function rfl rfl callable rfl (names_listed _) few distinct rfl (derives_braced ih))

def openings (tokens : List Token) : Nat := tokens.countP (·.is "(")

@[simp] theorem openings_nil : openings [] = 0 := rfl

@[simp] theorem openings_cons (token : Token) (tokens : List Token) :
    openings (token :: tokens) = openings tokens + if token.is "(" then 1 else 0 :=
  List.countP_cons

@[simp] theorem openings_append (front back : List Token) :
    openings (front ++ back) = openings front + openings back :=
  List.countP_append

@[simp] theorem symbol_is (text other : String) : (symbol text).is other = decide (text = other) := by
  simp [symbol, Token.is]

@[simp] theorem word_is (name other : String) : (word name).is other = false := by
  simp [word, Token.is]

@[simp] theorem numeral_is (value : Int64) (other : String) : (numeral value).is other = false := by
  simp [numeral, Token.is]

@[simp] theorem returning_is (other : String) : returning.is other = false := by
  simp [returning, Token.is]

@[simp] theorem openings_placed (place own : Place) (tokens : List Token) :
    openings (placed place own tokens) = openings tokens + (tooTight place own).toNat := by
  unfold placed
  split
  next tight => simp [tight]
  next fits =>
    split
    · simp [fits]
    · simp [fits]

@[simp] theorem openings_listed (names : List String) : openings (listed names) = 0 := by
  fun_induction listed names with
  | case1 => rfl
  | case2 name => simp
  | case3 name next names ih => simp [ih]

@[simp] theorem openings_braced (tokens : List Token) : openings (braced tokens) = openings tokens := by
  simp [braced]

@[simp] theorem tooTight_statement (own : Place) : tooTight .statement own = false := by
  simp [tooTight, Place.rank]

@[simp] theorem tooTight_self (place : Place) : tooTight place place = false := by
  simp [tooTight]

@[simp] theorem tooTight_primary (place : Place) : tooTight place .primary = false := by
  cases place <;> rfl

/-- The tightest place in which a term needs no parentheses. A difference with zero is also
written as a negation, which is not counted here. -/
def own : Term → Place
  | .leave _ => .expression
  | .assign .. => .assignment
  | .apply operator _ _ => home operator
  | _ => .primary

def isNegation (place : Place) : Term → Bool
  | .apply operator left _ => negates place operator left
  | _ => false

/-- The parentheses of a term are those it has as a statement, and one more where its place
is too tight for it. -/
theorem openings_shown {place : Place} {term : Term} (unsigned : isNegation place term = false) :
    openings (shown place term) =
      openings (shown .statement term) + (tooTight place (own term)).toNat := by
  cases term with
  | literal | var | call | assign => simp [shown, own]
  | apply operator left right =>
    have unsigned : negates place operator left = false := unsigned
    have plain : negates .statement operator left = false := by
      simp [← Bool.not_eq_true, negates_iff]
    simp [shown, own, unsigned, plain]
  | branch test accepted otherwise => cases otherwise <;> simp [shown, own]
  | leave value => cases value <;> simp [shown, own]
  | block | function => simp [shown, own]

/-- A difference with zero, as it stands among factors. -/
theorem openings_negation {place : Place} (right : Term) (among : place = .product ∨ place = .unary) :
    openings (shown place (.apply .minus (.literal 0) right)) = openings (shown .primary right) := by
  simp [shown, negates, among]

private theorem openings_difference (right : Term) :
    openings (shown .statement (.apply .minus (.literal 0) right)) = openings (shown .product right) := by
  simp [shown, negates, flips, home, second, spelling]

/-- Parentheses do not become fewer in a tighter place, and the tightest one asks for at most
one more than any other. -/
def Bounded (term : Term) : Prop :=
  (∀ loose tight : Place, loose.rank ≤ tight.rank →
    openings (shown loose term) ≤ openings (shown tight term)) ∧
  ∀ place : Place, openings (shown .primary term) ≤ openings (shown place term) + 1

theorem tooTight_mono {loose tight : Place} (own : Place) (within : loose.rank ≤ tight.rank) :
    (tooTight loose own).toNat ≤ (tooTight tight own).toNat := by
  cases above : tooTight loose own with
  | false => exact Nat.zero_le _
  | true =>
    have still : tooTight tight own = true := by
      simp only [tooTight, decide_eq_true_eq] at above ⊢
      omega
    simp [still]

private theorem bounded_unsigned {term : Term} (unsigned : ∀ place, isNegation place term = false) :
    Bounded term := by
  constructor
  · intro loose tight within
    have := tooTight_mono (own term) within
    rw [openings_shown (unsigned loose), openings_shown (unsigned tight)]
    omega
  · intro place
    have := Bool.toNat_le (tooTight .primary (own term))
    rw [openings_shown (unsigned place), openings_shown (unsigned .primary)]
    omega

private theorem rank_among {place : Place} (among : place = .product ∨ place = .unary) :
    6 ≤ place.rank ∧ place.rank ≤ 7 := by
  obtain rfl | rfl := among
  · decide
  · decide

private theorem rank_apart {place : Place} (apart : ¬ (place = .product ∨ place = .unary)) :
    place.rank ≤ 5 ∨ place = .primary := by
  cases place <;> simp_all [Place.rank]

/-- The operand of a negation is in the tightest place and that of the difference is not. -/
theorem bounded_negation {right : Term} (bounded : Bounded right) :
    Bounded (.apply .minus (.literal 0) right) := by
  have least := bounded.1 .product .primary (by decide)
  have most := bounded.2 .product
  have unsigned {place : Place} (apart : ¬ (place = .product ∨ place = .unary)) :
      openings (shown place (.apply .minus (.literal 0) right)) =
        openings (shown .product right) + (tooTight place .sum).toNat := by
    rw [openings_shown, openings_difference]
    · rfl
    · simpa [isNegation, ← Bool.not_eq_true, negates_iff] using apart
  constructor
  · intro loose tight within
    by_cases first : loose = .product ∨ loose = .unary
    · rw [openings_negation right first]
      by_cases last : tight = .product ∨ tight = .unary
      · exact Nat.le_of_eq (openings_negation right last).symm
      · obtain low | rfl := rank_apart last
        · have high := rank_among first
          omega
        · rw [unsigned last]
          exact most
    · rw [unsigned first]
      by_cases last : tight = .product ∨ tight = .unary
      · have high := rank_among last
        have fits : tooTight loose .sum = false := by
          obtain low | rfl := rank_apart first
          · exact decide_eq_false (Nat.not_lt.mpr low)
          · have tightest : Place.primary.rank = 8 := rfl
            omega
        simpa [openings_negation right last, fits] using least
      · rw [unsigned last]
        exact Nat.add_le_add_left (tooTight_mono .sum within) _
  · intro place
    rw [unsigned (by simp)]
    by_cases among : place = .product ∨ place = .unary
    · rw [openings_negation right among]
      exact Nat.add_le_add_right least 1
    · rw [unsigned among]
      exact Nat.add_le_add_right (Nat.le_add_right _ _) 1

theorem bounded : (term : Term) → Bounded term
  | .apply operator left right => by
    by_cases difference : operator = .minus ∧ left = .literal 0
    · obtain ⟨rfl, rfl⟩ := difference
      exact bounded_negation (bounded right)
    · apply bounded_unsigned
      intro place
      rw [isNegation, ← Bool.not_eq_true, negates_iff]
      exact fun negated => difference ⟨negated.1, negated.2.1⟩
  | .literal _ | .var _ | .assign .. | .branch .. | .leave _ | .block _ | .call .. | .function .. =>
    bounded_unsigned fun _ => rfl

private theorem openings_mono (loose tight : Place) (term : Term) (within : loose.rank ≤ tight.rank) :
    openings (shown loose term) ≤ openings (shown tight term) :=
  (bounded term).1 loose tight within

/-- Only a comparison needs parentheses on the right of a comparison and none on the left. -/
theorem openings_sum (term : Term) :
    openings (shown .sum term) = openings (shown .comparison term) + (isComparison term).toNat := by
  have unsigned (place : Place) (apart : ¬ (place = .product ∨ place = .unary)) :
      isNegation place term = false := by
    cases term with
    | apply => simpa [isNegation, ← Bool.not_eq_true, negates_iff] using fun _ _ => apart
    | _ => rfl
  have step : (tooTight .sum (own term)).toNat =
      (tooTight .comparison (own term)).toNat + (isComparison term).toNat := by
    cases term with
    | apply operator => cases operator <;> rfl
    | _ => rfl
  have tighter := openings_shown (unsigned .sum (by simp))
  have looser := openings_shown (unsigned .comparison (by simp))
  omega

/-- An operator that is no comparison has its operands where they stand. -/
theorem openings_apply {operator : Operator} {place next : Place} (left right : Term)
    (here : home operator = place) (there : second operator = next) (apart : place ≠ .comparison) :
    openings (shown place (.apply operator left right)) =
      openings (shown place left) + openings (shown next right) := by
  subst here there
  have unsigned : negates (home operator) operator left = false := by
    rw [← Bool.not_eq_true, negates_iff]
    rintro ⟨rfl, _, among⟩
    simp [home] at among
  have quiet : spelling operator ≠ "(" := by cases operator <;> decide
  simp [shown, unsigned, flips, apart, quiet]

/-- A comparison is written in the direction with fewer parentheses. -/
theorem openings_comparison {operator : Operator} (left right : Term)
    (here : home operator = .comparison) (there : second operator = .sum) :
    openings (shown .comparison (.apply operator left right)) ≤
        openings (shown .comparison left) + openings (shown .sum right) ∧
    openings (shown .comparison (.apply operator left right)) ≤
        openings (shown .comparison right) + openings (shown .sum left) := by
  have unsigned : negates .comparison operator left = false := by
    simp [← Bool.not_eq_true, negates_iff]
  have quiet : spelling operator ≠ "(" ∧ reversed operator ≠ "(" := by
    cases operator <;> decide
  have first := openings_sum left
  have last := openings_sum right
  cases front : isComparison left <;> cases back : isComparison right <;>
    simp_all [shown, flips] <;> omega

private theorem openings_linked {front back : List Token} {first last total : Nat} (mark : Token)
    (bound : total ≤ first + last) (before : first ≤ openings front) (behind : last ≤ openings back) :
    total ≤ openings (front ++ mark :: back) := by
  rw [openings_append, openings_cons]
  omega

/-- The positions of arguments are not printed. -/
theorem shownArguments_congr {arguments others : List (Nat × Term)}
    (same : arguments.map Prod.snd = others.map Prod.snd) :
    shownArguments arguments = shownArguments others := by
  induction arguments generalizing others with
  | nil =>
    obtain rfl : others = [] := by simpa using same.symm
    rfl
  | cons argument rest ih =>
    obtain ⟨other, further, rfl⟩ : ∃ other further, others = other :: further :=
      List.exists_cons_of_ne_nil (by rintro rfl; simp at same)
    simp only [List.map_cons, List.cons.injEq] at same
    have tail := ih same.2
    cases rest with
    | nil =>
      obtain rfl : further = [] := by simpa using same.2.symm
      simp [shownArguments, same.1]
    | cons next rest =>
      obtain ⟨after, further, rfl⟩ : ∃ after others, further = after :: others :=
        List.exists_cons_of_ne_nil (by rintro rfl; simp at same)
      simp [shownArguments, same.1, tail]

private theorem shownArguments_numbered (value next : Term) (others : List Term) :
    shownArguments (numbered (value :: next :: others)) =
      shown .assignment value ++ symbol "," :: shownArguments (numbered (next :: others)) := by
  have values (terms : List Term) : (numbered terms).map Prod.snd = terms :=
    List.map_snd_zip (by simp)
  obtain ⟨first, rest, split⟩ : ∃ first rest, numbered (next :: others) = first :: rest :=
    List.exists_cons_of_ne_nil (by simp [numbered, List.range_succ_eq_map])
  calc shownArguments (numbered (value :: next :: others))
    _ = shownArguments ((0, value) :: numbered (next :: others)) :=
      shownArguments_congr (by simp [values])
    _ = shown .assignment value ++ symbol "," :: shownArguments (numbered (next :: others)) := by
      rw [split, shownArguments]

def rendered : Phrase → List Token
  | .program body => printed body
  | .block body => braced (printed body)
  | .statement term | .definition term => shown .statement term
  | .expression term => shown .expression term
  | .assignment term => shown .assignment term
  | .equality term => shown .equality term
  | .relational term => shown .comparison term
  | .sum term => shown .sum term
  | .product term => shown .product term
  | .unary term => shown .unary term
  | .primary term => shown .primary term
  | .arguments values => shownArguments (numbered values)

/-- No tokens of a phrase open fewer parentheses than the printed ones. -/
theorem openings_rendered {strict : Bool} {tokens : List Token} {phrase : Phrase}
    (derived : Derives strict tokens phrase) : openings (rendered phrase) ≤ openings tokens := by
  induction derived with
  | empty => simp [rendered, printed]
  | sequence _ _ head tail =>
    simp only [rendered, printed, openings_append] at head tail ⊢
    omega
  | conditional _ opened _ _ _ test accepted =>
    simp [rendered, shown, opened] at test accepted ⊢
    omega
  | alternative _ opened _ _ _ _ _ _ test accepted otherwise =>
    simp [rendered, shown, opened] at test accepted otherwise ⊢
    omega
  | nested _ inner =>
    simpa [rendered, shown] using inner
  | declared _ inner => exact inner
  | @terminated _ _ term _ _ inner =>
    have looser := openings_mono .statement .expression term (by decide)
    simp only [rendered, openings_append] at inner ⊢
    omega
  | unterminated _ _ inner => exact Nat.le_trans (openings_mono _ _ _ (by decide)) inner
  | braces _ _ _ inner =>
    simp [rendered] at inner ⊢
    omega
  | function _ _ _ opened _ _ _ _ _ inner =>
    simp [rendered, shown, opened] at inner ⊢
    omega
  | leave =>
    simp [rendered, shown]
  | leaveWith _ _ inner =>
    simp [rendered, shown] at inner ⊢
    omega
  | assignment _ inner | equality _ inner | relational _ inner | sum _ inner | product _ inner
  | unary _ inner | primary _ inner => exact Nat.le_trans (openings_mono _ _ _ (by decide)) inner
  | assign _ _ _ _ inner =>
    simp [rendered, shown] at inner ⊢
    omega
  | assignBlock _ _ _ _ inner =>
    simp [rendered, shown] at inner ⊢
    omega
  | @equal mark _ _ left right _ _ _ first last | @unequal mark _ _ left right _ _ _ first last
  | @plus mark _ _ left right _ _ _ first last | @minus mark _ _ left right _ _ _ first last
  | @times mark _ _ left right _ _ _ first last | @«over» mark _ _ left right _ _ _ first last =>
    apply openings_linked mark _ first last
    exact Nat.le_of_eq (openings_apply left right rfl rfl (by decide))
  | @less mark _ _ left right _ _ _ first last | @atMost mark _ _ left right _ _ _ first last =>
    exact openings_linked mark (openings_comparison left right rfl rfl).1 first last
  | @greater mark _ _ left right _ _ _ first last | @atLeast mark _ _ left right _ _ _ first last =>
    exact openings_linked mark (openings_comparison right left rfl rfl).2 first last
  | @positive _ _ term _ _ inner =>
    have looser := openings_mono .unary .primary term (by decide)
    simp [rendered] at inner ⊢
    omega
  | @negative _ _ term _ _ inner =>
    apply Nat.le_trans (Nat.le_of_eq (openings_negation term (.inr rfl)))
    simp [rendered] at inner ⊢
    omega
  | number | reference => simp [rendered, shown]
  | call _ _ opened _ _ _ inner =>
    simp [rendered, shown, opened] at inner ⊢
    omega
  | @group _ _ _ term opened _ _ inner =>
    have enclosed := (bounded term).2 .expression
    simp [rendered, opened] at inner ⊢
    omega
  | noArgument => simp [rendered, numbered, shownArguments]
  | lastArgument _ inner =>
    simpa [rendered, numbered, shownArguments] using inner
  | @moreArguments comma _ _ value next others _ _ _ head tail =>
    apply openings_linked comma _ head tail
    simp [rendered, shownArguments_numbered]

private theorem names_not_ending {tokens : List Token} {names : List String} (listing : Names tokens names) :
    ∀ token ∈ tokens, token.isEnding = false := by
  induction listing with
  | last => simp_all [Token.isEnding]
  | more => simp_all [Token.is, Token.isEnding]

/-- A derivation uses no end-of-input token. -/
theorem not_ending {strict : Bool} {tokens : List Token} {phrase : Phrase}
    (derived : Derives strict tokens phrase) : ∀ token ∈ tokens, token.isEnding = false := by
  induction derived with
  | function begins named _ opened parametric _ _ closed _ ih =>
    obtain ⟨rfl, rfl⟩ | listing := parametric
    · grind [Token.is, Token.isEnding]
    · grind [Token.is, Token.isEnding, names_not_ending]
  | _ => grind [Token.is, Token.isEnding]

/-- The parser reads exactly the well-formed programs. Whatever it accepts is well-formed. A
well-formed program is printed with a semicolon behind every expression statement; it is read
back from these tokens, and no tokens that are read as it open fewer parentheses. -/
theorem parse_image (body : List Term) :
    (∀ tokens, parse tokens = .ok body → WellFormed body) ∧
    (WellFormed body → Derives true (printed body) (.program body) ∧
      parse (printed body) = .ok body ∧
      ∀ tokens, parse tokens = .ok body → openings (printed body) ≤ openings tokens) := by
  refine ⟨fun tokens accepted => wellFormed_of_parse accepted, fun formed => ?_⟩
  have derived : Derives true (printed body) (.program body) :=
    derives_printed fun statement member => shows (formed statement member)
  refine ⟨derived, ?_, fun tokens accepted => ?_⟩
  · have whole : (printed body).takeWhile (!·.isEnding) = printed body := by
      simpa [List.takeWhile_eq_self_iff] using not_ending derived
    rw [parse_eq_ok_iff, whole]
    exact (reads derived).1
  · obtain ⟨used, same, other⟩ := program_sound (parse_eq_ok_iff.mp accepted)
    rw [List.append_nil] at same
    calc openings (printed body)
      _ ≤ openings used := openings_rendered other
      _ ≤ openings tokens := by
        rw [← same]
        exact (List.takeWhile_sublist _).countP_le

/-- A comparison that is written from right to left, a negation among factors, a return inside
an operand, a dangling conditional that is closed by its block, and an assigned block. -/
def assorted : List Term :=
  [.function "f" ["a", "b"] [.leave (some (.apply .less (.var "a") (.apply .less (.var "b") (.literal 1))))],
    .branch (.apply .times (.apply .minus (.literal 0) (.var "x")) (.leave none))
      (.block [.branch (.var "y") (.literal 2) none]) (some (.branch (.var "z") (.literal 3) none)),
    .assign "v" (.block [.call "f" [(0, .literal 4), (1, .assign "w" (.literal 5))]])]

theorem parse_printed_assorted :
    parse (printed assorted) = .ok assorted ∧ openings (printed assorted) = 6 := by
  have first : Formed .statement (.function "f" ["a", "b"]
      [.leave (some (.apply .less (.var "a") (.apply .less (.var "b") (.literal 1))))]) := by
    apply Formed.function (by decide) (by decide) (by decide)
    exact List.forall_mem_singleton.mpr
      (.expression (.leaveWith (.apply (.var "a") (.apply (.var "b") (.literal 1)))))
  have middle : Formed .statement
      (.branch (.apply .times (.apply .minus (.literal 0) (.var "x")) (.leave none))
        (.block [.branch (.var "y") (.literal 2) none])
        (some (.branch (.var "z") (.literal 3) none))) := by
    apply Formed.alternative (.apply (.apply (.literal 0) (.var "x")) .leave)
    · exact .block (List.forall_mem_singleton.mpr (.conditional (.var "y") (.expression (.literal 2))))
    · rfl
    · exact .conditional (.var "z") (.expression (.literal 3))
  have last : Formed .statement
      (.assign "v" (.block [.call "f" [(0, .literal 4), (1, .assign "w" (.literal 5))]])) := by
    apply Formed.expression
    apply Formed.assignBlock
    refine List.forall_mem_singleton.mpr (.expression (.call (by decide) (by decide) rfl ?_))
    exact List.forall_mem_cons.mpr
      ⟨.literal 4, List.forall_mem_singleton.mpr (.assign (.literal 5))⟩
  have formed : WellFormed assorted :=
    List.forall_mem_cons.mpr
      ⟨first, List.forall_mem_cons.mpr ⟨middle, List.forall_mem_singleton.mpr last⟩⟩
  exact ⟨((parse_image assorted).2 formed).2.1, by decide⟩

end Stackwise.Proofs.Printing
