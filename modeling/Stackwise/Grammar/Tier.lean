import Stackwise.Grammar.Cursor
import Stackwise.Term

/-! Precedence. Binary operators fall into four tiers, loosest first, and those of
one tier group to the left. -/

namespace Stackwise.Grammar

inductive Tier where
  | equality
  | comparison
  | sum
  | product
  deriving DecidableEq

/-- The number of tiers from this one inwards. -/
def Tier.height : Tier → Nat
  | .equality => 4
  | .comparison => 3
  | .sum => 2
  | .product => 1

theorem Tier.height_le (tier : Tier) : tier.height ≤ 4 := by
  cases tier <;> decide

/-- What a symbol between two operands makes of them: an operator, applied to them as
they stand or to the swapped pair. -/
structure Link where
  operator : Operator
  swapped : Bool
  deriving DecidableEq

def Link.join (link : Link) (left right : Term) : Term :=
  if link.swapped then .apply link.operator right left else .apply link.operator left right

/-- The tokens that link operands in a tier. Greater-than is less-than with its
operands swapped. -/
def Tier.link? : Tier → TokenKind → Option Link
  | .equality, .symbol "==" => some ⟨.equal, false⟩
  | .equality, .symbol "!=" => some ⟨.unequal, false⟩
  | .comparison, .symbol "<" => some ⟨.less, false⟩
  | .comparison, .symbol "<=" => some ⟨.atMost, false⟩
  | .comparison, .symbol ">" => some ⟨.less, true⟩
  | .comparison, .symbol ">=" => some ⟨.atMost, true⟩
  | .sum, .symbol "+" => some ⟨.plus, false⟩
  | .sum, .symbol "-" => some ⟨.minus, false⟩
  | .product, .symbol "*" => some ⟨.times, false⟩
  | .product, .symbol "/" => some ⟨.over, false⟩
  | _, _ => none

/-- Use the next token if it links operands in the tier. -/
def Tier.acceptLink? (tier : Tier) (tokens : List Token) : Option (Link × Shorter tokens) := do
  let (token, rest) ← next? tokens
  let link ← tier.link? token.kind
  return (link, rest)

end Stackwise.Grammar
