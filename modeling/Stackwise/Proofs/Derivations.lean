import Stackwise.Assembly.Reserved
import Stackwise.Term
import Stackwise.Token

/-! The grammar as a relation between tokens and terms. It says which tokens denote which
term and nothing about how they are read: no token is looked at ahead, and the optional
parts of a construct may be there or not. -/

namespace Stackwise.Proofs.Derivations

/-- Whether a statement ends in a conditional without an alternative, so that an `else`
behind it would belong to that conditional. -/
def endsOpen : Term → Bool
  | .branch _ _ none => true
  | .branch _ _ (some otherwise) => endsOpen otherwise
  | _ => false

def numbered (values : List Term) : List (Nat × Term) := (List.range values.length).zip values

inductive Phrase where
  | program (body : List Term)
  | statement (term : Term)
  | block (body : List Term)
  | definition (term : Term)
  | expression (term : Term)
  | assignment (term : Term)
  | equality (term : Term)
  | relational (term : Term)
  | sum (term : Term)
  | product (term : Term)
  | unary (term : Term)
  | primary (term : Term)
  | arguments (values : List Term)

inductive Names : List Token → List String → Prop where
  | last {token : Token} {name : String} (named : token.kind = .name name) : Names [token] [name]
  | more {token comma : Token} {rest : List Token} {name : String} {names : List String}
      (named : token.kind = .name name) (separated : comma.is ",") (others : Names rest names) :
      Names (token :: comma :: rest) (name :: names)

def Parameters (tokens : List Token) (names : List String) : Prop :=
  tokens = [] ∧ names = [] ∨ Names tokens names

/-- The derivations of the grammar. In a strict derivation every expression statement has
its semicolon, and no statement in front of an `else` ends in an open conditional. -/
inductive Derives (strict : Bool) : List Token → Phrase → Prop where
  | empty : Derives strict [] (.program [])
  | sequence {first rest : List Token} {statement : Term} {body : List Term}
      (head : Derives strict first (.statement statement))
      (tail : Derives strict rest (.program body)) :
      Derives strict (first ++ rest) (.program (statement :: body))
  | conditional {word opening closing : Token} {tested chosen : List Token} {test accepted : Term}
      (begins : word.is "if") (opened : opening.is "(")
      (condition : Derives strict tested (.expression test)) (closed : closing.is ")")
      (consequence : Derives strict chosen (.statement accepted)) :
      Derives strict (word :: opening :: (tested ++ closing :: chosen))
        (.statement (.branch test accepted none))
  | alternative {word opening closing other : Token} {tested chosen left : List Token}
      {test accepted otherwise : Term}
      (begins : word.is "if") (opened : opening.is "(")
      (condition : Derives strict tested (.expression test)) (closed : closing.is ")")
      (consequence : Derives strict chosen (.statement accepted))
      (settled : strict = true → endsOpen accepted = false) (continued : other.is "else")
      (replacement : Derives strict left (.statement otherwise)) :
      Derives strict (word :: opening :: (tested ++ closing :: (chosen ++ other :: left)))
        (.statement (.branch test accepted (some otherwise)))
  | nested {tokens : List Token} {body : List Term} (inner : Derives strict tokens (.block body)) :
      Derives strict tokens (.statement (.block body))
  | declared {tokens : List Token} {term : Term} (inner : Derives strict tokens (.definition term)) :
      Derives strict tokens (.statement term)
  | terminated {tokens : List Token} {mark : Token} {term : Term}
      (inner : Derives strict tokens (.expression term)) (ended : mark.is ";") :
      Derives strict (tokens ++ [mark]) (.statement term)
  | unterminated {tokens : List Token} {term : Term} (lenient : strict = false)
      (inner : Derives strict tokens (.expression term)) : Derives strict tokens (.statement term)
  | braces {opening closing : Token} {tokens : List Token} {body : List Term}
      (opened : opening.is "\x7b") (inner : Derives strict tokens (.program body))
      (closed : closing.is "\x7d") : Derives strict (opening :: (tokens ++ [closing])) (.block body)
  | function {word naming opening closing : Token} {listed tokens : List Token} {name : String}
      {parameters : List String} {body : List Term}
      (begins : word.is "def") (named : naming.kind = .name name)
      (callable : Assembly.isReserved name = false) (opened : opening.is "(")
      (parametric : Parameters listed parameters) (few : parameters.length ≤ 6)
      (distinct : parameters.Nodup) (closed : closing.is ")")
      (inner : Derives strict tokens (.block body)) :
      Derives strict (word :: naming :: opening :: (listed ++ closing :: tokens))
        (.definition (.function name parameters body))
  | leave {word : Token} (begins : word.kind = .returnWord) :
      Derives strict [word] (.expression (.leave none))
  | leaveWith {word : Token} {tokens : List Token} {term : Term} (begins : word.kind = .returnWord)
      (inner : Derives strict tokens (.assignment term)) :
      Derives strict (word :: tokens) (.expression (.leave (some term)))
  | assignment {tokens : List Token} {term : Term} (inner : Derives strict tokens (.assignment term)) :
      Derives strict tokens (.expression term)
  | equality {tokens : List Token} {term : Term} (inner : Derives strict tokens (.equality term)) :
      Derives strict tokens (.assignment term)
  | assign {mark : Token} {front back : List Token} {name : String} {value : Term}
      (assigned : Derives strict front (.equality (.var name))) (equals : mark.is "=")
      (inner : Derives strict back (.assignment value)) :
      Derives strict (front ++ mark :: back) (.assignment (.assign name value))
  | assignBlock {mark : Token} {front back : List Token} {name : String} {body : List Term}
      (assigned : Derives strict front (.equality (.var name))) (equals : mark.is "=")
      (inner : Derives strict back (.block body)) :
      Derives strict (front ++ mark :: back) (.assignment (.assign name (.block body)))
  | relational {tokens : List Token} {term : Term} (inner : Derives strict tokens (.relational term)) :
      Derives strict tokens (.equality term)
  | equal {mark : Token} {front back : List Token} {left right : Term} (symbol : mark.is "==")
      (first : Derives strict front (.equality left)) (second : Derives strict back (.relational right)) :
      Derives strict (front ++ mark :: back) (.equality (.apply .equal left right))
  | unequal {mark : Token} {front back : List Token} {left right : Term} (symbol : mark.is "!=")
      (first : Derives strict front (.equality left)) (second : Derives strict back (.relational right)) :
      Derives strict (front ++ mark :: back) (.equality (.apply .unequal left right))
  | sum {tokens : List Token} {term : Term} (inner : Derives strict tokens (.sum term)) :
      Derives strict tokens (.relational term)
  | less {mark : Token} {front back : List Token} {left right : Term} (symbol : mark.is "<")
      (first : Derives strict front (.relational left)) (second : Derives strict back (.sum right)) :
      Derives strict (front ++ mark :: back) (.relational (.apply .less left right))
  | atMost {mark : Token} {front back : List Token} {left right : Term} (symbol : mark.is "<=")
      (first : Derives strict front (.relational left)) (second : Derives strict back (.sum right)) :
      Derives strict (front ++ mark :: back) (.relational (.apply .atMost left right))
  | greater {mark : Token} {front back : List Token} {left right : Term} (symbol : mark.is ">")
      (first : Derives strict front (.relational left)) (second : Derives strict back (.sum right)) :
      Derives strict (front ++ mark :: back) (.relational (.apply .less right left))
  | atLeast {mark : Token} {front back : List Token} {left right : Term} (symbol : mark.is ">=")
      (first : Derives strict front (.relational left)) (second : Derives strict back (.sum right)) :
      Derives strict (front ++ mark :: back) (.relational (.apply .atMost right left))
  | product {tokens : List Token} {term : Term} (inner : Derives strict tokens (.product term)) :
      Derives strict tokens (.sum term)
  | plus {mark : Token} {front back : List Token} {left right : Term} (symbol : mark.is "+")
      (first : Derives strict front (.sum left)) (second : Derives strict back (.product right)) :
      Derives strict (front ++ mark :: back) (.sum (.apply .plus left right))
  | minus {mark : Token} {front back : List Token} {left right : Term} (symbol : mark.is "-")
      (first : Derives strict front (.sum left)) (second : Derives strict back (.product right)) :
      Derives strict (front ++ mark :: back) (.sum (.apply .minus left right))
  | unary {tokens : List Token} {term : Term} (inner : Derives strict tokens (.unary term)) :
      Derives strict tokens (.product term)
  | times {mark : Token} {front back : List Token} {left right : Term} (symbol : mark.is "*")
      (first : Derives strict front (.product left)) (second : Derives strict back (.unary right)) :
      Derives strict (front ++ mark :: back) (.product (.apply .times left right))
  | over {mark : Token} {front back : List Token} {left right : Term} (symbol : mark.is "/")
      (first : Derives strict front (.product left)) (second : Derives strict back (.unary right)) :
      Derives strict (front ++ mark :: back) (.product (.apply .over left right))
  | primary {tokens : List Token} {term : Term} (inner : Derives strict tokens (.primary term)) :
      Derives strict tokens (.unary term)
  | positive {sign : Token} {tokens : List Token} {term : Term} (symbol : sign.is "+")
      (inner : Derives strict tokens (.primary term)) :
      Derives strict (sign :: tokens) (.unary term)
  | negative {sign : Token} {tokens : List Token} {term : Term} (symbol : sign.is "-")
      (inner : Derives strict tokens (.primary term)) :
      Derives strict (sign :: tokens) (.unary (.apply .minus (.literal 0) term))
  | number {token : Token} {value : Int64} (numeral : token.kind = .number value) :
      Derives strict [token] (.primary (.literal value))
  | reference {token : Token} {name : String} (named : token.kind = .name name) :
      Derives strict [token] (.primary (.var name))
  | call {naming opening closing : Token} {tokens : List Token} {name : String} {values : List Term}
      (named : naming.kind = .name name) (callable : Assembly.isReserved name = false)
      (opened : opening.is "(") (inner : Derives strict tokens (.arguments values))
      (few : values.length ≤ 6) (closed : closing.is ")") :
      Derives strict (naming :: opening :: (tokens ++ [closing])) (.primary (.call name (numbered values)))
  | group {opening closing : Token} {tokens : List Token} {term : Term} (opened : opening.is "(")
      (inner : Derives strict tokens (.expression term)) (closed : closing.is ")") :
      Derives strict (opening :: (tokens ++ [closing])) (.primary term)
  | noArgument : Derives strict [] (.arguments [])
  | lastArgument {tokens : List Token} {value : Term} (inner : Derives strict tokens (.assignment value)) :
      Derives strict tokens (.arguments [value])
  | moreArguments {comma : Token} {front back : List Token} {value next : Term} {others : List Term}
      (head : Derives strict front (.assignment value)) (separated : comma.is ",")
      (tail : Derives strict back (.arguments (next :: others))) :
      Derives strict (front ++ comma :: back) (.arguments (value :: next :: others))

end Stackwise.Proofs.Derivations
