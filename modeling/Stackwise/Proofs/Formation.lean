import Stackwise.Proofs.GrammarCompleteness

/-! The shape of the terms that the productions build. An expression never holds a conditional
or a definition, except inside a block that is assigned, and a conditional with an alternative
never has an open conditional in front of it. The second fact is about the tokens that are
left: an open conditional was not followed by `else`, or it would not be open. -/

namespace Stackwise.Proofs.Formation
open Grammar Derivations GrammarSoundness GrammarCompleteness

inductive Category where
  | expression
  | statement

inductive Formed : Category → Term → Prop where
  | literal (value : Int64) : Formed .expression (.literal value)
  | var (name : String) : Formed .expression (.var name)
  | assign {target : String} {value : Term} (inner : Formed .expression value) :
      Formed .expression (.assign target value)
  | assignBlock {target : String} {body : List Term}
      (inner : ∀ statement ∈ body, Formed .statement statement) :
      Formed .expression (.assign target (.block body))
  | apply {operator : Operator} {left right : Term} (first : Formed .expression left)
      (second : Formed .expression right) : Formed .expression (.apply operator left right)
  | call {callee : String} {arguments : List (Nat × Term)}
      (callable : Assembly.isReserved callee = false) (few : arguments.length ≤ 6)
      (counted : arguments.map Prod.fst = List.range arguments.length)
      (inner : ∀ argument ∈ arguments, Formed .expression argument.2) :
      Formed .expression (.call callee arguments)
  | leave : Formed .expression (.leave none)
  | leaveWith {value : Term} (inner : Formed .expression value) :
      Formed .expression (.leave (some value))
  | expression {term : Term} (inner : Formed .expression term) : Formed .statement term
  | block {body : List Term} (inner : ∀ statement ∈ body, Formed .statement statement) :
      Formed .statement (.block body)
  | conditional {test accepted : Term} (condition : Formed .expression test)
      (consequence : Formed .statement accepted) : Formed .statement (.branch test accepted none)
  | alternative {test accepted otherwise : Term} (condition : Formed .expression test)
      (consequence : Formed .statement accepted) (settled : endsOpen accepted = false)
      (replacement : Formed .statement otherwise) :
      Formed .statement (.branch test accepted (some otherwise))
  | function {name : String} {parameters : List String} {body : List Term}
      (callable : Assembly.isReserved name = false) (few : parameters.length ≤ 6)
      (distinct : parameters.Nodup) (inner : ∀ statement ∈ body, Formed .statement statement) :
      Formed .statement (.function name parameters body)

def WellFormed (body : List Term) : Prop := ∀ statement ∈ body, Formed .statement statement

private theorem Formed.join {left right : Term} (link : Link) (first : Formed .expression left)
    (second : Formed .expression right) : Formed .expression (link.join left right) := by
  unfold Link.join
  split
  · exact .apply second first
  · exact .apply first second

private theorem Formed.endsOpen_eq_false {term : Term} (formed : Formed .expression term) :
    endsOpen term = false := by
  cases formed <;> rfl

/-- A call made of expressions numbers them as its arguments. -/
theorem Formed.invoke {name : String} {values : List Term}
    (callable : Assembly.isReserved name = false) (few : values.length ≤ 6)
    (inner : ∀ value ∈ values, Formed .expression value) :
    Formed .expression (Term.invoke name values) := by
  have size : (numbered values).length = values.length := by simp [numbered]
  rw [invoke_eq_call]
  apply Formed.call callable
  · rw [size]
    exact few
  · rw [size, numbered]
    exact List.map_fst_zip (by simp)
  · intro argument member
    exact inner argument.2 (List.of_mem_zip member).2

structure Builds (ending : Token) (size : Nat) : Prop where
  statement : ∀ {tokens rest : List Token} {term : Term}, tokens.length < size →
    Yields (statement ending tokens) term rest →
    Formed .statement term ∧ (endsOpen term → Lacks "else" rest)
  blockBody : ∀ {tokens rest : List Token} {body : List Term}, tokens.length < size →
    Yields (blockBody ending tokens) body rest → WellFormed body
  expression : ∀ {tokens rest : List Token} {term : Term}, tokens.length < size →
    Yields (expression ending tokens) term rest → Formed .expression term
  assignment : ∀ {tokens rest : List Token} {term : Term}, tokens.length < size →
    Yields (assignment ending tokens) term rest → Formed .expression term
  operand : ∀ {tier : Tier} {tokens rest : List Token} {term : Term}, tokens.length < size →
    Yields (operand ending tier tokens) term rest → Formed .expression term
  primary : ∀ {tokens rest : List Token} {term : Term}, tokens.length < size →
    Yields (primary ending tokens) term rest → Formed .expression term
  argumentList : ∀ {count : Nat} {tokens rest : List Token} {values : List Term},
    tokens.length < size → count ≤ 6 → Yields (argumentList ending count tokens) values rest →
    count + values.length ≤ 6 ∧ ∀ value ∈ values, Formed .expression value

variable {ending : Token} {tokens rest : List Token} {term : Term}

theorem Builds.mono {size limit : Nat} (builds : Builds ending limit) (within : size ≤ limit) :
    Builds ending size where
  statement fewer := builds.statement (by omega)
  blockBody fewer := builds.blockBody (by omega)
  expression fewer := builds.expression (by omega)
  assignment fewer := builds.assignment (by omega)
  operand fewer := builds.operand (by omega)
  primary fewer := builds.primary (by omega)
  argumentList fewer := builds.argumentList (by omega)

private theorem arguments_formed {values : List Term} (below : Builds ending (tokens.length + 1))
    (read : Yields (arguments ending tokens) values rest) :
    values.length ≤ 6 ∧ ∀ value ∈ values, Formed .expression value := by
  rw [arguments] at read
  split at read
  next =>
    obtain ⟨rfl, rfl⟩ := yields_pure.mp read
    simp
  next =>
    obtain ⟨few, formed⟩ := below.argumentList (Nat.lt_succ_self _) (Nat.zero_le 6) read
    exact ⟨by omega, formed⟩

theorem primary_formed (below : Builds ending tokens.length)
    (read : Yields (primary ending tokens) term rest) : Formed .expression term := by
  rw [primary] at read
  split at read
  next after fewer _ =>
    obtain ⟨⟨inner, afterInner, shorter⟩, begun, continued⟩ := yields_bind.mp read
    obtain ⟨_, _, finished⟩ := yields_bind.mp continued
    obtain ⟨rfl, rfl⟩ := yields_pure.mp finished
    exact below.expression fewer ⟨shorter, begun⟩
  next =>
    cases tokens with
    | nil => exact (not_yields_error read).elim
    | cons token after =>
      simp only [next?] at read
      split at read
      next name _ =>
        split at read
        next afterOpen fewer _ =>
          obtain ⟨_, checked, continued⟩ := yields_bind.mp read
          obtain ⟨⟨values, left, shorter⟩, begun, finished⟩ := yields_bind.mp continued
          obtain ⟨rfl, rfl⟩ := yields_pure.mp finished
          have callable : Assembly.isReserved name = false := by
            simpa [checkCallable] using checked
          obtain ⟨few, formed⟩ :=
            arguments_formed (below.mono (by simp only [List.length_cons]; omega)) ⟨shorter, begun⟩
          exact Formed.invoke callable few formed
        next =>
          obtain ⟨rfl, rfl⟩ := yields_pure.mp read
          exact .var name
      next value _ =>
        obtain ⟨rfl, rfl⟩ := yields_pure.mp read
        exact .literal value
      next => exact (not_yields_error read).elim

private theorem unary_formed (below : Builds ending tokens.length)
    (read : Yields (unary ending tokens) term rest) : Formed .expression term := by
  rw [unary] at read
  split at read
  next after fewer _ =>
    obtain ⟨⟨inner, left, shorter⟩, begun, finished⟩ := yields_bind.mp read
    obtain ⟨rfl, rfl⟩ := yields_pure.mp finished
    exact below.primary fewer ⟨shorter, begun⟩
  next =>
    split at read
    next after fewer _ =>
      obtain ⟨⟨inner, left, shorter⟩, begun, finished⟩ := yields_bind.mp read
      obtain ⟨rfl, rfl⟩ := yields_pure.mp finished
      exact .apply (.literal 0) (below.primary fewer ⟨shorter, begun⟩)
    next => exact primary_formed below read

/-- The links behind an expression make an expression. -/
theorem chainFrom_formed {tier : Tier} {tokens rest : List Token} {left term : Term}
    (below : Builds ending (tokens.length + 1)) (formed : Formed .expression left)
    (read : Yields (chainFrom ending tier left tokens) term rest) :
    Formed .expression term := by
  rw [chainFrom] at read
  split at read
  next =>
    obtain ⟨rfl, rfl⟩ := yields_pure.mp read
    exact formed
  next link after fewer _ =>
    obtain ⟨⟨right, afterRight, shorter⟩, begun, continued⟩ := yields_bind.mp read
    obtain ⟨⟨found, remaining, less⟩, ended, finished⟩ := yields_bind.mp continued
    obtain ⟨rfl, rfl⟩ := yields_pure.mp finished
    have second := below.operand (by omega) ⟨shorter, begun⟩
    exact chainFrom_formed (below.mono (by omega)) (formed.join link second) ⟨less, ended⟩
termination_by tokens.length

theorem chain_formed {tier : Tier} (below : Builds ending tokens.length)
    (here : ∀ {left : List Token} {found : Term}, Yields (operand ending tier tokens) found left →
      Formed .expression found)
    (read : Yields (chain ending tier tokens) term rest) : Formed .expression term := by
  rw [chain] at read
  obtain ⟨⟨first, afterFirst, shorter⟩, begun, continued⟩ := yields_bind.mp read
  obtain ⟨⟨found, left, fewer⟩, ended, finished⟩ := yields_bind.mp continued
  obtain ⟨rfl, rfl⟩ := yields_pure.mp finished
  exact chainFrom_formed (below.mono shorter) (here ⟨shorter, begun⟩) ⟨fewer, ended⟩

theorem operand_formed {tier : Tier} (below : Builds ending tokens.length)
    (read : Yields (operand ending tier tokens) term rest) : Formed .expression term := by
  induction level : tier.height using Nat.strongRecOn generalizing tier rest term with
  | ind height ih =>
    cases tier with
    | product => rw [operand] at read; exact unary_formed below read
    | sum => rw [operand] at read; exact chain_formed below (ih 1 (by subst level; decide) · rfl) read
    | comparison => rw [operand] at read; exact chain_formed below (ih 2 (by subst level; decide) · rfl) read
    | equality => rw [operand] at read; exact chain_formed below (ih 3 (by subst level; decide) · rfl) read

theorem assignment_formed (below : Builds ending tokens.length)
    (read : Yields (assignment ending tokens) term rest) : Formed .expression term := by
  rw [assignment] at read
  obtain ⟨⟨target, afterTarget, shorter⟩, begun, continued⟩ := yields_bind.mp read
  simp only at continued
  split at continued
  next =>
    obtain ⟨rfl, rfl⟩ := yields_pure.mp continued
    exact chain_formed below (operand_formed below) ⟨shorter, begun⟩
  next after _ _ =>
    split at continued
    next name =>
      split at continued
      next =>
        obtain ⟨⟨body, left, fewer⟩, entered, finished⟩ := yields_bind.mp continued
        obtain ⟨rfl, rfl⟩ := yields_pure.mp finished
        exact .assignBlock (below.blockBody (by omega) ⟨fewer, entered⟩)
      next =>
        obtain ⟨⟨value, left, fewer⟩, entered, finished⟩ := yields_bind.mp continued
        obtain ⟨rfl, rfl⟩ := yields_pure.mp finished
        exact .assign (below.assignment (by omega) ⟨fewer, entered⟩)
    next => exact (not_yields_error continued).elim

theorem expression_formed (below : Builds ending tokens.length)
    (read : Yields (expression ending tokens) term rest) : Formed .expression term := by
  rw [expression] at read
  split at read
  next after fewer _ =>
    split at read
    next =>
      obtain ⟨⟨value, left, shorter⟩, entered, finished⟩ := yields_bind.mp read
      obtain ⟨rfl, rfl⟩ := yields_pure.mp finished
      exact .leaveWith (below.assignment fewer ⟨shorter, entered⟩)
    next =>
      obtain ⟨rfl, rfl⟩ := yields_pure.mp read
      exact .leave
  next => exact assignment_formed below read

private theorem argumentList_formed {count : Nat} {values : List Term} (below : Builds ending tokens.length)
    (within : count ≤ 6) (read : Yields (argumentList ending count tokens) values rest) :
    count + values.length ≤ 6 ∧ ∀ value ∈ values, Formed .expression value := by
  rw [argumentList] at read
  split at read
  next => exact (not_yields_error read).elim
  next free =>
    have room : count < 6 := Nat.lt_of_le_of_ne within free
    obtain ⟨⟨value, afterValue, shorter⟩, begun, continued⟩ := yields_bind.mp read
    have first := assignment_formed below ⟨shorter, begun⟩
    simp only at continued
    split at continued
    next after _ _ =>
      obtain ⟨⟨others, left, fewer⟩, entered, finished⟩ := yields_bind.mp continued
      obtain ⟨rfl, rfl⟩ := yields_pure.mp finished
      obtain ⟨few, formed⟩ := below.argumentList (by omega) room ⟨fewer, entered⟩
      exact ⟨by simp only [List.length_cons]; omega, List.forall_mem_cons.mpr ⟨first, formed⟩⟩
    next =>
      obtain ⟨_, _, finished⟩ := yields_bind.mp continued
      obtain ⟨rfl, rfl⟩ := yields_pure.mp finished
      exact ⟨room, List.forall_mem_singleton.mpr first⟩

private theorem definition_formed (below : Builds ending (tokens.length + 1))
    (read : Yields (definition ending tokens) term rest) :
    Formed .statement term ∧ endsOpen term = false := by
  rw [definition] at read
  obtain ⟨⟨⟨name, token⟩, afterName, _⟩, _, continued⟩ := yields_bind.mp read
  obtain ⟨_, checked, continued⟩ := yields_bind.mp continued
  have callable : Assembly.isReserved name = false := by simpa [checkCallable] using checked
  obtain ⟨⟨afterOpen, _⟩, _, continued⟩ := yields_bind.mp continued
  obtain ⟨⟨names, afterNames, fewer⟩, listed, continued⟩ := yields_bind.mp continued
  obtain ⟨⟨afterBrace, _⟩, _, continued⟩ := yields_bind.mp continued
  obtain ⟨⟨body, left, less⟩, entered, finished⟩ := yields_bind.mp continued
  obtain ⟨rfl, rfl⟩ := yields_pure.mp finished
  obtain ⟨few, distinct, _⟩ := parameters_sound ⟨fewer, listed⟩
  exact ⟨.function callable few distinct (below.blockBody (by omega) ⟨less, entered⟩), rfl⟩

private theorem lacks_of_accept?_eq_none {symbol : String} (refused : accept? symbol tokens = none) :
    Lacks symbol tokens := by
  intro token next
  obtain ⟨further, rfl⟩ := List.head?_eq_some_iff.mp next
  cases same : token.is symbol with
  | false => rfl
  | true => simp [accept?_cons same] at refused

/-- In front of `else` the statement is not open, because an open one leaves no `else`. -/
theorem conditional_formed (below : Builds ending (tokens.length + 1))
    (read : Yields (conditional ending tokens) term rest) :
    Formed .statement term ∧ (endsOpen term → Lacks "else" rest) := by
  rw [conditional] at read
  obtain ⟨⟨afterOpen, _⟩, _, continued⟩ := yields_bind.mp read
  obtain ⟨⟨test, afterTest, shorter⟩, tested, continued⟩ := yields_bind.mp continued
  have condition := below.expression (by omega) ⟨shorter, tested⟩
  obtain ⟨⟨afterClose, _⟩, _, continued⟩ := yields_bind.mp continued
  obtain ⟨⟨accepted, afterAccepted, fewer⟩, chosen, continued⟩ := yields_bind.mp continued
  obtain ⟨consequence, unfollowed⟩ := below.statement (by omega) ⟨fewer, chosen⟩
  simp only at continued
  split at continued
  next after _ accepts =>
    obtain ⟨other, follows, rfl⟩ := accept?_eq_some_iff.mp accepts
    obtain ⟨⟨otherwise, left, less⟩, entered, finished⟩ := yields_bind.mp continued
    obtain ⟨rfl, rfl⟩ := yields_pure.mp finished
    obtain ⟨replacement, still⟩ := below.statement (by omega) ⟨less, entered⟩
    have settled : endsOpen accepted = false := by
      cases ends : endsOpen accepted with
      | false => rfl
      | true => simp [unfollowed ends other rfl] at follows
    exact ⟨.alternative condition consequence settled replacement, still⟩
  next refused =>
    obtain ⟨rfl, rfl⟩ := yields_pure.mp continued
    exact ⟨.conditional condition consequence, fun _ => lacks_of_accept?_eq_none refused⟩

theorem statement_formed (below : Builds ending tokens.length)
    (read : Yields (statement ending tokens) term rest) :
    Formed .statement term ∧ (endsOpen term → Lacks "else" rest) := by
  rw [statement] at read
  split at read
  next after fewer _ =>
    obtain ⟨⟨found, left, shorter⟩, entered, finished⟩ := yields_bind.mp read
    obtain ⟨rfl, rfl⟩ := yields_pure.mp finished
    exact conditional_formed (below.mono fewer) ⟨shorter, entered⟩
  next =>
  split at read
  next after fewer _ =>
    obtain ⟨⟨body, left, shorter⟩, entered, finished⟩ := yields_bind.mp read
    obtain ⟨rfl, rfl⟩ := yields_pure.mp finished
    exact ⟨.block (below.blockBody fewer ⟨shorter, entered⟩), by simp [endsOpen]⟩
  next =>
  split at read
  next after fewer _ =>
    obtain ⟨⟨found, left, shorter⟩, entered, finished⟩ := yields_bind.mp read
    obtain ⟨rfl, rfl⟩ := yields_pure.mp finished
    obtain ⟨formed, settled⟩ := definition_formed (below.mono fewer) ⟨shorter, entered⟩
    exact ⟨formed, by simp [settled]⟩
  next =>
    obtain ⟨⟨found, left, shorter⟩, entered, finished⟩ := yields_bind.mp read
    obtain ⟨rfl, rfl⟩ := yields_pure.mp finished
    have formed := expression_formed below ⟨shorter, entered⟩
    exact ⟨.expression formed, by simp [formed.endsOpen_eq_false]⟩

private theorem blockBody_formed {body : List Term} (below : Builds ending tokens.length)
    (read : Yields (blockBody ending tokens) body rest) : WellFormed body := by
  rw [blockBody] at read
  split at read
  next =>
    obtain ⟨rfl, rfl⟩ := yields_pure.mp read
    exact List.forall_mem_nil _
  next =>
    split at read
    next => exact (not_yields_error read).elim
    next =>
      obtain ⟨⟨first, afterFirst, shorter⟩, begun, continued⟩ := yields_bind.mp read
      obtain ⟨⟨others, left, fewer⟩, entered, finished⟩ := yields_bind.mp continued
      obtain ⟨rfl, rfl⟩ := yields_pure.mp finished
      have head := (statement_formed below ⟨shorter, begun⟩).1
      exact List.forall_mem_cons.mpr ⟨head, below.blockBody shorter ⟨fewer, entered⟩⟩

private theorem builds (ending : Token) (size : Nat) : Builds ending size := by
  induction size with
  | zero => constructor <;> intros <;> contradiction
  | succ size ih =>
    have below {tokens : List Token} (fewer : tokens.length < size + 1) : Builds ending tokens.length :=
      ih.mono (by omega)
    constructor
    · exact fun fewer read => statement_formed (below fewer) read
    · exact fun fewer read => blockBody_formed (below fewer) read
    · exact fun fewer read => expression_formed (below fewer) read
    · exact fun fewer read => assignment_formed (below fewer) read
    · exact fun fewer read => operand_formed (below fewer) read
    · exact fun fewer read => primary_formed (below fewer) read
    · exact fun fewer within read => argumentList_formed (below fewer) within read

private theorem program_formed {tokens rest : List Token} {body : List Term}
    (read : program ending tokens = .ok (body, rest)) :
    WellFormed body := by
  rw [program] at read
  split at read
  next =>
    obtain ⟨⟨first, afterFirst, shorter⟩, begun, continued⟩ := bind_eq_ok.mp read
    obtain ⟨⟨others, left⟩, entered, finished⟩ := bind_eq_ok.mp continued
    cases finished
    have head := ((builds ending _).statement (Nat.lt_succ_self _) ⟨shorter, begun⟩).1
    exact List.forall_mem_cons.mpr ⟨head, program_formed entered⟩
  next =>
    cases read
    exact List.forall_mem_nil _
termination_by tokens.length

/-- Whatever is read is well-formed. -/
theorem wellFormed_of_parse {body : List Term} (accepted : parse tokens = .ok body) : WellFormed body :=
  program_formed (parse_eq_ok_iff.mp accepted)

end Stackwise.Proofs.Formation
