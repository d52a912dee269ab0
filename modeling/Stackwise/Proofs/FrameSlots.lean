import Stackwise.Proofs.Sections

/-! The slots of variables. Every line that deals with a slot names its variable in a comment, and the
slots are claimed in the order in which the comments first name their variables. Slots are never given
back or moved, so a variable has one slot in the whole listing, and a function whose frame holds every
slot claimed up to its end has room for those that it uses. -/

namespace Stackwise.Proofs.FrameSlots
open Assembly Lowering SourceTerms EmittedCode Loading EmittedListing Sections

def comment? : Line → Option String
  | .code _ comment => comment
  | .directive _ | .label _ => none

def comments (lines : Listing) : List String := lines.filterMap comment?

/-- How far below the base of the frame the slot lies whose address an instruction computes or in which
it stores a register. -/
def slotDistance? : Instruction → Option Int
  | .arithmetic .sub (.register target) (.immediate distance) => if target = Register.rax then some distance else none
  | .mov (.memory base distance) _ => if base = Register.rbp then some distance else none
  | _ => none

def isPlain : Line → Bool
  | .code instruction comment => (slotDistance? instruction).isNone && comment.isNone
  | .directive _ | .label _ => true

@[simp] theorem comments_append (front back : Listing) :
    comments (front ++ back) = comments front ++ comments back := by
  simp [comments]

def distanceIn (slots : List String) (name : String) : Nat := 8 * (slots.idxOf name + 1)

private theorem distance_eq (allocation : Allocation) (name : String) :
    allocation.distance name = distanceIn allocation.slots name := rfl

/-- The slots after those of the names were claimed, one after the other. -/
def claimed (slots : List String) : List String → List String
  | [] => slots
  | name :: rest => claimed (if name ∈ slots then slots else slots ++ [name]) rest

private theorem slots_claim_eq (allocation : Allocation) (name : String) :
    (allocation.claim name).slots = claimed allocation.slots [name] := by
  by_cases known : name ∈ allocation.slots
  · simp [Allocation.claim, claimed, known]
  · simp [Allocation.claim, claimed, known]

@[simp] theorem claimed_append (slots front back : List String) :
    claimed slots (front ++ back) = claimed (claimed slots front) back := by
  induction front generalizing slots with
  | nil => rfl
  | cons name rest ih => exact ih _

private theorem prefix_claimed (slots names : List String) : slots <+: claimed slots names := by
  induction names generalizing slots with
  | nil => exact List.prefix_refl _
  | cons name rest ih =>
    refine List.IsPrefix.trans ?_ (ih _)
    split
    · exact List.prefix_refl _
    · exact List.prefix_append _ _

/-- The names that own no slot yet claim theirs in the order in which they first occur. -/
theorem claimed_eq (slots names : List String) :
    claimed slots names = slots ++ (names.filter (· ∉ slots)).eraseDups := by
  induction names generalizing slots with
  | nil => simp [claimed]
  | cons name rest ih =>
    rw [claimed]
    split
    next known => rw [ih, List.filter_cons_of_neg (by simpa using known)]
    next fresh =>
      rw [ih, List.filter_cons_of_pos (by simpa using fresh), List.eraseDups_cons, List.append_assoc]
      have same : rest.filter (· ∉ slots ++ [name]) =
          (rest.filter (· ∉ slots)).filter (fun other => !other == name) := by
        rw [List.filter_filter]
        congr 1
        funext other
        simp [not_or, and_comm, beq_eq_decide]
      rw [same]
      rfl

private theorem nodup_claimed {slots : List String} (distinct : slots.Nodup) (names : List String) :
    (claimed slots names).Nodup := by
  induction names generalizing slots with
  | nil => exact distinct
  | cons name rest ih =>
    apply ih
    split
    next => exact distinct
    next fresh =>
      refine List.nodup_append.mpr ⟨distinct, by simp, fun known member other same => ?_⟩
      rintro rfl
      rw [List.mem_singleton.mp same] at member
      exact fresh member

private theorem claimed_nil (names : List String) : claimed [] names = names.eraseDups := by
  simp [claimed_eq]

def Slotted (slots : List String) (lines : Listing) : Prop :=
  ∀ instruction comment, .code instruction comment ∈ lines →
    slotDistance? instruction = comment.map (fun name => (distanceIn slots name : Int)) ∧
      ∀ name ∈ comment, name ∈ slots

structure Claims (start final : List String) (lines : Listing) : Prop where
  slots : final = claimed start (comments lines)
  slotted : ∀ slots, final <+: slots → Slotted slots lines

section
variable {start between final slots : List String} {front back lines : Listing}

private theorem Slotted.append (first : Slotted slots front) (second : Slotted slots back) :
    Slotted slots (front ++ back) := by
  intro instruction comment member
  rcases List.mem_append.mp member with member | member
  · exact first instruction comment member
  · exact second instruction comment member

theorem Claims.append (first : Claims start between front) (second : Claims between final back) :
    Claims start final (front ++ back) := by
  have grown : between <+: final := by
    rw [second.slots]
    exact prefix_claimed _ _
  refine ⟨by rw [comments_append, claimed_append, ← first.slots, second.slots], fun slots most => ?_⟩
  exact (first.slotted slots (grown.trans most)).append (second.slotted slots most)

theorem comments_of_plain (plain : lines.all isPlain = true) : comments lines = [] := by
  refine List.filterMap_eq_nil_iff.mpr fun line member => ?_
  have both := List.all_eq_true.mp plain line member
  cases line with
  | directive => rfl
  | label => rfl
  | code instruction comment =>
    simp only [isPlain, Bool.and_eq_true, Option.isNone_iff_eq_none] at both
    exact both.2

theorem claims_of_plain (plain : lines.all isPlain = true) : Claims slots slots lines := by
  constructor
  · rw [comments_of_plain plain, claimed]
  · intro slots most instruction comment member
    have both := List.all_eq_true.mp plain _ member
    simp only [isPlain, Bool.and_eq_true, Option.isNone_iff_eq_none] at both
    rw [both.1, both.2]
    exact ⟨rfl, nofun⟩

/-- A line that deals with the slot of its variable claims that slot. -/
theorem claims_of_slot {allocation : Allocation} {name : String} {instruction : Instruction}
    (distant : slotDistance? instruction = some ((allocation.claim name).distance name : Int)) :
    Claims allocation.slots (allocation.claim name).slots [.code instruction (some name)] := by
  refine ⟨slots_claim_eq allocation name, fun slots most other comment member => ?_⟩
  cases List.mem_singleton.mp member
  have known := allocation.mem_slots_claim name
  obtain ⟨later, rfl⟩ := most
  have same : distanceIn ((allocation.claim name).slots ++ later) name = (allocation.claim name).distance name := by
    rw [distance_eq, distanceIn, distanceIn, List.idxOf_append_of_mem known]
  refine ⟨by rw [distant, Option.map_some, same], fun other same => ?_⟩
  cases same
  exact List.mem_append_left _ known

private theorem claims_addressLines (allocation : Allocation) (name : String) :
    Claims allocation.slots (allocation.claim name).slots
      (addressLines name ((allocation.claim name).distance name)) := by
  have opening : Claims allocation.slots allocation.slots [.code (.mov Register.rax Register.rbp) none] :=
    claims_of_plain rfl
  have closing : Claims (allocation.claim name).slots (allocation.claim name).slots
      [.code (.push Register.rax) none] := claims_of_plain rfl
  exact opening.append ((claims_of_slot rfl).append closing)

theorem plain_literalLines (value : Int64) : (literalLines value).all isPlain = true := by
  unfold literalLines
  split
  · rfl
  · rfl

theorem plain_combineLines (operator : Operator) : (combineLines operator).all isPlain = true := by
  cases operator <;> rfl

theorem plain_popLines (count : Nat) : (popLines count).all isPlain = true := by
  rw [popLines, List.all_map]
  exact List.all_eq_true.mpr fun _ _ => rfl

theorem plain_callLines (depth : Nat) (callee : String) : (callLines depth callee).all isPlain = true := by
  unfold callLines
  split
  · rfl
  · rfl

theorem plain_frameLines (size : Nat) : (frameLines size).all isPlain = true := by
  unfold frameLines
  split
  · rfl
  · rfl

end

section
variable {permitted : String → Nat → Prop} {start final : Allocation} {lines : Listing}

private theorem claims_of_emits {function : String} {piece : Piece}
    (emitted : Emits permitted function piece start lines final) : Claims start.slots final.slots lines := by
  induction emitted with
  | literal => exact claims_of_plain (plain_literalLines _)
  | var => exact (claims_addressLines _ _).append (claims_of_plain rfl)
  | leave | function | finish | zero | noArgument => exact claims_of_plain rfl
  | assign _ _ ih => exact (claims_addressLines _ _).append (ih.append (claims_of_plain rfl))
  | apply _ _ one two => exact one.append (two.append (claims_of_plain (plain_combineLines _)))
  | call _ _ _ _ ih =>
    refine ih.append ((claims_of_plain (plain_popLines _)).append ((claims_of_plain rfl).append ?_))
    exact (claims_of_plain (plain_callLines _ _)).append (claims_of_plain rfl)
  | branch _ _ _ one two three =>
    refine one.append ((claims_of_plain rfl).append (two.append ((claims_of_plain rfl).append ?_)))
    exact three.append (claims_of_plain rfl)
  | leaveWith _ ih | expression _ _ ih | statement _ _ _ ih => exact ih.append (claims_of_plain rfl)
  | block _ ih | last _ _ ih => exact ih
  | next _ _ _ one two | argument _ _ one two => exact one.append two

private theorem claims_parameterLines (start : Allocation) (stored : List (String × Register)) :
    Claims start.slots (claimAll start stored).slots (parameterLines start stored) := by
  induction stored generalizing start with
  | nil => exact claims_of_plain rfl
  | cons pair rest ih => exact (claims_of_slot rfl : Claims _ _ [_]).append (ih (start.claim pair.1))

theorem claims_interior {function : Definition} {body : Listing}
    (code : FunctionCode permitted function start final body) :
    Claims start.slots final.slots (interior function start final.frameSize body) := by
  refine (claims_of_plain (plain_frameLines _)).append ((claims_of_plain rfl).append ?_)
  refine (claims_parameterLines { start with depth := 0 } _).append ?_
  exact (claims_of_emits code.emitted).append (claims_of_plain rfl)

theorem claims_functionLines {function : Definition} {body : Listing}
    (code : FunctionCode permitted function start final body) :
    Claims start.slots final.slots (functionLines function start final.frameSize body) := by
  have label : Claims start.slots start.slots [.label function.name] := claims_of_plain rfl
  exact label.append (claims_interior code)

private theorem claims_functions {functions : List Definition} (code : Functions permitted functions start lines final) :
    Claims start.slots final.slots lines := by
  induction code with
  | nil => exact claims_of_plain rfl
  | cons head tail ih => exact (claims_functionLines head).append ih

end

mutual

/-- The variables of a term for which there is code, in the order of their code. Statements behind a return
have none, and a definition has its code elsewhere. -/
def named : Term → List String
  | .literal _ | .leave none | .function .. => []
  | .var name => [name]
  | .assign target value => target :: named value
  | .apply _ left right => named left ++ named right
  | .branch test accepted none => named test ++ named accepted
  | .branch test accepted (some otherwise) => named test ++ named accepted ++ named otherwise
  | .leave (some value) => named value
  | .block body => bodyNamed body
  | .call _ arguments => argumentNamed arguments

def bodyNamed : List Term → List String
  | [] => []
  | statement :: rest => named statement ++ if statement.returns then [] else bodyNamed rest

def argumentNamed : List (Nat × Term) → List String
  | [] => []
  | (_, value) :: rest => named value ++ argumentNamed rest

end

def functionNamed (function : Definition) : List String := function.parameters ++ bodyNamed function.body

def pieceNamed : Piece → List String
  | .term _ whole => named whole
  | .block _ body => bodyNamed body
  | .arguments values => argumentNamed values

section
variable {permitted : String → Nat → Prop} {start final : Allocation} {lines : Listing}

theorem comments_addressLines (name : String) (distance : Nat) : comments (addressLines name distance) = [name] := rfl

/-- The lines of a piece name its variables. -/
theorem comments_of_emits {function : String} {piece : Piece}
    (emitted : Emits permitted function piece start lines final) : comments lines = pieceNamed piece := by
  induction emitted with
  | literal => exact comments_of_plain (plain_literalLines _)
  | var => rfl
  | leave | function | finish | zero | noArgument => rfl
  | assign _ _ ih =>
    rw [comments_append, comments_append, ih, comments_of_plain (show storeLines.all isPlain = true from rfl)]
    simp [comments_addressLines, pieceNamed, named]
  | apply _ _ one two =>
    rw [comments_append, comments_append, one, two, comments_of_plain (plain_combineLines _)]
    simp [pieceNamed, named]
  | call _ _ _ _ ih =>
    simp only [comments_append, ih, comments_of_plain (plain_popLines _), comments_of_plain (plain_callLines _ _)]
    simp [comments, comment?, pieceNamed, named]
  | @branch _ _ otherwise start _ _ _ _ _ _ _ _ _ one two three =>
    have test : (testLines start.labels).all isPlain = true := rfl
    have skip : (skipLines start.labels).all isPlain = true := rfl
    have ends : ([.label (endLabel start.labels)] : Listing).all isPlain = true := rfl
    simp only [comments_append, one, two, three, comments_of_plain test, comments_of_plain skip, comments_of_plain ends]
    cases otherwise with
    | none => simp [pieceNamed, named, alternative, bodyNamed]
    | some otherwise => simp [pieceNamed, named, alternative]
  | leaveWith _ ih | expression _ _ ih | statement _ _ _ ih =>
    rw [comments_append, ih, comments_of_plain rfl, List.append_nil]
    simp [pieceNamed, named]
  | block _ ih =>
    rw [ih]
    simp [pieceNamed, named]
  | last _ _ ih =>
    rw [ih]
    simp [pieceNamed, bodyNamed]
  | @next _ term _ _ _ _ _ _ _ _ _ one two =>
    rw [comments_append, one, two]
    cases returns : term.returns with
    | true => simp [pieceNamed, bodyNamed, returns]
    | false => simp [pieceNamed, bodyNamed, returns]
  | argument _ _ one two =>
    rw [comments_append, one, two]
    simp [pieceNamed, argumentNamed]

private theorem comments_parameterLines (start : Allocation) (stored : List (String × Register)) :
    comments (parameterLines start stored) = stored.map (·.1) := by
  induction stored generalizing start with
  | nil => rfl
  | cons pair rest ih => exact congrArg (pair.1 :: ·) (ih (start.claim pair.1))

private theorem comments_interior {function : Definition} {body : Listing}
    (code : FunctionCode permitted function start final body) :
    comments (interior function start final.frameSize body) = functionNamed function := by
  have stored : (function.parameters.zip argumentRegisters).map (·.1) = function.parameters :=
    List.map_fst_zip code.few
  have leaving : (epilogue function.name).all isPlain = true := rfl
  simp only [Sections.interior, comments_append, comments_of_plain (plain_frameLines _), comments_parameterLines, stored,
    comments_of_emits code.emitted, comments_of_plain leaving]
  simp [functionNamed, pieceNamed, comments, comment?]

/-- Each function has a section, whose lines name its parameters and then the variables of its body. -/
theorem functions_named {functions : List Definition} (code : Functions permitted functions start lines final)
    (identifiers : ∀ function ∈ functions, Identifier function.name) :
    (sections lines).map (fun part => (part.name, comments part.lines)) =
      functions.map fun function => (function.name, functionNamed function) := by
  induction code with
  | nil => rfl
  | cons head tail ih =>
    rw [sections_functionLines identifiers head tail, List.map_cons, List.map_cons,
      ih fun other member => identifiers other (List.mem_cons_of_mem _ member)]
    rw [comments_interior head]

end

/-- A function with a frame of a size, when `slots` are claimed at its end: the frame is as large as
the slots need in whole pairs of words, it is set up unless there are none, and the function uses no
slot outside of it. -/
structure Fitted (slots : List String) (part : Section) (size : Nat) : Prop where
  paired : 16 ∣ size
  enough : 8 * slots.length ≤ size
  least : size < 8 * slots.length + 16
  reserved : ∃ rest, part.lines = frameLines size ++ (.code (.mov Register.rax (.immediate 0)) none :: rest)
  absent : size = 0 ↔ slots.length = 0
  covered : ∀ instruction ∈ instructions part.lines, ∀ distance ∈ slotDistance? instruction, distance ≤ size

section
variable {permitted : String → Nat → Prop} {start final : Allocation} {lines : Listing}

private theorem distanceIn_le {slots : List String} {name : String} (known : name ∈ slots) :
    distanceIn slots name ≤ 8 * slots.length := by
  have inside := List.idxOf_lt_length_of_mem known
  rw [distanceIn]
  omega

private theorem fitted_interior {function : Definition} {body : Listing}
    (code : FunctionCode permitted function start final body) :
    Fitted final.slots ⟨function.name, interior function start final.frameSize body⟩ final.frameSize := by
  have size : final.frameSize = (8 * final.slots.length + 15) / 16 * 16 := rfl
  refine ⟨Nat.dvd_mul_left .., by omega, by omega, ⟨_, rfl⟩, by omega, ?_⟩
  intro instruction member distance used
  obtain ⟨line, listed, found⟩ := List.mem_filterMap.mp member
  cases line with
  | directive => cases found
  | label => cases found
  | code other comment =>
    cases found
    obtain ⟨same, known⟩ := (claims_interior code).slotted _ (List.prefix_refl _) instruction comment listed
    rw [same] at used
    obtain ⟨name, named, rfl⟩ := Option.map_eq_some_iff.mp used
    have near := distanceIn_le (known name named)
    omega

/-- Every function has a frame for the slots that are claimed up to its end. -/
theorem functions_fitted {functions : List Definition} (code : Functions permitted functions start lines final)
    (identifiers : ∀ function ∈ functions, Identifier function.name) {before : List String}
    (claims : start.slots = claimed [] before) :
    ∀ earlier part later, sections lines = earlier ++ part :: later →
      ∃ size, Fitted (claimed [] (before ++ comments ((earlier ++ [part]).flatMap Section.whole))) part size := by
  induction code generalizing before with
  | nil =>
    intro earlier part later parted
    simp [sections] at parted
  | @cons function rest start between final body back head tail ih =>
    intro earlier part later parted
    have slots : between.slots =
        claimed [] (before ++ comments (functionLines function start between.frameSize body)) := by
      rw [claimed_append, ← claims, (claims_functionLines head).slots]
    rw [sections_functionLines identifiers head tail] at parted
    rcases List.cons_eq_append_iff.mp parted with ⟨rfl, same⟩ | ⟨others, rfl, same⟩
    · obtain ⟨rfl, rfl⟩ := List.cons.inj same
      have own := fitted_interior head
      rw [slots] at own
      rw [List.nil_append, List.flatMap_singleton]
      exact ⟨_, own⟩
    · have others_identified : ∀ other ∈ rest, Identifier other.name :=
        fun other member => identifiers other (List.mem_cons_of_mem _ member)
      have onward := ih others_identified slots others part later same
      rw [List.cons_append, List.flatMap_cons, comments_append]
      rwa [List.append_assoc] at onward

end

def slotNames (lines : Listing) : List String := (comments lines).eraseDups

/-- The variables of a listing have slots at these offsets: they are the multiples of a word in the
order in which the variables are first named, no two variables share one, and the lines that deal with
a slot are those that name a variable, at its offset. -/
structure Assigns (offset : String → Nat) (listing : Listing) : Prop where
  ordered : (slotNames listing).map offset =
    (List.range (slotNames listing).length).map (fun index => 8 * (index + 1))
  injective : ∀ first ∈ slotNames listing, ∀ second ∈ slotNames listing, offset first = offset second → first = second
  used : ∀ instruction comment, .code instruction comment ∈ listing →
    slotDistance? instruction = comment.map (fun name => (offset name : Int))

/-- A variable has one slot in the whole of a compiled listing, and the frame of a function holds the
slots of all variables that are named up to its end. The lines of a function name its parameters and the
variables of its body that have code. -/
theorem slots_fitted {source : String} {listing : Listing} (compiled : compile source = .ok listing) :
    listing = header ++ (sections listing).flatMap Section.whole ∧ (∃ offset, Assigns offset listing) ∧
    (∀ earlier part later, sections listing = earlier ++ part :: later →
      ∃ size, Fitted (slotNames ((earlier ++ [part]).flatMap Section.whole)) part size) ∧
    ∃ program, readSource source = .ok program ∧
      (sections listing).map (fun part => (part.name, comments part.lines)) =
        (functions program).map fun function => (function.name, functionNamed function) := by
  obtain ⟨program, lines, final, accepted, -, regular, code, rfl⟩ := compile_functions compiled
  have identifiers : ∀ function ∈ functions program, Identifier function.name :=
    fun function member => (regular function member).1
  have claims := claims_functions code
  have listed : slotNames (header ++ lines) = final.slots := by
    rw [claims.slots]
    exact (claimed_nil _).symm
  have distinct : final.slots.Nodup := by
    rw [claims.slots]
    exact nodup_claimed List.nodup_nil _
  have parts := functions_named code identifiers
  rw [← sections_header] at parts
  refine ⟨by rw [sections_header, (functions_sections code identifiers).1], ⟨distanceIn final.slots, ?_, ?_, ?_⟩, ?_,
    program, accepted, parts⟩
  · rw [listed]
    apply List.ext_getElem
    · simp
    · intro index _ inside
      simp [distanceIn, distinct.idxOf_getElem]
  · rw [listed]
    intro first known second _ same
    rw [distanceIn, distanceIn] at same
    exact (List.idxOf_inj known).mp (by omega)
  · intro instruction comment member
    rcases List.mem_append.mp member with opening | member
    · simp [header] at opening
    · exact (claims.slotted _ (List.prefix_refl _) instruction comment member).1
  · intro earlier part later parted
    have start : Allocation.empty.slots = claimed [] [] := rfl
    have fitted := functions_fitted code identifiers start earlier part later parted
    rwa [List.nil_append, claimed_nil] at fitted

/-- The entry and a function share the slot of a variable, and the function has slots that the entry
has no room for. -/
theorem shared_slots_fitted :
    ∃ listing, compile "x=1;def f(a,b)\x7breturn a+x;\x7df(2,y);" = .ok listing ∧
      (∀ earlier part later, sections listing = earlier ++ part :: later →
        ∃ size, Fitted (slotNames ((earlier ++ [part]).flatMap Section.whole)) part size) ∧
      ∃ program, readSource "x=1;def f(a,b)\x7breturn a+x;\x7df(2,y);" = .ok program ∧
        (sections listing).map (fun part => (part.name, comments part.lines)) =
          (functions program).map fun function => (function.name, functionNamed function) := by
  have compiles : (compile "x=1;def f(a,b)\x7breturn a+x;\x7df(2,y);").isOk = true := by decide +kernel
  cases compiled : compile "x=1;def f(a,b)\x7breturn a+x;\x7df(2,y);" with
  | error diagnostic => simp [compiled, Except.isOk, Except.toBool] at compiles
  | ok listing => exact ⟨listing, rfl, (slots_fitted compiled).2.2⟩

end Stackwise.Proofs.FrameSlots
