import Stackwise.Proofs.CodeFragments
import Stackwise.Proofs.EmittedListing

/-! What emitted code knows at each of its lines. A view says how far the stack pointer is below the
base of the frame, which registers have been written on every way to the line, and whether `rax` is
known to hold the address of a variable. Emitted code reads nothing else: no register that it did not
write, and no word of memory but its own variables and what it has pushed. -/

namespace Stackwise.Proofs.CodeViews
open Assembly Lowering SourceTerms EmittedCode EmittedListing CodeLogic CodeFragments

inductive Level where
  /-- As the function was entered, and as it is left. -/
  | outer
  /-- The base pointer of the caller is saved. -/
  | saved
  /-- Both pointers are at the saved base pointer. -/
  | based
  /-- There is a frame below the base pointer, with values on the evaluation stack. -/
  | inner (depth : Nat)

def Level.pointer (base : Int) (size : Nat) : Level → Int
  | .outer => base + 8
  | .saved | .based => base
  | .inner depth => base - size - 8 * depth

theorem Level.pointer_succ (base : Int) (size depth : Nat) :
    Level.pointer base size (.inner (depth + 1)) = Level.pointer base size (.inner depth) - 8 := by
  simp only [Level.pointer]
  omega

def Level.framed : Level → Bool
  | .outer | .saved => false
  | .based | .inner _ => true

/-- What is known of an address: that `rax` holds the base of the frame or the address of a variable,
or that the latter has been pushed. -/
inductive Aim where
  | unknown
  | base
  | slot
  | pushed

structure View where
  level : Level
  known : List Register
  tested : Bool
  aim : Aim

/-- All that is left to know of a line that can be reached in more than one way. -/
def settled (depth : Nat) : View := ⟨.inner depth, [Register.rax], false, .unknown⟩

def View.Reads (view : View) : Operand → Prop
  | .immediate _ => True
  | .place (.register register) => Scratch register ∧ register ∈ view.known
  | .place (.memory _ _) => False

/-- What an instruction that only leads to the next one may do in a frame of a size. -/
inductive Advances (size : Nat) (view : View) : Instruction → View → Prop where
  | save (level : view.level = .outer) :
      Advances size view (.push Register.rbp) { view with level := .saved, aim := .unknown }
  | rebase (level : view.level = .saved) :
      Advances size view (.mov Register.rbp Register.rsp) { view with level := .based, aim := .unknown }
  | reserve (level : view.level = .based) :
      Advances size view (.arithmetic .sub Register.rsp (.immediate size))
        { view with level := .inner 0, aim := .unknown }
  | lift {depth : Nat} (level : view.level = .inner depth) :
      Advances size view (.mov Register.rsp Register.rbp) { view with level := .based, aim := .unknown }
  | restore (level : view.level = .based) :
      Advances size view (.pop Register.rbp) { view with level := .outer, aim := .unknown }
  | pad {depth : Nat} (level : view.level = .inner depth) :
      Advances size view (.arithmetic .sub Register.rsp (.immediate 8))
        { view with level := .inner (depth + 1), aim := .unknown }
  | unpad {depth : Nat} (level : view.level = .inner (depth + 1)) :
      Advances size view (.arithmetic .add Register.rsp (.immediate 8))
        { view with level := .inner depth, aim := .unknown }
  | push {depth : Nat} {source : Operand} (level : view.level = .inner depth) (reads : view.Reads source) :
      Advances size view (.push source) { view with level := .inner (depth + 1), aim := .unknown }
  | pop {depth : Nat} {register : Register} (level : view.level = .inner (depth + 1)) (scratch : Scratch register) :
      Advances size view (.pop register)
        { view with level := .inner depth, known := register :: view.known, aim := .unknown }
  | aimBase {depth : Nat} (level : view.level = .inner depth) :
      Advances size view (.mov Register.rax Register.rbp)
        { view with known := Register.rax :: view.known, aim := .base }
  | aimSlot {distance : Nat} (aimed : view.aim = .base) (member : Register.rax ∈ view.known) (positive : 0 < distance)
      (near : distance ≤ size) :
      Advances size view (.arithmetic .sub Register.rax (.immediate distance)) { view with aim := .slot }
  | pushSlot {depth : Nat} (level : view.level = .inner depth) (aimed : view.aim = .slot)
      (member : Register.rax ∈ view.known) :
      Advances size view (.push Register.rax) { view with level := .inner (depth + 1), aim := .pushed }
  | popSlot {depth : Nat} (level : view.level = .inner (depth + 1)) (aimed : view.aim = .pushed) :
      Advances size view (.pop Register.rax)
        { view with level := .inner depth, known := Register.rax :: view.known, aim := .slot }
  | fetch {depth : Nat} (level : view.level = .inner depth) (aimed : view.aim = .slot)
      (member : Register.rax ∈ view.known) :
      Advances size view (.mov Register.rax (Place.memory Register.rax 0))
        { view with known := Register.rax :: view.known, aim := .unknown }
  | store (target : Register.rax ∈ view.known) (source : Register.rdi ∈ view.known) :
      Advances size view (.mov (.memory Register.rax 0) Register.rdi) { view with aim := .unknown }
  | spill {depth distance : Nat} {register : Register} (level : view.level = .inner depth)
      (reads : view.Reads register) :
      Advances size view (.mov (.memory Register.rbp distance) register) { view with aim := .unknown }
  | load {value : Int} :
      Advances size view (.mov Register.rax (.immediate value))
        { view with known := Register.rax :: view.known, aim := .unknown }
  | operate {operation : Arithmetic} (left : Register.rax ∈ view.known) (right : Register.rdi ∈ view.known) :
      Advances size view (.arithmetic operation Register.rax Register.rdi) { view with aim := .unknown }
  | extend (member : Register.rax ∈ view.known) :
      Advances size view .cqo { view with known := Register.rdx :: view.known, aim := .unknown }
  | divide (left : Register.rax ∈ view.known) (right : Register.rdi ∈ view.known) :
      Advances size view (.idiv Register.rdi) { view with known := Register.rdx :: view.known, aim := .unknown }
  | compare {left right : Operand} (first : view.Reads left) (second : view.Reads right) :
      Advances size view (.cmp left right) { view with tested := true, aim := .unknown }
  | set {condition : Condition} (tested : view.tested = true) (member : Register.rax ∈ view.known) :
      Advances size view (.set condition Register.al) { view with aim := .unknown }
  | widen (member : Register.rax ∈ view.known) :
      Advances size view (.movzb Register.rax Register.al) { view with aim := .unknown }

/-- Lines that keep to what their view knows, up to a return. A jump leads to a label further down,
and a call finds the registers of its arguments written. -/
inductive Disciplined (permitted : String → Nat → Prop) (size : Nat) : View → Listing → Prop where
  | code {view next : View} {instruction : Instruction} {comment : Option String} {rest : Listing}
      (advances : Advances size view instruction next) (onward : Disciplined permitted size next rest) :
      Disciplined permitted size view (.code instruction comment :: rest)
  | label {view : View} {name : String} {rest : Listing} (onward : Disciplined permitted size view rest) :
      Disciplined permitted size view (.label name :: rest)
  | settle {view : View} {depth : Nat} {rest : Listing} (level : view.level = .inner depth)
      (member : Register.rax ∈ view.known) (onward : Disciplined permitted size (settled depth) rest) :
      Disciplined permitted size view rest
  | frameless {view : View} {rest : Listing} (level : view.level = .based) (empty : size = 0)
      (onward : Disciplined permitted size { view with level := .inner 0, aim := .unknown } rest) :
      Disciplined permitted size view rest
  | branch {view : View} {depth : Nat} {name : String} {front back : Listing} (level : view.level = .inner depth)
      (member : Register.rax ∈ view.known) (tested : view.tested = true)
      (taken : Disciplined permitted size (settled depth) back)
      (skipped : Disciplined permitted size (settled depth) (front ++ .label name :: back)) :
      Disciplined permitted size view (.code (.je name) none :: (front ++ .label name :: back))
  | jump {view : View} {depth : Nat} {name : String} {front back : Listing} (level : view.level = .inner depth)
      (member : Register.rax ∈ view.known) (onward : Disciplined permitted size (settled depth) back) :
      Disciplined permitted size view (.code (.jmp name) none :: (front ++ .label name :: back))
  | call {view : View} {depth count : Nat} {callee : String} {rest : Listing} (level : view.level = .inner depth)
      (identifier : Identifier callee) (allowed : permitted callee count)
      (given : argumentRegisters.take count ⊆ view.known)
      (onward : Disciplined permitted size (settled depth) rest) :
      Disciplined permitted size view (.code (.call callee) none :: rest)
  | ret {view : View} {rest : Listing} (level : view.level = .outer) (member : Register.rax ∈ view.known) :
      Disciplined permitted size view (.code .ret none :: rest)

section
variable {permitted : String → Nat → Prop} {size depth : Nat} {tail : Listing}

theorem rax_settled (depth : Nat) : Register.rax ∈ (settled depth).known := List.mem_cons_self

/-- Pushing what is in `rax` leaves one more value on the evaluation stack. -/
theorem push_disciplined {view : View} (level : view.level = .inner depth) (member : Register.rax ∈ view.known)
    (onward : Disciplined permitted size (settled (depth + 1)) tail) :
    Disciplined permitted size view (.code (.push Register.rax) none :: tail) :=
  .code (.push level ⟨scratch_rax, member⟩) (.settle rfl member onward)

private theorem literal_disciplined (value : Int64) (onward : Disciplined permitted size (settled (depth + 1)) tail) :
    Disciplined permitted size (settled depth) (literalLines value ++ tail) := by
  unfold literalLines
  split
  · exact .code (.push rfl trivial) (.settle rfl (rax_settled depth) onward)
  · exact .code .load (push_disciplined rfl List.mem_cons_self onward)

/-- After its address has been pushed, a variable may be read through it or be forgotten about. -/
theorem address_disciplined {name : String} {distance : Nat} (positive : 0 < distance) (near : distance ≤ size)
    (onward : Disciplined permitted size
      ⟨.inner (depth + 1), [Register.rax, Register.rax], false, .pushed⟩ tail) :
    Disciplined permitted size (settled depth) (addressLines name distance ++ tail) :=
  .code (.aimBase rfl) (.code (.aimSlot rfl List.mem_cons_self positive near)
    (.code (.pushSlot rfl rfl List.mem_cons_self) onward))

private theorem fetch_disciplined (onward : Disciplined permitted size (settled (depth + 1)) tail) :
    Disciplined permitted size ⟨.inner (depth + 1), [Register.rax, Register.rax], false, .pushed⟩
      (fetchLines ++ tail) :=
  .code (.popSlot rfl rfl) (.code (.fetch rfl rfl List.mem_cons_self) (push_disciplined rfl List.mem_cons_self onward))

private theorem store_disciplined (onward : Disciplined permitted size (settled (depth + 1)) tail) :
    Disciplined permitted size (settled (depth + 1 + 1)) (storeLines ++ tail) := by
  have source : Register.rdi ∈ [Register.rax, Register.rdi, Register.rax] := by decide
  refine .code (.pop rfl scratch_rdi) (.code (.pop rfl scratch_rax) (.code (.store List.mem_cons_self source) ?_))
  exact .code (.push rfl ⟨scratch_rdi, source⟩) (.settle rfl List.mem_cons_self onward)

private theorem combine_disciplined (operator : Operator) (onward : Disciplined permitted size (settled (depth + 1)) tail) :
    Disciplined permitted size (settled (depth + 1 + 1)) (combineLines operator ++ tail) := by
  have left : Register.rax ∈ [Register.rax, Register.rdi, Register.rax] := by decide
  have right : Register.rdi ∈ [Register.rax, Register.rdi, Register.rax] := by decide
  refine .code (.pop rfl scratch_rdi) (.code (.pop rfl scratch_rax) ?_)
  cases operator with
  | plus | minus | times => exact .code (.operate left right) (push_disciplined rfl left onward)
  | «over» =>
    have dividend := List.mem_cons_of_mem Register.rdx left
    have divisor := List.mem_cons_of_mem Register.rdx right
    refine .code (.extend left) (.code (.divide dividend divisor) ?_)
    exact push_disciplined rfl (List.mem_cons_of_mem _ dividend) onward
  | equal | unequal | less | atMost =>
    refine .code (.compare ⟨scratch_rax, left⟩ ⟨scratch_rdi, right⟩) (.code (.set rfl left) (.code (.widen left) ?_))
    exact push_disciplined rfl left onward

/-- Popping writes one register after the other. -/
theorem pops_disciplined {registers : List Register} (scratch : ∀ register ∈ registers, Scratch register)
    {known : List Register}
    (onward : Disciplined permitted size ⟨.inner depth, registers.reverse ++ known, false, .unknown⟩ tail) :
    Disciplined permitted size ⟨.inner (depth + registers.length), known, false, .unknown⟩
      (registers.map (fun (register : Register) => .code (.pop register) none) ++ tail) := by
  induction registers generalizing known with
  | nil => exact onward
  | cons register rest ih =>
    refine .code (.pop rfl (scratch register List.mem_cons_self)) ?_
    refine ih (fun other member => scratch other (List.mem_cons_of_mem _ member)) ?_
    simpa using onward

/-- A call finds its arguments on the evaluation stack and leaves its result there. -/
theorem call_disciplined {callee : String} {count : Nat} (identifier : Identifier callee)
    (allowed : permitted callee count) (few : count ≤ 6)
    (onward : Disciplined permitted size (settled (depth + 1)) tail) :
    Disciplined permitted size (settled (depth + count))
      (popLines count ++ ([.code (.mov Register.rax (.immediate 0)) none] ++
        (callLines depth callee ++ [.code (.push Register.rax) none])) ++ tail) := by
  have length : (argumentRegisters.take count).reverse.length = count := by
    simp only [List.length_reverse, List.length_take, argumentRegisters, List.length_cons, List.length_nil]
    omega
  have scratch : ∀ register ∈ (argumentRegisters.take count).reverse, Scratch register := by
    intro register member
    exact scratch_argument (List.mem_of_mem_take (List.mem_reverse.mp member))
  have given : argumentRegisters.take count ⊆
      Register.rax :: ((argumentRegisters.take count).reverse.reverse ++ [Register.rax]) := by
    intro register member
    simp [member]
  have pushing := push_disciplined rfl (rax_settled depth) onward
  rw [List.append_assoc]
  have popping := @pops_disciplined permitted size depth
    ([.code (.mov Register.rax (.immediate 0)) none] ++
      (callLines depth callee ++ [.code (.push Register.rax) none]) ++ tail) _ scratch [Register.rax]
  rw [length] at popping
  refine popping (.code .load ?_)
  unfold callLines
  split
  · exact .call rfl identifier allowed given pushing
  · exact .code (.pad rfl) (.call rfl identifier allowed given (.code (.unpad rfl)
      (.settle rfl (rax_settled _) pushing)))

/-- A conditional goes to its alternative or around it. -/
theorem branch_disciplined {number : Nat} {consequence back : Listing}
    (accepted : Disciplined permitted size (settled depth) (consequence ++ (skipLines number ++ back)))
    (refused : Disciplined permitted size (settled depth) back) :
    Disciplined permitted size (settled (depth + 1))
      (testLines number ++ (consequence ++ (skipLines number ++ back))) := by
  have whole : consequence ++ (skipLines number ++ back) =
      (consequence ++ [.code (.jmp (endLabel number)) none]) ++ .label (elseLabel number) :: back := by
    simp [skipLines]
  refine .code (.pop rfl scratch_rax) (.code (.compare ⟨scratch_rax, List.mem_cons_self⟩ trivial) ?_)
  rw [whole] at accepted ⊢
  exact .branch rfl List.mem_cons_self rfl refused accepted

private theorem skip_disciplined {number : Nat} (replacement : Listing)
    (onward : Disciplined permitted size (settled depth) tail) :
    Disciplined permitted size (settled depth)
      (skipLines number ++ (replacement ++ ([.label (endLabel number)] ++ tail))) := by
  have jump : Disciplined permitted size (settled depth) (.code (.jmp (endLabel number)) none ::
      ((.label (elseLabel number) :: replacement) ++ .label (endLabel number) :: tail)) :=
    .jump rfl (rax_settled depth) onward
  exact jump

/-- The frame is taken down from any depth. -/
theorem epilogue_disciplined {name : String} {view : View} (level : view.level = .inner depth)
    (member : Register.rax ∈ view.known) : Disciplined permitted size view (epilogue name) :=
  .label (.code (.lift level) (.code (.restore rfl) (.ret rfl member)))

private theorem leave_disciplined {name : String} {view : View} {front : Listing} (level : view.level = .inner depth)
    (member : Register.rax ∈ view.known) :
    Disciplined permitted size view (.code (.jmp (returnLabel name)) none :: (front ++ epilogue name)) :=
  .jump level member (.code (.lift rfl) (.code (.restore rfl) (.ret rfl (rax_settled depth))))

/-- The code of the function ends with its epilogue, to which every return jumps. -/
def Closes (function : String) (lines : Listing) : Prop := ∃ front, lines = front ++ epilogue function

private theorem Closes.behind {function : String} (closes : Closes function tail) (lines : Listing) :
    Closes function (lines ++ tail) := by
  obtain ⟨front, rfl⟩ := closes
  exact ⟨lines ++ front, by rw [List.append_assoc]⟩

private theorem near_of_claim {start final : Allocation} {name : String} (within : (start.claim name).slots <+: final.slots)
    (covered : 8 * final.slots.length ≤ size) :
    0 < (start.claim name).distance name ∧ (start.claim name).distance name ≤ size := by
  have inside := List.idxOf_lt_length_of_mem (start.mem_slots_claim name)
  have grown := within.length_le
  rw [Allocation.distance]
  omega

/-- Emitted code keeps to its views, whatever code that does so follows it. -/
theorem disciplined_of_emits {function : String} {piece : Piece} {start final : Allocation} {lines : Listing}
    (emitted : Emits permitted function piece start lines final) (covered : 8 * final.slots.length ≤ size)
    (closes : Closes function tail) (onward : Disciplined permitted size (settled final.depth) tail) :
    Disciplined permitted size (settled start.depth) (lines ++ tail) := by
  induction emitted generalizing tail with
  | literal => exact literal_disciplined _ onward
  | @var name start identifier =>
    obtain ⟨positive, near⟩ := near_of_claim (List.prefix_refl _) covered
    simp only [pushed, depth_claim] at onward
    rw [List.append_assoc]
    exact address_disciplined positive near (fetch_disciplined onward)
  | @assign target value start final lines identifier inner ih =>
    obtain ⟨positive, near⟩ := near_of_claim inner.grows.slots covered
    have depth := inner.grows.depth
    simp only [pushed, popped, depth_claim, pushes, room] at depth onward ih
    rw [depth] at onward ih
    simp only [List.append_assoc]
    refine address_disciplined positive near (.settle rfl List.mem_cons_self ?_)
    exact ih covered (closes.behind _) (store_disciplined onward)
  | @apply operator left right start between final front back first second one two =>
    have depth := second.grows.depth
    have before := first.grows.depth
    have grown := second.grows.slots.length_le
    simp only [popped, pushes, room] at depth before onward covered
    rw [before] at depth
    rw [depth] at onward two
    simp only [List.append_assoc]
    refine one (by omega) ((closes.behind _).behind _) ?_
    refine two covered (closes.behind _) ?_
    exact combine_disciplined operator onward
  | @call callee arguments start final lines identifier allowed few inner ih =>
    have depth := inner.grows.depth
    simp only [pushes] at depth
    have less : final.depth - arguments.length = start.depth := by omega
    simp only [less] at onward ⊢
    rw [List.append_assoc]
    refine ih covered (closes.behind _) ?_
    rw [depth]
    exact call_disciplined identifier allowed few onward
  | @branch test accepted otherwise start tested chosen final condition consequence replacement first second third
      one two three =>
    have depth := first.grows.depth
    have after := second.grows.depth
    have last := third.grows.depth
    have chose := third.grows.slots.length_le
    have grown := second.grows.slots.length_le
    rw [pushes_alternative] at last
    simp only [popped, pushes, room] at depth after grown two
    rw [depth] at one after two
    rw [after] at last two three
    rw [last] at onward three
    have ended := closes.behind [.label (endLabel start.labels)]
    have skipped := (ended.behind replacement).behind (skipLines start.labels)
    have alternative := three covered ended (.label onward)
    have consequent := two (by omega) skipped (skip_disciplined replacement onward)
    simp only [List.append_assoc]
    refine one (by omega) ((skipped.behind consequence).behind (testLines start.labels)) ?_
    exact branch_disciplined consequent alternative
  | leave =>
    obtain ⟨front, rfl⟩ := closes
    exact .code .load (leave_disciplined rfl List.mem_cons_self)
  | leaveWith inner ih =>
    have depth := inner.grows.depth
    simp only [pushes, room] at depth
    rw [depth] at ih
    obtain ⟨front, rfl⟩ := closes
    rw [List.append_assoc]
    refine ih covered ⟨_ ++ front, by rw [List.append_assoc]⟩ ?_
    exact .code (.pop rfl scratch_rax) (leave_disciplined rfl List.mem_cons_self)
  | function | finish | noArgument => exact onward
  | expression valued inner ih =>
    have depth := inner.grows.depth
    simp only [popped, pushes, room] at depth onward
    rw [depth] at ih onward
    rw [List.append_assoc]
    refine ih covered (closes.behind _) ?_
    exact .code (.pop rfl scratch_rax) (.settle rfl List.mem_cons_self onward)
  | statement valueless whole inner ih =>
    rw [List.append_assoc]
    refine ih covered (closes.behind _) ?_
    exact .code (.push rfl trivial) (.settle rfl (rax_settled _) onward)
  | block inner ih => exact ih covered closes onward
  | zero => exact .code (.push rfl trivial) (.settle rfl (rax_settled _) onward)
  | last valued inner ih => exact ih covered closes onward
  | next proper first second one two =>
    have grown := second.grows.slots.length_le
    rw [List.append_assoc]
    exact one (by omega) (closes.behind _) (two covered closes onward)
  | argument first second one two =>
    have grown := second.grows.slots.length_le
    rw [List.append_assoc]
    exact one (by omega) (closes.behind _) (two covered closes onward)

private theorem parameters_disciplined {stored : List (String × Register)} {start : Allocation} {known : List Register}
    (written : ∀ pair ∈ stored, Scratch pair.2 ∧ pair.2 ∈ known)
    (onward : Disciplined permitted size ⟨.inner depth, known, false, .unknown⟩ tail) :
    Disciplined permitted size ⟨.inner depth, known, false, .unknown⟩ (parameterLines start stored ++ tail) := by
  induction stored generalizing start with
  | nil => exact onward
  | cons pair rest ih =>
    refine .code (.spill rfl (written pair List.mem_cons_self)) ?_
    exact ih fun other member => written other (List.mem_cons_of_mem _ member)

/-- Setting up the frame reads nothing but the base pointer. -/
theorem prologue_disciplined {name : String} {known : List Register}
    (onward : Disciplined permitted size ⟨.inner 0, known, false, .unknown⟩ tail) :
    Disciplined permitted size ⟨.outer, known, false, .unknown⟩ (prologue name size ++ tail) := by
  unfold prologue
  split
  · next empty => exact .label (.code (.save rfl) (.code (.rebase rfl) (.frameless rfl empty onward)))
  · exact .label (.code (.save rfl) (.code (.rebase rfl) (.code (.reserve rfl) onward)))

/-- A function that is entered with its arguments in their registers reads no other register before it
has written it. -/
theorem function_disciplined {function : Definition} {start final : Allocation} {body : Listing}
    (code : FunctionCode permitted function start final body) :
    Disciplined permitted final.frameSize
      ⟨.outer, argumentRegisters.take function.parameters.length, false, .unknown⟩
      (functionLines function start final.frameSize body) := by
  have running : Disciplined permitted final.frameSize (settled 0) (body ++ epilogue function.name) := by
    have emitted := disciplined_of_emits code.emitted (slots_le_frameSize final) ⟨[], rfl⟩
      (epilogue_disciplined rfl (rax_settled _))
    rwa [bodyStart, depth_claimAll] at emitted
  refine prologue_disciplined (.code .load (parameters_disciplined ?_ (.settle rfl List.mem_cons_self running)))
  intro pair member
  rw [List.zip_eq_zip_take_min] at member
  have taken : pair.2 ∈ argumentRegisters.take function.parameters.length :=
    List.take_subset_take_left argumentRegisters (Nat.min_le_left ..) (List.of_mem_zip member).2
  exact ⟨scratch_argument (List.mem_of_mem_take taken), List.mem_cons_of_mem _ taken⟩

end

end Stackwise.Proofs.CodeViews
