import Stackwise.Proofs.Activations
import Stackwise.Proofs.CodeViews

/-! Two states side by side. They are at the same instruction and agree on every register that has been
written, as the view of that instruction says, and on every word of memory but one: the outermost
function may have saved different base pointers in it. An instruction that keeps to its view does the
same in both, since it reads nothing on which they may differ. -/

namespace Stackwise.Proofs.AgreeingStates
open Assembly Machine StackRoom Frames CodeLogic Activations CodeViews

/-- The address of the word in which the outermost function saves a base pointer. -/
def hiddenAddress : Int := initialStack - 8

def Aimed (base : Int) (size : Nat) (state : State) : Aim → Prop
  | .unknown => True
  | .base => state.registers.read Register.rax = Int64.ofInt base
  | .slot => ∃ distance : Nat, 0 < distance ∧ distance ≤ size ∧
      state.registers.read Register.rax = Int64.ofInt (base - distance)
  | .pushed => ∃ distance : Nat, 0 < distance ∧ distance ≤ size ∧ state.top = Int64.ofInt (base - distance)

/-- The pointers are where the view says, and clear of the hidden word unless the function is the
outermost one. -/
structure Seated (base : Int) (size : Nat) (view : View) (state : State) : Prop where
  stack : state.registers.read Register.rsp = Int64.ofInt (view.level.pointer base size)
  room : -0x8000000000000000 ≤ view.level.pointer base size
  frame : view.level.framed = true → state.registers.read Register.rbp = Int64.ofInt base
  aimed : Aimed base size state view.aim
  low : base = hiddenAddress ∨ base + 16 ≤ hiddenAddress

/-- The registers that are the same in both states: the pointers and what has been written. Only the
outermost function is entered and left with base pointers that differ. -/
def Shared (base : Int) (view : View) (register : Register) : Prop :=
  register = Register.rsp ∨ register = Register.rbp ∧ (view.level.framed = true ∨ base ≠ hiddenAddress) ∨
    Scratch register ∧ register ∈ view.known

/-- The states agree on all that the view knows, and on every word but the hidden one. -/
structure Alike (base : Int) (view : View) (first second : State) : Prop where
  address : second.address = first.address
  calls : second.calls = first.calls
  registers : ∀ register, Shared base view register → second.registers.full register = first.registers.full register
  compared : view.tested = true → second.compared = first.compared
  memory : ∀ address, address ≠ Int64.ofInt hiddenAddress → second.memory.read address = first.memory.read address

structure Beside (base : Int) (size : Nat) (view : View) (first second : State) : Prop where
  seated : Seated base size view first
  alike : Alike base view first second

/-- The results of two steps: the same end, or states of which `Onward` holds. -/
inductive Follows (Onward : State → State → Prop) : Except Fault Transition → Except Fault Transition → Prop where
  | fault (reason : Fault) : Follows Onward (.error reason) (.error reason)
  | halt (outcome : Outcome) : Follows Onward (.ok (.halt outcome)) (.ok (.halt outcome))
  | next {first second : State} (onward : Onward first second) :
      Follows Onward (.ok (.next first)) (.ok (.next second))

theorem Follows.imp {Onward After : State → State → Prop} {first second : Except Fault Transition}
    (follows : Follows Onward first second) (implies : ∀ one two, Onward one two → After one two) :
    Follows After first second := by
  cases follows with
  | fault reason => exact .fault reason
  | halt outcome => exact .halt outcome
  | next onward => exact .next (implies _ _ onward)

section
variable {base : Int} {size : Nat} {view next : View} {first second : State}

private theorem read_eq_full (registers : Registers) {register : Register} (whole : register ≠ Register.al) :
    registers.read register = registers.full register := if_neg whole

theorem ofInt_ne_hidden {address : Int} (room : -0x8000000000000000 ≤ address) (below : address < hiddenAddress + 16)
    (different : address ≠ hiddenAddress) : Int64.ofInt address ≠ Int64.ofInt hiddenAddress := by
  intro same
  have top : hiddenAddress + 16 < 0x8000000000000000 := by decide
  have numbers := congrArg Int64.toInt same
  rw [toInt_ofInt ⟨room, by omega⟩, toInt_ofInt ⟨by decide, by decide⟩] at numbers
  exact different numbers

theorem Seated.le_hidden (seated : Seated base size view first) : base ≤ hiddenAddress := by
  have low := seated.low
  omega

theorem Seated.pointer_lt (seated : Seated base size view first) :
    view.level.pointer base size < hiddenAddress + 16 := by
  have low := seated.le_hidden
  cases view.level <;> simp only [Level.pointer] <;> omega

theorem Seated.depth (seated : Seated base size view first) : depthOf first = view.level.pointer base size := by
  have top : hiddenAddress + 16 < 0x8000000000000000 := by decide
  have below := seated.pointer_lt
  rw [depthOf, seated.stack, toInt_ofInt ⟨seated.room, by omega⟩]

theorem framed_inner {depth : Nat} (level : view.level = .inner depth) : view.level.framed = true := by
  rw [level]
  rfl

theorem Shared.scratch {register : Register} (scratch : Scratch register) (member : register ∈ view.known) :
    Shared base view register := .inr (.inr ⟨scratch, member⟩)

private theorem Shared.frame (framed : view.level.framed = true) : Shared base view Register.rbp :=
  .inr (.inl ⟨rfl, .inl framed⟩)

/-- What is shared after a register has been written was shared before, that register aside. -/
theorem Shared.before {register written : Register} (shared : Shared base next register)
    (framed : next.level.framed = true → view.level.framed = true) (known : next.known ⊆ written :: view.known) :
    register = written ∨ Shared base view register := by
  rcases shared with stack | ⟨frame, before⟩ | ⟨scratch, member⟩
  · exact .inr (.inl stack)
  · exact .inr (.inr (.inl ⟨frame, before.imp_left framed⟩))
  · rcases List.mem_cons.mp (known member) with here | member
    · exact .inl here
    · exact .inr (.scratch scratch member)

theorem Alike.read (alike : Alike base view first second) {register : Register} (shared : Shared base view register)
    (whole : register ≠ Register.al) : second.registers.read register = first.registers.read register := by
  rw [read_eq_full _ whole, read_eq_full _ whole]
  exact alike.registers register shared

theorem Alike.stack (alike : Alike base view first second) :
    second.registers.read Register.rsp = first.registers.read Register.rsp := alike.read (.inl rfl) (by decide)

private theorem Alike.operand (alike : Alike base view first second) {source : Operand} (reads : view.Reads source) :
    second.read source = first.read source := by
  match source with
  | .immediate _ => rfl
  | .place (.register register) => exact alike.read (.scratch reads.1 reads.2) reads.1.2.2
  | .place (.memory _ _) => cases reads

/-- A register is written in both states, with the same value if it is shared from then on. -/
theorem Alike.write (alike : Alike base view first second) {written : Register} (whole : written ≠ Register.al)
    {value other : Word} (values : Shared base next written → other = value)
    (framed : next.level.framed = true → view.level.framed = true) (known : next.known ⊆ written :: view.known)
    (tested : next.tested = true → view.tested = true) :
    Alike base next (first.write written value) (second.write written other) := by
  refine ⟨alike.address, alike.calls, fun register shared => ?_, fun asked => alike.compared (tested asked),
    alike.memory⟩
  show (second.registers.write written other).full register = (first.registers.write written value).full register
  rw [Registers.write, Registers.write, if_neg whole, if_neg whole, Registers.full_setFull, Registers.full_setFull]
  split
  next here => exact values (here ▸ shared)
  next different =>
    rcases shared.before framed known with rfl | before
    · exact absurd rfl different
    · exact alike.registers register before

theorem Seated.relax (seated : Seated base size view first)
    (pointer : next.level.pointer base size = view.level.pointer base size)
    (framed : next.level.framed = view.level.framed) (aim : next.aim = .unknown) : Seated base size next first :=
  ⟨pointer ▸ seated.stack, pointer ▸ seated.room, framed ▸ seated.frame, by rw [aim]; trivial, seated.low⟩

theorem Seated.settle (seated : Seated base size view first) {depth : Nat} (level : view.level = .inner depth) :
    Seated base size (settled depth) first :=
  seated.relax (by rw [level]; rfl) (framed_inner level).symm rfl

/-- A view may forget what it knows. -/
theorem Beside.relax (beside : Beside base size view first second)
    (pointer : next.level.pointer base size = view.level.pointer base size)
    (framed : next.level.framed = view.level.framed) (known : next.known ⊆ view.known)
    (tested : next.tested = true → view.tested = true) (aim : next.aim = .unknown) :
    Beside base size next first second := by
  obtain ⟨seated, alike⟩ := beside
  refine ⟨seated.relax pointer framed aim, ⟨alike.address, alike.calls,
    fun register shared => alike.registers register ?_, fun asked => alike.compared (tested asked), alike.memory⟩⟩
  rcases shared with stack | ⟨frame, before⟩ | ⟨scratch, member⟩
  · exact .inl stack
  · exact .inr (.inl ⟨frame, framed ▸ before⟩)
  · exact .scratch scratch (known member)

theorem Beside.settle (beside : Beside base size view first second) {depth : Nat} (level : view.level = .inner depth)
    (member : Register.rax ∈ view.known) : Beside base size (settled depth) first second :=
  beside.relax (by rw [level]; rfl) (framed_inner level).symm (fun _ here => List.mem_singleton.mp here ▸ member)
    Bool.noConfusion rfl

/-- Both states go to an address, with as many calls made. -/
theorem Beside.at (beside : Beside base size view first second) {one two calls others : Nat} (there : two = one)
    (made : others = calls) :
    Beside base size view { first with address := one, calls := calls }
      { second with address := two, calls := others } := by
  obtain ⟨⟨stack, room, frame, aimed, low⟩, alike⟩ := beside
  refine ⟨⟨stack, room, frame, ?_, low⟩, ⟨there, made, alike.registers, alike.compared, alike.memory⟩⟩
  revert aimed
  cases view.aim <;> exact id

/-- Both states write a register for free use with the same value. -/
theorem Beside.write (beside : Beside base size view first second) {register : Register} (scratch : Scratch register)
    {value other : Word} (same : other = value) (level : next.level = view.level)
    (known : next.known ⊆ register :: view.known) (tested : next.tested = view.tested)
    (aimed : Aimed base size (first.write register value) next.aim) :
    Beside base size next (first.write register value) (second.write register other) := by
  obtain ⟨seated, alike⟩ := beside
  obtain ⟨notStack, notBase, whole⟩ := scratch
  refine ⟨⟨?_, level ▸ seated.room, ?_, aimed, seated.low⟩,
    alike.write whole (fun _ => same) (fun framed => level ▸ framed) known (fun asked => tested ▸ asked)⟩
  · rw [level, ← seated.stack]
    exact Registers.read_write_other _ _ whole (by decide) notStack
  · intro framed
    rw [level] at framed
    rw [← seated.frame framed]
    exact Registers.read_write_other _ _ whole (by decide) notBase

/-- Both states move the stack pointer to the same place. -/
theorem Beside.move (beside : Beside base size view first second) {value other : Word} (same : other = value)
    (there : value = Int64.ofInt (next.level.pointer base size))
    (room : -0x8000000000000000 ≤ next.level.pointer base size)
    (framed : next.level.framed = true → view.level.framed = true) (known : next.known = view.known)
    (tested : next.tested = view.tested) (aim : next.aim = .unknown) :
    Beside base size next (first.write Register.rsp value) (second.write Register.rsp other) := by
  obtain ⟨seated, alike⟩ := beside
  refine ⟨⟨?_, room, ?_, by rw [aim]; trivial, seated.low⟩,
    alike.write (by decide) (fun _ => same) framed (known ▸ List.subset_cons_self ..) (fun asked => tested ▸ asked)⟩
  · rw [← there]
    exact Registers.read_write_same _ _ (by decide)
  · intro inside
    rw [← seated.frame (framed inside)]
    exact read_move _ _ (by decide) (by decide)

/-- Both states push, and the same value unless onto the hidden word. -/
theorem Beside.push (beside : Beside base size view first second) {value other : Word}
    (same : view.level.pointer base size - 8 ≠ hiddenAddress → other = value)
    (lower : next.level.pointer base size = view.level.pointer base size - 8)
    (room : -0x8000000000000000 ≤ view.level.pointer base size - 8) (framed : next.level.framed = view.level.framed)
    (known : next.known = view.known) (tested : next.tested = view.tested)
    (aimed : Aimed base size (first.push value) next.aim) :
    Beside base size next (first.push value) (second.push other) := by
  have top : first.registers.read Register.rsp - 8 = Int64.ofInt (view.level.pointer base size - 8) := by
    rw [beside.seated.stack, Int64.ofInt_sub]
    rfl
  have moved : Beside base size { next with aim := .unknown } _ _ :=
    beside.move (congrArg (· - 8) beside.alike.stack) (by rw [top, lower]) (lower ▸ room) (fun asked => framed ▸ asked)
      known tested rfl
  refine ⟨⟨moved.seated.stack, moved.seated.room, moved.seated.frame, aimed, moved.seated.low⟩,
    ⟨moved.alike.address, moved.alike.calls, moved.alike.registers, moved.alike.compared, ?_⟩⟩
  intro asked visible
  show (second.memory.write (second.registers.read Register.rsp - 8) other).read asked =
    (first.memory.write (first.registers.read Register.rsp - 8) value).read asked
  rw [Memory.read_write, Memory.read_write, beside.alike.stack]
  split
  next here =>
    refine same fun place => visible ?_
    rw [← here, top, place]
  next => exact beside.alike.memory asked visible

/-- Below the outermost return address, the top of the stack is the same in both states unless it is
the hidden word. -/
theorem Beside.top (beside : Beside base size view first second)
    (visible : view.level.pointer base size ≠ hiddenAddress) : second.top = first.top := by
  rw [State.top, State.top, beside.alike.stack, beside.seated.stack]
  exact beside.alike.memory _ (ofInt_ne_hidden beside.seated.room beside.seated.pointer_lt visible)

/-- Both states drop what is on top of the stack. -/
theorem Beside.drop (beside : Beside base size view first second)
    (higher : next.level.pointer base size = view.level.pointer base size + 8)
    (framed : next.level.framed = true → view.level.framed = true) (known : next.known = view.known)
    (tested : next.tested = view.tested) (aim : next.aim = .unknown) :
    Beside base size next first.drop second.drop := by
  refine beside.move (congrArg (· + 8) beside.alike.stack) ?_ ?_ framed known tested aim
  · rw [beside.seated.stack, higher, Int64.ofInt_add]
    rfl
  · have room := beside.seated.room
    omega

/-- Both states write the same value to the same word. -/
theorem Beside.store (beside : Beside base size view first second) {pointer : Register} {below : Int}
    {value other : Word} (place : second.registers.read pointer = first.registers.read pointer) (same : other = value) :
    Beside base size { view with aim := .unknown } (first.write (.memory pointer below) value)
      (second.write (.memory pointer below) other) := by
  obtain ⟨seated, alike⟩ := beside
  refine ⟨⟨seated.stack, seated.room, seated.frame, trivial, seated.low⟩,
    ⟨alike.address, alike.calls, alike.registers, alike.compared, fun asked visible => ?_⟩⟩
  show (second.memory.write (second.registers.read pointer - Int64.ofInt below) other).read asked =
    (first.memory.write (first.registers.read pointer - Int64.ofInt below) value).read asked
  rw [Memory.read_write, Memory.read_write, place, same]
  split
  · rfl
  · exact alike.memory asked visible

/-- The truth value of a condition is the same in both states and goes into the low byte of `rax`. -/
theorem Beside.flag (beside : Beside base size view first second) (member : Register.rax ∈ view.known)
    {value other : Word} (same : other = value) :
    Beside base size { view with aim := .unknown } (first.write Register.al value)
      (second.write Register.al other) := by
  obtain ⟨seated, alike⟩ := beside
  have rax := alike.registers Register.rax (.scratch scratch_rax member)
  refine ⟨⟨?_, seated.room, fun framed => ?_, trivial, seated.low⟩,
    ⟨alike.address, alike.calls, fun register shared => ?_, alike.compared, alike.memory⟩⟩
  · exact (read_write_ne _ _ (by decide) (by decide) (fun _ => by decide)).trans seated.stack
  · exact (read_write_ne _ _ (by decide) (by decide) (fun _ => by decide)).trans (seated.frame framed)
  · show (second.registers.setFull Register.rax (withLowByte (second.registers.full Register.rax) other)).full register =
      (first.registers.setFull Register.rax (withLowByte (first.registers.full Register.rax) value)).full register
    rw [Registers.full_setFull, Registers.full_setFull, rax, same]
    split
    · rfl
    · exact alike.registers register shared

/-- Making the stack pointer the base of the frame. -/
theorem Beside.rebase (beside : Beside base size view first second) (level : view.level = .saved) :
    Beside base size { view with level := .based, aim := .unknown }
      (first.write Register.rbp (first.registers.read Register.rsp))
      (second.write Register.rbp (second.registers.read Register.rsp)) := by
  obtain ⟨seated, alike⟩ := beside
  have stack := seated.stack
  have room := seated.room
  rw [level] at stack room
  refine ⟨⟨?_, room, fun _ => ?_, trivial, seated.low⟩,
    ⟨alike.address, alike.calls, fun register shared => ?_, alike.compared, alike.memory⟩⟩
  · exact (Registers.read_write_other _ _ (by decide) (by decide) (by decide)).trans stack
  · exact (Registers.read_write_same _ _ (by decide)).trans stack
  · show (second.registers.setFull Register.rbp _).full register =
      (first.registers.setFull Register.rbp _).full register
    rw [Registers.full_setFull, Registers.full_setFull, alike.stack]
    split
    · rfl
    next different =>
      rcases shared with here | ⟨frame, -⟩ | known
      · exact alike.registers register (.inl here)
      · exact absurd frame.symm different
      · exact alike.registers register (.inr (.inr known))

/-- The base pointer is restored, from the hidden word if the function is the outermost one. -/
theorem Beside.restore (beside : Beside base size view first second) (level : view.level = .based) :
    Beside base size { view with level := .outer, aim := .unknown } (first.drop.write Register.rbp first.top)
      (second.drop.write Register.rbp second.top) := by
  have dropped : Beside base size { view with level := .outer, aim := .unknown } first.drop second.drop :=
    beside.drop (by rw [level]; rfl) (fun framed => by cases framed) rfl rfl rfl
  obtain ⟨seated, alike⟩ := dropped
  refine ⟨⟨?_, seated.room, (fun framed => by cases framed), trivial, seated.low⟩,
    alike.write (by decide) (fun shared => ?_) id (List.subset_cons_self ..) id⟩
  · exact (Registers.read_write_other _ _ (by decide) (by decide) (by decide)).trans seated.stack
  · refine beside.top ?_
    rw [level]
    rcases shared with here | ⟨-, framed | visible⟩ | ⟨scratch, -⟩
    · exact absurd here (by decide)
    · cases framed
    · exact visible
    · exact absurd scratch (by decide)

/-- The top of the stack is popped into a register for free use. -/
theorem Beside.pop (beside : Beside base size view first second) {depth : Nat} {register : Register} {aim : Aim}
    (level : view.level = .inner (depth + 1)) (scratch : Scratch register)
    (aimed : Aimed base size (first.drop.write register first.top) aim) :
    Beside base size { view with level := .inner depth, known := register :: view.known, aim := aim }
      (first.drop.write register first.top) (second.drop.write register second.top) := by
  have low := beside.seated.le_hidden
  have dropped : Beside base size { view with level := .inner depth, aim := .unknown } first.drop second.drop := by
    refine beside.drop ?_ (fun _ => framed_inner level) rfl rfl rfl
    rw [level, Level.pointer_succ]
    exact (Int.sub_add_cancel _ _).symm
  refine dropped.write scratch (beside.top ?_) rfl (List.Subset.refl _) rfl aimed
  rw [level, Level.pointer]
  omega

/-- The variable that `rax` points to is read. It lies below the base, and so not in the hidden word. -/
theorem Beside.fetch (beside : Beside base size view first second) {depth : Nat} (level : view.level = .inner depth)
    (aimed : view.aim = .slot) (member : Register.rax ∈ view.known) :
    second.read (Place.memory Register.rax 0) = first.read (Place.memory Register.rax 0) := by
  have aim := beside.seated.aimed
  have room := beside.seated.room
  have low := beside.seated.le_hidden
  rw [aimed] at aim
  rw [level, Level.pointer] at room
  obtain ⟨distance, positive, near, address⟩ := aim
  have rax := beside.alike.read (.scratch scratch_rax member) (by decide)
  have place : first.registers.read Register.rax - Int64.ofInt 0 = Int64.ofInt (base - distance) := by
    rw [address]
    exact Int64.sub_zero _
  show second.memory.read (second.registers.read Register.rax - Int64.ofInt 0) =
    first.memory.read (first.registers.read Register.rax - Int64.ofInt 0)
  rw [rax, place]
  exact beside.alike.memory _ (ofInt_ne_hidden (by omega) (by omega) (by omega))

/-- An instruction that keeps to its view leads both states to the next view. -/
theorem execute_beside {program : Program} {instruction : Instruction} (advances : Advances size view instruction next)
    (beside : Beside base size view first second)
    (fits : -0x8000000000000000 ≤ depthOf first - descent instruction) :
    Follows (fun one two => one.address = first.address ∧ Beside base size next one two)
      (execute program first instruction) (execute program second instruction) := by
  have room := beside.seated.room
  have alike := beside.alike
  have stack := beside.seated.stack
  have depth := beside.seated.depth
  cases advances with
  | save level =>
    rw [depth, level, descent] at fits
    refine .next ⟨rfl, beside.push (fun visible => ?_) (by rw [level]; simp only [Level.pointer]; omega) ?_
      (by rw [level]; rfl) rfl rfl trivial⟩
    · refine alike.read (.inr (.inl ⟨rfl, .inr ?_⟩)) (by decide)
      rw [level, Level.pointer] at visible
      omega
    · rwa [level]
  | rebase level => exact .next ⟨rfl, beside.rebase level⟩
  | reserve level =>
    rw [depth, level, descent, if_pos rfl] at fits
    have lower : Level.pointer base size (.inner 0) = base - size := by
      simp only [Level.pointer]
      omega
    refine .next ⟨rfl, beside.move (congrArg (· - Int64.ofInt size) alike.stack) ?_ ?_ (fun _ => by rw [level]; rfl)
      rfl rfl rfl⟩
    · rw [lower, Int64.ofInt_sub]
      rw [level] at stack
      exact congrArg (· - Int64.ofInt size) stack
    · rw [lower]
      exact fits
  | @lift count level =>
    rw [level, Level.pointer] at room
    have framed := framed_inner level
    refine .next ⟨rfl, beside.move (alike.read (.frame framed) (by decide)) (beside.seated.frame framed) ?_
      (fun _ => framed) rfl rfl rfl⟩
    simp only [Level.pointer]
    omega
  | restore level => exact .next ⟨rfl, beside.restore level⟩
  | @pad count level =>
    rw [depth, level, descent, if_pos rfl] at fits
    refine .next ⟨rfl, beside.move (congrArg (· - 8) alike.stack) ?_ (Level.pointer_succ .. ▸ fits)
      (fun _ => framed_inner level) rfl rfl rfl⟩
    rw [Level.pointer_succ, Int64.ofInt_sub, ← level, ← stack]
    rfl
  | @unpad count level =>
    refine .next ⟨rfl, beside.drop ?_ (fun _ => framed_inner level) rfl rfl rfl⟩
    rw [level, Level.pointer_succ]
    exact (Int.sub_add_cancel _ _).symm
  | @push count source level reads =>
    rw [depth, descent] at fits
    refine .next ⟨rfl, beside.push (fun _ => alike.operand reads) ?_ fits (framed_inner level).symm rfl rfl trivial⟩
    rw [level]
    exact Level.pointer_succ ..
  | pop level scratch => exact .next ⟨rfl, beside.pop level scratch trivial⟩
  | aimBase level =>
    have framed := framed_inner level
    refine .next ⟨rfl, beside.write scratch_rax (alike.read (.frame framed) (by decide)) rfl (List.Subset.refl _)
      rfl ?_⟩
    exact (Registers.read_write_same _ _ (by decide)).trans (beside.seated.frame framed)
  | @aimSlot distance aimed member positive near =>
    have aim := beside.seated.aimed
    rw [aimed] at aim
    refine .next ⟨rfl, beside.write scratch_rax (congrArg (· - Int64.ofInt distance) ?_) rfl
      (List.subset_cons_self ..) rfl ⟨distance, positive, near, ?_⟩⟩
    · exact alike.read (.scratch scratch_rax member) (by decide)
    · refine (Registers.read_write_same _ _ (by decide)).trans ?_
      rw [Int64.ofInt_sub]
      exact congrArg (· - Int64.ofInt distance) aim
  | @pushSlot count level aimed member =>
    rw [depth, descent] at fits
    have aim := beside.seated.aimed
    rw [aimed] at aim
    obtain ⟨distance, positive, near, address⟩ := aim
    refine .next ⟨rfl, beside.push (fun _ => alike.read (.scratch scratch_rax member) (by decide)) ?_ fits
      (framed_inner level).symm rfl rfl ⟨distance, positive, near, (State.top_push _ _).trans address⟩⟩
    rw [level]
    exact Level.pointer_succ ..
  | popSlot level aimed =>
    have aim := beside.seated.aimed
    rw [aimed] at aim
    obtain ⟨distance, positive, near, address⟩ := aim
    refine .next ⟨rfl, beside.pop level scratch_rax ⟨distance, positive, near, ?_⟩⟩
    exact (Registers.read_write_same _ _ (by decide)).trans address
  | fetch level aimed member =>
    exact .next ⟨rfl, beside.write scratch_rax (beside.fetch level aimed member) rfl (List.Subset.refl _) rfl trivial⟩
  | store target source =>
    exact .next ⟨rfl, beside.store (alike.read (.scratch scratch_rax target) (by decide))
      (alike.read (.scratch scratch_rdi source) (by decide))⟩
  | spill level reads =>
    exact .next ⟨rfl, beside.store (alike.read (.frame (framed_inner level)) (by decide)) (alike.operand reads)⟩
  | load => exact .next ⟨rfl, beside.write scratch_rax rfl rfl (List.Subset.refl _) rfl trivial⟩
  | @operate operation left right =>
    refine .next ⟨rfl, beside.write scratch_rax (congrArg₂ (arithmetic operation) ?_ ?_) rfl (List.subset_cons_self ..)
      rfl trivial⟩
    · exact alike.read (.scratch scratch_rax left) (by decide)
    · exact alike.read (.scratch scratch_rdi right) (by decide)
  | extend member =>
    refine .next ⟨rfl, beside.write (by decide) ?_ rfl (List.Subset.refl _) rfl trivial⟩
    rw [alike.read (.scratch scratch_rax member) (by decide)]
  | divide left right =>
    have dividend := alike.read (.scratch scratch_rax left) (by decide)
    have divisor : second.read Register.rdi = first.read Register.rdi :=
      alike.read (.scratch scratch_rdi right) (by decide)
    rw [execute, execute, Machine.divide, Machine.divide, divisor, dividend]
    split
    · exact .fault _
    · have quotient : Beside base size { view with aim := .unknown } _ _ := beside.write scratch_rax
        (Eq.refl (first.registers.read Register.rax / first.read Register.rdi)) rfl (List.subset_cons_self ..)
        rfl trivial
      exact .next ⟨rfl, quotient.write (by decide) rfl rfl (List.Subset.refl _) rfl trivial⟩
  | compare one two =>
    refine .next ⟨rfl, ⟨⟨stack, room, beside.seated.frame, trivial, beside.seated.low⟩,
      ⟨alike.address, alike.calls, alike.registers, fun _ => ?_, alike.memory⟩⟩⟩
    exact congrArg₂ Prod.mk (alike.operand one) (alike.operand two)
  | set tested member =>
    refine .next ⟨rfl, beside.flag member ?_⟩
    rw [alike.compared tested]
  | widen member =>
    refine .next ⟨rfl, beside.write scratch_rax ?_ rfl (List.subset_cons_self ..) rfl trivial⟩
    have rax := alike.registers Register.rax (.scratch scratch_rax member)
    exact congrArg (fun word => lowByte (lowByte word)) rax

end

end Stackwise.Proofs.AgreeingStates
