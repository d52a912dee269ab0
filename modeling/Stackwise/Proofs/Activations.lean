import Stackwise.Proofs.CodeFragments
import Stackwise.Proofs.EmittedListing

/-! The life of an activation: a call pushes the return address, the function sets up a frame below
it and takes the frame down again, and the return finds the address where the call put it. The
caller's frame is as it was, since nothing above the callee's frame is written. -/

namespace Stackwise.Proofs.Activations
open Assembly Machine Lowering EmittedCode EmittedListing Loading StackRoom Frames CodeLogic

structure Entry (stack : Int) (state : State) : Prop where
  pointer : state.registers.read Register.rsp = Int64.ofInt stack
  aligned : stack % 16 = 8
  room : -0x8000000000000000 ≤ stack
  bounded : stack + 8 < 0x8000000000000000

theorem Entry.depthOf_eq {stack : Int} {state : State} (entry : Entry stack state) : depthOf state = stack := by
  have bounded := entry.bounded
  rw [depthOf, entry.pointer, toInt_ofInt ⟨entry.room, by omega⟩]

/-- A frame is opened below the return address. It keeps the caller's base and all that lies
above. -/
structure Opened (frame : Frame) (stack : Int) (entry : State) : Prop where
  base : frame.base = stack - 8
  saved : frame.outer (stack - 8) = entry.registers.read Register.rbp
  kept : ∀ address, stack ≤ address → address < 0x8000000000000000 →
    frame.outer address = wordAt entry.memory address

/-- The function is about to return, with the stack and the base as they were when it was
entered. -/
structure Finished (program : Program) (stack : Int) (entry state : State) : Prop where
  found : program.code[state.address]? = some (.ok .ret)
  pointer : state.registers.read Register.rsp = Int64.ofInt stack
  base : state.registers.read Register.rbp = entry.registers.read Register.rbp
  memory : ∀ address, stack ≤ address → address < 0x8000000000000000 →
    wordAt state.memory address = wordAt entry.memory address

def opened (stack : Int) (entry : State) (aligned : stack % 16 = 8)
    (bounded : stack + 8 < 0x8000000000000000) (size : Nat) (even : size % 16 = 0) (slots : List String)
    (covered : 8 * slots.length ≤ size) : Frame where
  base := stack - 8
  size := size
  slots := slots
  outer := fun address =>
    if address = stack - 8 then entry.registers.read Register.rbp else wordAt entry.memory address
  aligned := by omega
  even := even
  covered := covered
  bounded := by omega

private theorem opened_opens {stack : Int} {entry : State} (aligned : stack % 16 = 8)
    (bounded : stack + 8 < 0x8000000000000000) {size : Nat} (even : size % 16 = 0) {slots : List String}
    (covered : 8 * slots.length ≤ size) :
    Opened (opened stack entry aligned bounded size even slots covered) stack entry := by
  refine ⟨rfl, if_pos rfl, fun address above _ => ?_⟩
  have different : address ≠ stack - 8 := by omega
  exact if_neg different

/-- The pointers alone make a frame, whose variables hold what lies there. -/
theorem framed_of_pointers {frame : Frame} {registers : Registers} {memory : Memory}
    (base : registers.read Register.rbp = Int64.ofInt frame.base)
    (stack : registers.read Register.rsp = Int64.ofInt (frame.top 0))
    (room : -0x8000000000000000 ≤ frame.top 0)
    (outer : ∀ address, frame.base ≤ address → address < 0x8000000000000000 →
      wordAt memory address = frame.outer address) :
    Framed frame (fun name => wordAt memory (frame.slot name)) [] registers memory := by
  refine ⟨base, stack, room, ?_, fun _ _ => rfl, outer⟩
  intro index word found
  cases found

section
variable {program : Program} {Holds : State → Prop}

/-- A function saves the caller's base and makes the stack pointer its own. -/
theorem save_runs (closed : Backward program Holds) {stack : Int} {state : State} {address : Nat}
    (entry : Entry stack state) (here : state.address = address)
    (pushing : program.code[address]? = some (.ok (.push Register.rbp)))
    (moving : program.code[address + 1]? = some (.ok (.mov Register.rbp Register.rsp)))
    (onward : ∀ next, -0x8000000000000000 ≤ stack - 8 → next.address = address + 2 →
      next.calls = state.calls → next.registers.read Register.rsp = Int64.ofInt (stack - 8) →
      next.registers.read Register.rbp = Int64.ofInt (stack - 8) →
      wordAt next.memory (stack - 8) = state.registers.read Register.rbp →
      (∀ asked, stack - 8 < asked → asked < 0x8000000000000000 →
        wordAt next.memory asked = wordAt state.memory asked) →
      (∀ asked, asked ≠ Register.rsp → asked ≠ Register.rbp → asked ≠ Register.al →
        next.registers.read asked = state.registers.read asked) → Holds next) : Holds state := by
  subst here
  have bounded := entry.bounded
  have lower := entry.room
  have depth := entry.depthOf_eq
  by_cases fits : Fits program state
  · have room : -0x8000000000000000 ≤ stack - 8 := by
      have bound := fits _ pushing
      rwa [depth, descent] at bound
    have target : state.registers.read Register.rsp - 8 = Int64.ofInt (stack - 8) := by
      rw [entry.pointer, Int64.ofInt_sub]
      rfl
    let saved : State := State.push { state with address := state.address + 1 } (state.registers.read Register.rbp)
    have pointer : saved.registers.read Register.rsp = Int64.ofInt (stack - 8) := by
      refine Eq.trans ?_ target
      exact Registers.read_write_same _ _ (by decide)
    have inRange : InRange (stack - 8) := ⟨room, by omega⟩
    have savedDepth : depthOf saved = stack - 8 := by
      rw [depthOf, pointer, toInt_ofInt inRange]
    let based : State := State.write { saved with address := saved.address + 1 } Register.rbp
      (saved.registers.read Register.rsp)
    have kept : based.registers.read Register.rsp = saved.registers.read Register.rsp :=
      read_write_ne _ _ (by decide) (by decide) (fun _ => by decide)
    have basedDepth : depthOf based = stack - 8 := by
      rw [depthOf, kept, pointer, toInt_ofInt inRange]
    have memory (asked : Int) (asks : InRange asked) : wordAt based.memory asked =
        if stack - 8 = asked then state.registers.read Register.rbp else wordAt state.memory asked := by
      show wordAt (state.memory.write (state.registers.read Register.rsp - 8) _) asked = _
      rw [target, wordAt_write _ inRange asks]
    refine closed.step pushing trivial rfl ?_ (closed.step moving trivial rfl ?_ (onward based room rfl rfl ?_ ?_ ?_ ?_ ?_))
    · rw [depth]
      exact Int.le_of_eq savedDepth.symm
    · show depthOf saved - 0 ≤ depthOf based
      rw [savedDepth, basedDepth]
      omega
    · rw [kept, pointer]
    · rw [← pointer]
      exact Registers.read_write_same _ _ (by decide)
    · rw [memory _ inRange, if_pos rfl]
    · intro asked above below
      rw [memory asked ⟨by omega, below⟩, if_neg (by omega)]
    · intro asked notStack notBase notByte
      have written : based.registers.read asked = saved.registers.read asked :=
        read_write_ne _ _ notByte (Ne.symm notBase) (fun low => absurd low (by decide))
      exact written.trans (read_move _ _ notStack notByte)
  · exact closed.overflow state fits

/-- Making room for the variables completes the frame. -/
theorem reserve_runs (closed : Backward program Holds) {frame : Frame} {state : State} {address : Nat}
    (here : state.address = address) (room : -0x8000000000000000 ≤ frame.base)
    (reserving : program.code[address]? = some (.ok (.arithmetic .sub Register.rsp (.immediate frame.size))))
    (pointer : state.registers.read Register.rsp = Int64.ofInt frame.base)
    (base : state.registers.read Register.rbp = Int64.ofInt frame.base)
    (outer : ∀ asked, frame.base ≤ asked → asked < 0x8000000000000000 →
      wordAt state.memory asked = frame.outer asked)
    (onward : ∀ contents next, Stands frame contents [] (address + 1) state.calls next →
      (∀ asked, asked ≠ Register.rsp → asked ≠ Register.al →
        next.registers.read asked = state.registers.read asked) → Holds next) : Holds state := by
  subst here
  have bounded := frame.bounded
  have depth : depthOf state = frame.base := by
    rw [depthOf, pointer, toInt_ofInt ⟨room, by omega⟩]
  have top : frame.top 0 = frame.base - frame.size := by
    rw [Frame.top]
    omega
  by_cases fits : Fits program state
  · have space : -0x8000000000000000 ≤ frame.top 0 := by
      have bound := fits _ reserving
      rw [depth, descent, if_pos rfl] at bound
      rwa [top]
    let reserved : State := State.write { state with address := state.address + 1 } Register.rsp
      (state.registers.read Register.rsp - Int64.ofInt frame.size)
    have moved : reserved.registers.read Register.rsp = Int64.ofInt (frame.top 0) := by
      rw [top, Int64.ofInt_sub, ← pointer]
      exact Registers.read_write_same _ _ (by decide)
    have unmoved : reserved.registers.read Register.rbp = Int64.ofInt frame.base :=
      (read_move _ _ (by decide) (by decide)).trans base
    have final : Stands frame (fun name => wordAt reserved.memory (frame.slot name)) [] (state.address + 1)
        state.calls reserved := ⟨framed_of_pointers unmoved moved space outer, rfl, rfl⟩
    refine closed.step reserving trivial rfl ?_ (onward _ reserved final fun asked => read_move _ _)
    rw [depth, descent, if_pos rfl]
    exact Int.le_of_eq (final.depthOf_eq.trans top).symm
  · exact closed.overflow state fits

theorem prologue_runs (closed : Backward program Holds) {stack : Int} {state : State} {address size : Nat}
    {name : String} {slots : List String} (placed : Placed program address (prologue name size))
    (even : size % 16 = 0) (covered : 8 * slots.length ≤ size) (entry : Entry stack state)
    (here : state.address = address)
    (onward : ∀ frame contents next, Opened frame stack state → frame.slots = slots →
      Stands frame contents [] (address + span (prologue name size)) state.calls next →
      (∀ asked, asked ≠ Register.rsp → asked ≠ Register.rbp → asked ≠ Register.al →
        next.registers.read asked = state.registers.read asked) → Holds next) : Holds state := by
  have bounded := entry.bounded
  let frame := opened stack state entry.aligned bounded size even slots covered
  have opens : Opened frame stack state := opened_opens entry.aligned bounded even covered
  obtain ⟨front, back⟩ := placed_append.mp placed
  obtain ⟨-, pushing, moving, -⟩ := front
  refine save_runs closed entry here pushing moving
    fun saved room there made pointer base old kept others => ?_
  have outer (asked : Int) (above : frame.base ≤ asked) (below : asked < 0x8000000000000000) :
      wordAt saved.memory asked = frame.outer asked := by
    have inside : stack - 8 ≤ asked := above
    by_cases same : asked = stack - 8
    · rw [same, old, opens.saved]
    · rw [kept asked (by omega) below]
      exact (if_neg same).symm
  by_cases empty : size = 0
  · have top : frame.top 0 = stack - 8 := by
      show stack - 8 - (size : Int) - 8 * ((0 : Nat) : Int) = stack - 8
      omega
    have framed : Framed frame _ [] saved.registers saved.memory :=
      framed_of_pointers base (by rw [pointer, top]) (by omega) outer
    refine onward frame _ saved opens rfl ⟨framed, ?_, made⟩ others
    rw [there, prologue, if_pos empty]
    rfl
  · rw [if_neg empty] at back
    have reserving : program.code[address + 2]? =
        some (.ok (.arithmetic .sub Register.rsp (.immediate frame.size))) := back.1
    refine reserve_runs closed there room reserving pointer base outer fun contents next stands unmoved => ?_
    refine onward frame contents next opens rfl ?_ fun asked notStack notBase notByte => ?_
    · rw [prologue, if_neg empty, ← made]
      exact stands
    · exact (unmoved asked notStack notByte).trans (others asked notStack notBase notByte)

/-- Taking the frame down leads back to where the function was entered, whatever is left on its
evaluation stack. -/
theorem epilogue_runs (closed : Backward program Holds) {stack : Int} {entry state : State} {address : Nat}
    {name : String} {frame : Frame} {contents : String → Word} {words : List Word} {calls : Nat}
    (placed : Placed program address (epilogue name)) (opens : Opened frame stack entry)
    (stands : Stands frame contents words address calls state)
    (onward : ∀ next, Finished program stack entry next → next.calls = calls →
      next.registers.read Register.rax = state.registers.read Register.rax → Holds next) : Holds state := by
  obtain ⟨-, moving, popping, returning, -⟩ := placed
  have bounded := frame.bounded
  have base := opens.base
  have low : frame.top words.length ≤ frame.base := by
    rw [Frame.top]
    omega
  have inRange : InRange frame.base := ⟨Int.le_trans stands.framed.room low, by omega⟩
  have higher : InRange (frame.base + 8) := ⟨by have := inRange.1; omega, by omega⟩
  let lifted : State := State.write { state with address := state.address + 1 } Register.rsp
    (state.registers.read Register.rbp)
  have pointer : lifted.registers.read Register.rsp = Int64.ofInt frame.base := by
    rw [← stands.framed.base]
    exact Registers.read_write_same _ _ (by decide)
  have liftedDepth : depthOf lifted = frame.base := by
    rw [depthOf, pointer, toInt_ofInt inRange]
  have saved : lifted.top = entry.registers.read Register.rbp := by
    show lifted.memory.read (lifted.registers.read Register.rsp) = _
    rw [pointer]
    show wordAt state.memory frame.base = _
    rw [stands.framed.outer frame.base (Int.le_refl _) (by omega), base, opens.saved]
  let restored : State := State.write (State.drop { lifted with address := lifted.address + 1 }) Register.rbp lifted.top
  have top : restored.registers.read Register.rsp = Int64.ofInt (frame.base + 8) := by
    refine (read_write_ne _ _ (by decide) (by decide) (fun _ => by decide)).trans ?_
    rw [Int64.ofInt_add, ← pointer]
    exact Registers.read_write_same _ _ (by decide)
  have restoredDepth : depthOf restored = frame.base + 8 := by
    rw [depthOf, top, toInt_ofInt higher]
  have first : program.code[state.address]? = some (.ok (.mov Register.rsp Register.rbp)) :=
    stands.address ▸ moving
  have second : program.code[lifted.address]? = some (.ok (.pop Register.rbp)) := by
    show program.code[state.address + 1]? = _
    rw [stands.address]
    exact popping
  refine closed.step first trivial rfl ?_
    (closed.step second trivial rfl ?_ (onward restored ⟨?_, ?_, ?_, ?_⟩ stands.calls ?_))
  · show depthOf state - 0 ≤ depthOf lifted
    rw [stands.depthOf_eq, liftedDepth]
    omega
  · show depthOf lifted - 0 ≤ depthOf restored
    rw [liftedDepth, restoredDepth]
    omega
  · show program.code[state.address + 1 + 1]? = _
    rw [stands.address]
    exact returning
  · rw [top, base]
    congr 1
    omega
  · refine Eq.trans ?_ saved
    exact Registers.read_write_same _ _ (by decide)
  · intro asked above below
    show wordAt state.memory asked = _
    rw [stands.framed.outer asked (by omega) below, opens.kept asked above below]
  · refine (read_write_ne _ _ (by decide) (by decide) (fun low => absurd low (by decide))).trans ?_
    refine (read_move _ _ (by decide) (by decide)).trans ?_
    exact read_move _ _ (by decide) (by decide)

end

def entered (state : State) (target : Nat) : State :=
  { State.push { state with address := state.address + 1, calls := state.calls + 1 }
      (Int64.ofNat (state.address + 1)) with address := target }

section
variable {program : Program} {frame : Frame} {contents : String → Word} {words : List Word}
  {address calls : Nat} {state : State}

theorem Frame.top_aligned (frame : Frame) {count : Nat} (even : count % 2 = 0) : frame.top count % 16 = 0 := by
  have base := frame.aligned
  have size := frame.even
  rw [Frame.top]
  omega

private theorem mod_of_aligned {stack : Int} (inRange : InRange stack) (aligned : stack % 16 = 0) :
    Int64.ofInt stack % 16 = 0 := by
  apply Int64.toInt_inj.mp
  rw [Int64.toInt_mod, toInt_ofInt inRange]
  show stack.tmod 16 = 0
  exact Int.tmod_eq_zero_of_dvd (Int.dvd_of_emod_eq_zero aligned)

/-- A call from an even number of words is aligned, and goes to the label if there is one. -/
theorem call_steps {callee : String} (found : program.code[address]? = some (.ok (.call callee)))
    (stands : Stands frame contents words address calls state) (even : words.length % 2 = 0) :
    step program state = match program.labels.get? callee with
      | some target => .ok (.next (entered state target))
      | none => .error (.undefinedLabel callee) := by
  have here := stands.address ▸ found
  have aligned : state.registers.read Register.rsp % 16 = 0 := by
    rw [stands.framed.stack]
    exact mod_of_aligned stands.framed.top_inRange (Frame.top_aligned frame even)
  rw [step, here]
  show enter program { state with address := state.address + 1 } callee = _
  rw [enter, if_pos aligned, jump, Program.target]
  cases program.labels.get? callee with
  | none => rfl
  | some target => rfl

private theorem entered_entry (target : Nat) (stands : Stands frame contents words address calls state)
    (even : words.length % 2 = 0) (room : -0x8000000000000000 ≤ frame.top words.length - 8) :
    Entry (frame.top words.length - 8) (entered state target) := by
  have aligned := Frame.top_aligned frame even
  have bounded := stands.framed.top_inRange.2
  refine ⟨?_, by omega, room, by omega⟩
  rw [Int64.ofInt_sub, ← stands.framed.stack]
  exact Registers.read_write_same _ _ (by decide)

/-- The memory of the caller is as it was, below the return address aside. -/
theorem entered_memory (target : Nat) (stands : Stands frame contents words address calls state)
    (room : -0x8000000000000000 ≤ frame.top words.length - 8) {asked : Int} (asks : InRange asked) :
    wordAt (entered state target).memory asked =
      if frame.top words.length - 8 = asked then Int64.ofNat (address + 1) else wordAt state.memory asked := by
  have bounded := stands.framed.top_inRange.2
  show wordAt (state.memory.write (state.registers.read Register.rsp - 8) (Int64.ofNat (state.address + 1))) asked = _
  have pointer : state.registers.read Register.rsp - 8 = Int64.ofInt (frame.top words.length - 8) := by
    rw [stands.framed.stack, Int64.ofInt_sub]
    rfl
  rw [pointer, wordAt_write _ ⟨room, by omega⟩ asks, stands.address]

theorem Finished.top_eq {stack : Int} {entry : State} (finished : Finished program stack entry state)
    (inside : stack < 0x8000000000000000) : state.top = wordAt entry.memory stack := by
  rw [State.top, finished.pointer]
  exact finished.memory stack (Int.le_refl _) inside

private theorem return_steps {stack : Int} {entry : State} {destination : Nat}
    (finished : Finished program stack entry state) (inside : stack < 0x8000000000000000)
    (pushed : wordAt entry.memory stack = Int64.ofNat destination)
    (small : destination < 0x8000000000000000) :
    step program state = .ok (.next { state.drop with address := destination }) := by
  have top : state.top = Int64.ofNat destination := (finished.top_eq inside).trans pushed
  have number : (Int64.ofNat destination).toInt = destination := Int64.toInt_ofNat_of_lt small
  have running : Int64.ofNat destination ≠ haltAddress := by
    intro same
    have numbers := congrArg Int64.toInt same
    have halt : Int64.toInt haltAddress = -1 := by decide
    rw [number, halt] at numbers
    omega
  have positive : ¬ Int64.ofNat destination < 0 := by
    rw [Int64.lt_iff_toInt_lt, number]
    exact Int.not_lt.mpr (Int.natCast_nonneg destination)
  rw [step, finished.found]
  show leave { state with address := state.address + 1 } = _
  have same : State.top { state with address := state.address + 1 } = Int64.ofNat destination := top
  simp only [leave, same, if_neg running, if_neg positive, Int64.toNatClampNeg_ofNat_of_lt small]
  rfl

theorem halt_steps {stack : Int} {entry : State} (finished : Finished program stack entry state)
    (inside : stack < 0x8000000000000000) (pushed : wordAt entry.memory stack = haltAddress) :
    step program state = .ok (.halt ⟨state.registers.read Register.rax, state.calls⟩) := by
  have top : State.top { state with address := state.address + 1 } = haltAddress :=
    (finished.top_eq inside).trans pushed
  have value : (State.drop { state with address := state.address + 1 }).registers.read Register.rax =
      state.registers.read Register.rax := read_move _ _ (by decide) (by decide)
  rw [step, finished.found]
  show leave { state with address := state.address + 1 } = _
  simp only [leave, top, if_true, value]

/-- What a call that fits does: it enters a function, and a return from there leads behind it. -/
structure Called (program : Program) (stack : Int) (address : Nat) (callee : State) : Prop where
  entry : Entry stack callee
  returning : ∀ last, Finished program stack callee last →
    step program last = .ok (.next { last.drop with address := address + 1 })

theorem call_of_fits {callee : String} (target : Nat) (found : program.code[address]? = some (.ok (.call callee)))
    (small : address + 1 < 0x8000000000000000) (stands : Stands frame contents words address calls state)
    (even : words.length % 2 = 0) (fits : Fits program state) :
    Called program (frame.top words.length - 8) address (entered state target) := by
  have room : -0x8000000000000000 ≤ frame.top words.length - 8 := by
    have bound := fits _ (stands.address ▸ found)
    rwa [stands.depthOf_eq, descent] at bound
  have entry := entered_entry target stands even room
  have inside : frame.top words.length - 8 < 0x8000000000000000 := by
    have bounded := entry.bounded
    omega
  refine ⟨entry, fun last finished => return_steps finished inside ?_ small⟩
  rw [entered_memory target stands room ⟨room, inside⟩, if_pos rfl]

/-- After the return the caller has its frame back. -/
theorem returned_stands {target : Nat} {last : State} (stands : Stands frame contents words address calls state)
    (room : -0x8000000000000000 ≤ frame.top words.length - 8)
    (finished : Finished program (frame.top words.length - 8) (entered state target) last) :
    Stands frame contents words (address + 1) last.calls { last.drop with address := address + 1 } := by
  have lower := stands.framed.room
  refine ⟨stands.framed.of_same ?_ ?_ ?_, rfl, rfl⟩
  · refine (read_move _ _ (by decide) (by decide)).trans (finished.base.trans ?_)
    exact read_move _ _ (by decide) (by decide)
  · refine (Registers.read_write_same _ _ (by decide)).trans ?_
    rw [finished.pointer, stands.framed.stack, Int64.ofInt_sub]
    exact Int64.sub_add_cancel _ _
  · intro asked above below
    show wordAt last.memory asked = wordAt state.memory asked
    rw [finished.memory asked (by omega) below, entered_memory target stands room ⟨by omega, below⟩,
      if_neg (by omega)]

end

/-- A run begins as if its first function had been called from the halt address. -/
def initialStack : Int := 0x7ffefff8

section
variable (compared : Word × Word) (address : Nat)

theorem startState_pointer :
    (startState initialRegisters compared address).registers.read Register.rsp = Int64.ofInt initialStack := by
  have before : initialRegisters.read Register.rsp = initialStackPointer := by
    rw [initialRegisters, Registers.read_write_other _ _ (by decide) (by decide) (by decide)]
    exact Registers.read_write_same _ _ (by decide)
  refine (Registers.read_write_same _ _ (by decide)).trans ?_
  rw [before]
  decide

theorem startState_entry : Entry initialStack (startState initialRegisters compared address) :=
  ⟨startState_pointer compared address, by decide, by decide, by decide⟩

theorem startState_top : wordAt (startState initialRegisters compared address).memory initialStack = haltAddress := by
  rw [wordAt, ← startState_pointer compared address]
  exact State.top_push _ _

end

theorem run_eq_runFor {listing : Listing} {machine : Program} {address : Nat}
    (loaded : Program.load (Listing.text listing) = .ok machine) (target : machine.target entry = .ok address) :
    run (Listing.text listing) = runFor machine maxSteps (startState initialRegisters (0, 0) address) := by
  have found : machine.target "main" = .ok address := target
  simp only [run, loaded, runFrom, found]

end Stackwise.Proofs.Activations
