import Mathlib.Data.List.Basic
import Mathlib.Logic.Function.Basic
import Stackwise.Machine.State

/-! Frames on the stack. A frame says where the variables of an activation lie, how many words are
on the evaluation stack below them, and what is above them and must not change. Addresses are
numbers here. They are words of the machine as long as they stay in the range of words. -/

namespace Stackwise.Proofs.Frames
open Assembly Machine

def InRange (address : Int) : Prop := -0x8000000000000000 ≤ address ∧ address < 0x8000000000000000

theorem toInt_ofInt {address : Int} (inRange : InRange address) :
    (Int64.ofInt address).toInt = address := by
  obtain ⟨lower, upper⟩ := inRange
  exact Int64.toInt_ofInt_of_le (by omega) (by omega)

def wordAt (memory : Memory) (address : Int) : Word := memory.read (Int64.ofInt address)

theorem wordAt_write {memory : Memory} {written asked : Int} (value : Word) (inRange : InRange written)
    (askedInRange : InRange asked) :
    wordAt (memory.write (Int64.ofInt written) value) asked =
      if written = asked then value else wordAt memory asked := by
  rw [wordAt, Memory.read_write]
  by_cases same : written = asked
  · rw [if_pos same, if_pos (congrArg _ same)]
  · have different : Int64.ofInt written ≠ Int64.ofInt asked := by
      intro equal
      have numbers := congrArg Int64.toInt equal
      rw [toInt_ofInt inRange, toInt_ofInt askedInRange] at numbers
      exact same numbers
    rw [if_neg same, if_neg different]
    rfl

/-- Writing a register keeps another one. The low byte of `rax` is part of `rax`. -/
theorem read_write_ne (registers : Registers) {written asked : Register} (value : Word)
    (whole : asked ≠ Register.al) (different : written ≠ asked)
    (apart : written = Register.al → asked ≠ Register.rax) :
    (registers.write written value).read asked = registers.read asked := by
  by_cases low : written = Register.al
  · have other : Register.rax ≠ asked := fun same => apart low same.symm
    simp [Registers.write, Registers.read, low, whole, Registers.full_setFull, other]
  · exact Registers.read_write_other registers value low whole different

/-- Where an activation keeps its variables. The base and the size are multiples of two words, so
that calls from an even number of words are aligned. -/
structure Frame where
  base : Int
  size : Nat
  slots : List String
  outer : Int → Word
  aligned : base % 16 = 0
  even : size % 16 = 0
  covered : 8 * slots.length ≤ size
  bounded : base + 16 < 0x8000000000000000

def Frame.slot (frame : Frame) (name : String) : Int := frame.base - 8 * (frame.slots.idxOf name + 1)

def Frame.top (frame : Frame) (count : Nat) : Int := frame.base - frame.size - 8 * count

theorem Frame.top_succ (frame : Frame) (count : Nat) : frame.top (count + 1) = frame.top count - 8 := by
  rw [Frame.top, Frame.top]
  push_cast
  omega

theorem Frame.slot_range (frame : Frame) {name : String} (known : name ∈ frame.slots) :
    frame.base - frame.size ≤ frame.slot name ∧ frame.slot name < frame.base := by
  have inside := List.idxOf_lt_length_of_mem known
  have covered := frame.covered
  rw [Frame.slot]
  omega

private theorem Frame.slot_injective (frame : Frame) {first second : String} (known : first ∈ frame.slots)
    (same : frame.slot first = frame.slot second) : first = second := by
  have positions : frame.slots.idxOf first = frame.slots.idxOf second := by
    rw [Frame.slot, Frame.slot] at same
    omega
  exact (List.idxOf_inj known).mp positions

/-- The registers and the memory hold a frame with its variables, the words on its evaluation
stack from the top down, and what lies above the frame. -/
structure Framed (frame : Frame) (contents : String → Word) (words : List Word) (registers : Registers)
    (memory : Memory) : Prop where
  base : registers.read Register.rbp = Int64.ofInt frame.base
  stack : registers.read Register.rsp = Int64.ofInt (frame.top words.length)
  room : -0x8000000000000000 ≤ frame.top words.length
  words : ∀ (index : Nat) word, words[index]? = some word →
    wordAt memory (frame.top words.length + 8 * index) = word
  slots : ∀ name ∈ frame.slots, wordAt memory (frame.slot name) = contents name
  outer : ∀ address, frame.base ≤ address → address < 0x8000000000000000 →
    wordAt memory address = frame.outer address

section
variable {frame : Frame} {contents : String → Word} {words : List Word} {registers : Registers}
  {memory : Memory}

theorem Framed.inRange (framed : Framed frame contents words registers memory) {address : Int}
    (above : frame.top words.length ≤ address) (below : address < 0x8000000000000000) : InRange address :=
  ⟨Int.le_trans framed.room above, below⟩

theorem Framed.top_inRange (framed : Framed frame contents words registers memory) :
    InRange (frame.top words.length) := by
  have bounded := frame.bounded
  refine framed.inRange (Int.le_refl _) ?_
  rw [Frame.top]
  omega

private theorem Framed.slot_inRange (framed : Framed frame contents words registers memory) {name : String}
    (known : name ∈ frame.slots) : InRange (frame.slot name) := by
  obtain ⟨lower, upper⟩ := frame.slot_range known
  have bounded := frame.bounded
  refine framed.inRange ?_ (by omega)
  rw [Frame.top]
  omega

/-- Registers other than the two pointers may be written freely. -/
theorem Framed.scratch (framed : Framed frame contents words registers memory) {register : Register}
    (value : Word) (notStack : register ≠ Register.rsp) (notBase : register ≠ Register.rbp) :
    Framed frame contents words (registers.write register value) memory := by
  refine ⟨?_, ?_, framed.room, framed.words, framed.slots, framed.outer⟩
  · rw [read_write_ne registers value (by decide) notBase (fun _ => by decide)]
    exact framed.base
  · rw [read_write_ne registers value (by decide) notStack (fun _ => by decide)]
    exact framed.stack

/-- The pointers as they are after the stack pointer is moved. -/
theorem Framed.moved (framed : Framed frame contents words registers memory) (value : Word) :
    (registers.write Register.rsp value).read Register.rsp = value ∧
      (registers.write Register.rsp value).read Register.rbp = Int64.ofInt frame.base := by
  refine ⟨Registers.read_write_same registers value (by decide), ?_⟩
  rw [read_write_ne registers value (by decide) (by decide) (fun _ => by decide)]
  exact framed.base

/-- Moving the stack pointer down takes whatever lies there onto the evaluation stack. -/
theorem Framed.grow (framed : Framed frame contents words registers memory)
    (room : -0x8000000000000000 ≤ frame.top (words.length + 1)) :
    Framed frame contents (wordAt memory (frame.top (words.length + 1)) :: words)
      (registers.write Register.rsp (registers.read Register.rsp - 8)) memory := by
  have lower := frame.top_succ words.length
  obtain ⟨stack, base⟩ := framed.moved (registers.read Register.rsp - 8)
  refine ⟨base, ?_, room, ?_, framed.slots, framed.outer⟩
  · rw [stack, framed.stack, List.length_cons, lower, Int64.ofInt_sub]
    rfl
  · intro index word found
    rw [List.length_cons]
    cases index with
    | zero =>
      cases found
      simp
    | succ index =>
      have same : frame.top (words.length + 1) + 8 * ((index + 1 : Nat) : Int) =
          frame.top words.length + 8 * index := by
        rw [lower]
        push_cast
        omega
      rw [same]
      exact framed.words index word found

theorem Framed.push (framed : Framed frame contents words registers memory) (value : Word)
    (room : -0x8000000000000000 ≤ frame.top (words.length + 1)) :
    Framed frame contents (value :: words) (registers.write Register.rsp (registers.read Register.rsp - 8))
      (memory.write (registers.read Register.rsp - 8) value) := by
  have grown := framed.grow room
  have bounded := frame.bounded
  have lower := frame.top_succ words.length
  have target : registers.read Register.rsp - 8 = Int64.ofInt (frame.top (words.length + 1)) := by
    rw [framed.stack, lower, Int64.ofInt_sub]
    rfl
  have here : InRange (frame.top (words.length + 1)) := grown.top_inRange
  have other (address : Int) (above : frame.top words.length ≤ address)
      (below : address < 0x8000000000000000) :
      wordAt (memory.write (registers.read Register.rsp - 8) value) address = wordAt memory address := by
    rw [target, wordAt_write value here (framed.inRange above below), if_neg (by omega)]
  refine ⟨grown.base, grown.stack, grown.room, ?_, ?_, ?_⟩
  · intro index word found
    rw [List.length_cons]
    cases index with
    | zero =>
      cases found
      have zero : frame.top (words.length + 1) + 8 * ((0 : Nat) : Int) = frame.top (words.length + 1) := by simp
      rw [zero, target, wordAt_write value here here, if_pos rfl]
    | succ index =>
      have inside : index < words.length := by
        have := (List.getElem?_eq_some_iff.mp found).1
        simpa using this
      have kept := grown.words (index + 1) word found
      rw [List.length_cons] at kept
      rw [other _ (by push_cast; omega) ?_, kept]
      rw [Frame.top]
      push_cast
      omega
  · intro name known
    obtain ⟨above, below⟩ := frame.slot_range known
    rw [other _ (by rw [Frame.top]; omega) (by omega)]
    exact framed.slots name known
  · intro address above below
    rw [other _ (by rw [Frame.top]; omega) below]
    exact framed.outer address above below

/-- The word on top can be taken off. -/
theorem Framed.drop {word : Word} (framed : Framed frame contents (word :: words) registers memory) :
    memory.read (registers.read Register.rsp) = word ∧
      Framed frame contents words (registers.write Register.rsp (registers.read Register.rsp + 8)) memory := by
  have upper : frame.top words.length = frame.top (words.length + 1) + 8 := by
    rw [frame.top_succ]
    omega
  have room := framed.room
  rw [List.length_cons] at room
  constructor
  · have found := framed.words 0 word rfl
    rw [framed.stack]
    simpa [wordAt] using found
  · obtain ⟨stack, base⟩ := framed.moved (registers.read Register.rsp + 8)
    refine ⟨base, ?_, by omega, ?_, framed.slots, framed.outer⟩
    · rw [stack, framed.stack, List.length_cons, upper, Int64.ofInt_add]
      rfl
    · intro index next found
      have kept := framed.words (index + 1) next found
      rw [List.length_cons] at kept
      have same : frame.top words.length + 8 * (index : Int) =
          frame.top (words.length + 1) + 8 * ((index + 1 : Nat) : Int) := by
        rw [upper]
        push_cast
        omega
      rw [same]
      exact kept

/-- Writing a variable changes its slot and nothing else. -/
theorem Framed.store (framed : Framed frame contents words registers memory) {name : String}
    (known : name ∈ frame.slots) (value : Word) :
    Framed frame (Function.update contents name value) words registers
      (memory.write (Int64.ofInt (frame.slot name)) value) := by
  obtain ⟨above, below⟩ := frame.slot_range known
  have here := framed.slot_inRange known
  have bounded := frame.bounded
  refine ⟨framed.base, framed.stack, framed.room, ?_, ?_, ?_⟩
  · intro index word found
    have inside : index < words.length := (List.getElem?_eq_some_iff.mp found).1
    have low : frame.top words.length + 8 * (index : Int) < frame.base - frame.size := by
      rw [Frame.top]
      omega
    rw [wordAt_write value here (framed.inRange (by omega) (by omega)), if_neg (by omega)]
    exact framed.words index word found
  · intro other member
    rw [wordAt_write value here (framed.slot_inRange member)]
    by_cases same : name = other
    · subst same
      rw [if_pos rfl, Function.update_self]
    · have different : frame.slot name ≠ frame.slot other := fun equal => same (frame.slot_injective known equal)
      rw [if_neg different, Function.update_of_ne (Ne.symm same)]
      exact framed.slots other member
  · intro address higher lower
    rw [wordAt_write value here (framed.inRange (by rw [Frame.top]; omega) lower), if_neg (by omega)]
    exact framed.outer address higher lower

/-- A frame is nothing but its two pointers and the memory from the top of the stack on. -/
theorem Framed.of_same (framed : Framed frame contents words registers memory) {others : Registers}
    {changed : Memory} (base : others.read Register.rbp = registers.read Register.rbp)
    (stack : others.read Register.rsp = registers.read Register.rsp)
    (same : ∀ address, frame.top words.length ≤ address → address < 0x8000000000000000 →
      wordAt changed address = wordAt memory address) : Framed frame contents words others changed := by
  have bounded := frame.bounded
  refine ⟨base.trans framed.base, stack.trans framed.stack, framed.room, ?_, ?_, ?_⟩
  · intro index word found
    have inside : index < words.length := (List.getElem?_eq_some_iff.mp found).1
    rw [same _ (by omega) (by rw [Frame.top]; omega)]
    exact framed.words index word found
  · intro name known
    obtain ⟨above, below⟩ := frame.slot_range known
    rw [same _ (by rw [Frame.top]; omega) (by omega)]
    exact framed.slots name known
  · intro address above below
    rw [same _ (by rw [Frame.top]; omega) below]
    exact framed.outer address above below

end

end Stackwise.Proofs.Frames
