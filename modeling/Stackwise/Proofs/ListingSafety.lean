import Stackwise.Proofs.SafeRuns

/-! Compiled listings do not go wrong. A run ends with a result, or because a division by zero, a
call of an undefined function or the number of steps stops it, and for no other reason. The stack
must have room, which it has for every listing with frames of a modest size. -/

namespace Stackwise.Proofs.ListingSafety
open Assembly Machine Lowering SourceTerms EmittedListing Loading StackRoom Frames CodeLogic Activations SafeRuns

section
variable {machine : Program} {allowed : Fault → Prop} {pending : List State} {state : State}

private theorem runFor_of_safe {steps : Nat} {fault : Fault} (safe : Safe machine allowed steps pending state)
    (fits : FitsFor machine steps state) (failed : runFor machine steps state = .error fault) :
    fault = .stepLimit ∨ allowed fault := by
  induction steps generalizing pending state with
  | zero =>
    cases failed
    exact .inl rfl
  | succ steps ih =>
    have first := safe fits.1
    rw [runFor] at failed
    cases taken : step machine state with
    | error reason =>
      simp only [taken] at failed first
      cases failed
      exact .inr first
    | ok transition =>
      cases transition with
      | halt outcome =>
        simp only [taken] at failed
        cases failed
      | next next =>
        simp only [taken] at failed first
        exact ih first.onward (fits.2 next taken) failed

/-- A safe run descends by no more in a step than its instructions say. -/
theorem fitsFor_of_safe {steps : Nat} {bound : Int}
    (modest : ∀ (address : Nat) instruction, machine.code[address]? = some (.ok instruction) →
      descent instruction ≤ bound)
    (positive : 0 ≤ bound) (room : -0x8000000000000000 + steps * bound ≤ depthOf state)
    (safe : Safe machine allowed steps pending state) : FitsFor machine steps state := by
  induction steps generalizing pending state with
  | zero => trivial
  | succ steps ih =>
    have more : ((steps + 1 : Nat) : Int) * bound = steps * bound + bound := by
      rw [Int.natCast_succ, Int.add_mul, Int.one_mul]
    have rest : 0 ≤ (steps : Int) * bound := Int.mul_nonneg (Int.natCast_nonneg steps) positive
    have fits : Fits machine state := by
      intro instruction found
      have step := modest _ instruction found
      omega
    refine ⟨fits, fun next taken => ?_⟩
    have first := safe fits
    rw [taken] at first
    refine ih ?_ first.onward
    cases found : machine.code[state.address]? with
    | none =>
      rw [step, found] at taken
      cases taken
    | some read =>
      cases read with
      | error fault =>
        rw [step, found] at taken
        cases taken
      | ok instruction =>
        have level := first.level instruction found
        have step := modest _ instruction found
        omega

end

/-- Listings with frames of at most a terabyte do not overflow: the steps of a run are too few. -/
theorem noOverflow_of_modest {source : String} {listing : Listing} (compiled : compile source = .ok listing)
    (modest : ∀ instruction ∈ instructions listing, descent instruction ≤ 0x10000000000)
    (addresses : span listing < 0x8000000000000000) : NoOverflow listing := by
  have sizes : Worded listing := by
    intro instruction member
    have small := modest instruction member
    omega
  refine ⟨sizes, addresses, fun machine address loaded target => ?_⟩
  obtain ⟨program, other, -, -, image⟩ := compile_image compiled sizes
  have same : machine = other := Except.ok.inj (loaded.symm.trans image.loaded)
  subst same
  have depth : depthOf (startState initialRegisters (0, 0) address) = initialStack := by
    rw [depthOf, startState_pointer]
    decide
  refine fitsFor_of_safe (fun place instruction found => modest _ (image.mem_of_found found)) (by decide) ?_
    (start_safe image addresses maxSteps target)
  rw [depth]
  decide

def compilesModestly (source : String) : Bool :=
  match compile source with
  | .ok listing =>
    (instructions listing).all (fun instruction => decide (descent instruction ≤ 0x10000000000)) &&
      decide (span listing < 0x8000000000000000)
  | .error _ => false

theorem exists_of_compilesModestly {source : String} (modestly : compilesModestly source = true) :
    ∃ listing, compile source = .ok listing ∧ NoOverflow listing := by
  rw [compilesModestly] at modestly
  cases compiled : compile source with
  | error diagnostic =>
    rw [compiled] at modestly
    cases modestly
  | ok listing =>
    simp only [compiled, Bool.and_eq_true, List.all_eq_true, decide_eq_true_eq] at modestly
    exact ⟨listing, rfl, noOverflow_of_modest compiled modestly.1 modestly.2⟩

theorem allowed_of_run {source : String} {listing : Listing} (compiled : compile source = .ok listing)
    (noOverflow : NoOverflow listing) :
    ∃ program, readSource source = .ok program ∧
      ∀ fault, run (Listing.text listing) = .error fault → fault = .stepLimit ∨ Allowed program fault := by
  obtain ⟨program, machine, accepted, -, image⟩ := compile_image compiled noOverflow.sizes
  refine ⟨program, accepted, fun fault failed => ?_⟩
  obtain ⟨address, target⟩ := image.target_entry
  rw [run_eq_runFor image.loaded target] at failed
  have safe := start_safe image noOverflow.addresses maxSteps target
  exact runFor_of_safe safe (noOverflow.stack machine address image.loaded target) failed

/-- A compiled listing runs to a result, or is stopped by a division by zero, by the number of
steps, or by a call of a function that the source does not define. -/
theorem compiled_run_foreseen {source : String} {listing : Listing} (compiled : compile source = .ok listing)
    (noOverflow : NoOverflow listing) :
    ∃ program, readSource source = .ok program ∧
      ∀ fault, run (Listing.text listing) = .error fault →
        fault = .divisionByZero ∨ fault = .stepLimit ∨
          ∃ callee count, fault = .undefinedLabel callee ∧ (callee, count) ∈ calls program ∧
            ∀ function ∈ functions program, function.name ≠ callee := by
  obtain ⟨program, accepted, faults⟩ := allowed_of_run compiled noOverflow
  refine ⟨program, accepted, fun fault failed => ?_⟩
  rcases faults fault failed with rfl | allowed
  · exact .inr (.inl rfl)
  · cases fault with
    | divisionByZero => exact .inl rfl
    | undefinedLabel callee =>
      obtain ⟨⟨count, called⟩, missing⟩ := allowed
      exact .inr (.inr ⟨callee, count, rfl, called, missing⟩)
    | _ => cases allowed

/-- A variable is read without having been assigned, and a function is called that is not defined. -/
theorem careless_run_foreseen :
    ∃ listing, compile "def f(n)\x7breturn g(n+y);\x7df(1)/x;" = .ok listing ∧ NoOverflow listing ∧
      ∃ program, readSource "def f(n)\x7breturn g(n+y);\x7df(1)/x;" = .ok program ∧
        ∀ fault, run (Listing.text listing) = .error fault →
          fault = .divisionByZero ∨ fault = .stepLimit ∨
            ∃ callee count, fault = .undefinedLabel callee ∧ (callee, count) ∈ calls program ∧
              ∀ function ∈ functions program, function.name ≠ callee := by
  obtain ⟨listing, compiled, noOverflow⟩ := exists_of_compilesModestly
    (show compilesModestly "def f(n)\x7breturn g(n+y);\x7df(1)/x;" = true by decide +kernel)
  exact ⟨listing, compiled, noOverflow, compiled_run_foreseen compiled noOverflow⟩

end Stackwise.Proofs.ListingSafety
