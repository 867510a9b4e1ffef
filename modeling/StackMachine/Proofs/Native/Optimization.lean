import StackMachine.Proofs.Native.FoldedConstants
import StackMachine.Proofs.Native.ReachableCode

/-! # Optimization keeps what code does

Each of the passes leaves code that, from the start, ends as the code before it does, and within
the same fuel; so does their composition. A function whose code is replaced so is called with the
same effect.
-/

namespace StackMachine

/-! ## Jumps to the next step -/

/-- A jump to the next step does what a gap does. -/
theorem NativeState.step_of_redundantJump {s : NativeState} {step : Step} (lane : Lane)
    (returnsValue : Bool) (h : Heap) (redundant : isRedundantJump s.pc step = true) :
    s.step lane returnsValue h step = .ok (s.goOn s.stack) := by
  cases step with
  | push v => simp [isRedundantJump, Step.opcode?] at redundant
  | op i =>
      simp only [isRedundantJump, Step.opcode?, Step.target?, Bool.and_eq_true, beq_iff_eq,
        Option.some.injEq] at redundant
      obtain ⟨opcode, target⟩ := redundant
      have arg_eq : i.arg = s.pc + 1 := by simpa [opcode, Opcode.isJump] using target
      simp only [NativeState.step, instruction, opcode, jump, goOn, arg_eq]

theorem condenses_removeRedundantJumps (c : NativeContext) (code : List Step) :
    GappedCode.Condenses c (.full code) (.full (removeRedundantJumps code)) := by
  refine .trans (.of_eq fun fuel s _ => ?_) (.compactFlagged _)
  have same : ∀ s, True → (GappedCode.full code).next c s
      = (GappedCode.ofFlagged
          (code.zip (code.zipIdx.map fun place => !isRedundantJump place.2 place.1))).next c s := by
    intro s _
    cases here : code[s.pc]? with
    | none =>
        rw [GappedCode.next_of_end (GappedCode.getElem?_ofFlagged_zip_none _ here),
          GappedCode.next_of_end (by simp [GappedCode.full, here])]
    | some step =>
        have at_pc : (GappedCode.full code)[s.pc]? = some (some step) := by
          simp [GappedCode.full, here]
        have flag : (code.zipIdx.map fun place => !isRedundantJump place.2 place.1)[s.pc]?
            = some (!isRedundantJump s.pc step) := by
          simp [List.getElem?_zipIdx, here]
        have gapped := GappedCode.getElem?_ofFlagged_zip here flag
        rw [GappedCode.next_of_step at_pc]
        by_cases redundant : isRedundantJump s.pc step = true
        · rw [redundant] at gapped
          rw [GappedCode.next_of_gap gapped, NativeState.step_of_redundantJump _ _ _ redundant]
          rfl
        · rw [Bool.not_eq_true] at redundant
          rw [redundant] at gapped
          rw [GappedCode.next_of_step gapped]
  exact GappedCode.run_congr same (fun _ _ _ _ => trivial) fuel trivial

/-! ## All passes -/

theorem condenses_optimize (c : NativeContext) (code : List Step) :
    GappedCode.Condenses c (.full code) (.full (optimize c.lane code)) :=
  (condenses_removeUnreachable c code).trans <|
    (condenses_foldConstants c _).trans (condenses_removeRedundantJumps c _)

/-! ## Calls -/

/-- What comes of a call whose code has ended so: the held stores are made if it has returned. -/
def NativeEnd.settled (h : Heap) : NativeEnd → Heap × Except NativeError Int64
  | .error e => (h, .error e)
  | .ok (v, journal) =>
      match NativeFunction.commit h journal.reverse with
      | (h, .ok ()) => (h, .ok v)
      | (h, .error e) => (h, .error e)

namespace NativeFunction

variable {f : NativeFunction} {args : List Int64} {h : Heap}

def withCode (f : NativeFunction) (code : List Step) : NativeFunction :=
  { f with code := code.toArray }

def Ends (f : NativeFunction) (args : List Int64) (h : Heap)
    (r : Heap × Except NativeError Int64) : Prop :=
  ∃ fuel, f.invoke fuel args h = some r

theorem invoke_eq_map (f : NativeFunction) (fuel : Nat) (args : List Int64) (h : Heap) :
    f.invoke fuel args h
      = (f.execute h fuel (.start args f.locals)).map (NativeEnd.settled h) := by
  unfold invoke
  rcases f.execute h fuel (.start args f.locals) with _ | e | ⟨v, journal⟩
  · rfl
  · rfl
  · simp only [Option.map_some, NativeEnd.settled]
    rcases commit h journal.reverse with ⟨after, e | _⟩ <;> rfl

theorem execute_withCode (f : NativeFunction) (code : List Step) (h : Heap) (fuel : Nat)
    (s : NativeState) :
    (f.withCode code).execute h fuel s
      = (GappedCode.full code).run ⟨f.name, f.lane, f.returnsValue, h⟩ fuel s := by
  rw [execute_eq_run]
  simp only [withCode]

/-- Code that condenses other code may take its place in a function. -/
theorem ends_withCode_iff {code code' : List Step}
    (condenses : GappedCode.Condenses ⟨f.name, f.lane, f.returnsValue, h⟩ (.full code)
      (.full code')) (r : Heap × Except NativeError Int64) :
    (f.withCode code').Ends args h r ↔ (f.withCode code).Ends args h r := by
  simp only [Ends, invoke_eq_map, execute_withCode, Option.map_eq_some_iff]
  constructor
  · rintro ⟨fuel, e, run, settled⟩
    obtain ⟨more, run'⟩ := condenses.ended rfl run
    exact ⟨more, e, run', settled⟩
  · rintro ⟨fuel, e, run, settled⟩
    exact ⟨fuel, e, condenses.ends rfl run, settled⟩

end NativeFunction

/-- A function may have its code optimized, wholly or by one of the passes: a call comes to an end
if and only if it did before, and then with the same word or the same error, and with the same
heap. -/
theorem optimized_function_ends_iff (f : NativeFunction) (code : List Step) (args : List Int64)
    (h : Heap) (r : Heap × Except NativeError Int64) :
    ((f.withCode (optimize f.lane code)).Ends args h r ↔ (f.withCode code).Ends args h r)
      ∧ ((f.withCode (removeUnreachable code)).Ends args h r ↔ (f.withCode code).Ends args h r)
      ∧ ((f.withCode (foldConstants f.lane code)).Ends args h r ↔ (f.withCode code).Ends args h r)
      ∧ ((f.withCode (removeRedundantJumps code)).Ends args h r
          ↔ (f.withCode code).Ends args h r) :=
  ⟨NativeFunction.ends_withCode_iff (condenses_optimize _ code) r,
    NativeFunction.ends_withCode_iff (condenses_removeUnreachable _ code) r,
    NativeFunction.ends_withCode_iff (condenses_foldConstants _ code) r,
    NativeFunction.ends_withCode_iff (condenses_removeRedundantJumps _ code) r⟩

end StackMachine
