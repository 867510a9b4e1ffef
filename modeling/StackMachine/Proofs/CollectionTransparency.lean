import Mathlib
import StackMachine.Proofs.AlikeRuns
import StackMachine.Proofs.NativeTransparency

/-! # Collections do not show

When collections happen, and which ids they free for new objects, does not change what a program
computes. It shows only in whether memory runs out and in references that are printed. With
native code too, whose runs are those of the interpreter.
-/

namespace StackMachine

/-! ## What the interpreter does is done with native code -/

section Native

variable {env : Environment} {s : State}

/-- A chain of steps either ends within a chain on which the property holds, or goes on after
it. -/
theorem StepsIn.split {inside : State → Prop} {n m : Nat} {u v w : State}
    (through : StepsIn env.interpreted inside n u v) (chain : Steps env.interpreted m u w) :
    inside w ∨ ∃ k, m = n + k ∧ Steps env.interpreted k v w := by
  induction through generalizing m with
  | refl u => exact .inr ⟨m, (Nat.zero_add m).symm, chain⟩
  | head within first rest ih =>
      cases chain with
      | refl _ => exact .inl within
      | head first' rest' =>
          rw [State.step_interpreted_fuel env _ _ _, first'] at first
          cases first
          rcases ih rest' with done | ⟨k, length, later⟩
          · exact .inl done
          · exact .inr ⟨k, by omega, later⟩

theorem State.fetches_of_namesReference (names : s.namesReference = true) :
    s.Fetches .print := by
  unfold State.namesReference at names
  split at names
  · cases names
  · rename_i frame callers frames
    split at names
    · rename_i i r rest fetch operands
      have opcode : i.opcode = .print := by
        simp only [Bool.and_eq_true, beq_iff_eq] at names
        exact names.1
      exact ⟨frame, callers, i, frames, fetch, opcode⟩
    · cases names

/-- Native code prints nothing, so what the interpreter is about to print is printed outside of
it. -/
theorem Ready.printsReference (ready : Ready env s)
    (prints : s.bare.PrintsReference env.interpreted) : s.PrintsReference env := by
  obtain ⟨m, w, chain, names⟩ := prints
  induction m using Nat.strongRecOn generalizing s with
  | ind m ih =>
      cases chain with
      | refl _ => exact ⟨0, s, .refl s, names⟩
      | @head m fuel _ u _ first rest =>
          have imitates : Imitates env (m + 1) (s.bare.step env.interpreted 0)
            (s.step env (m + 1)) := ready.imitates
          rw [State.step_interpreted_fuel env 0 fuel, first] at imitates
          cases step : s.step env (m + 1) with
          | next t =>
              rw [step] at imitates
              cases imitates with
              | next _ same quiet =>
                  cases same
                  rcases quiet.split rest with silent | ⟨k, length, later⟩
                  · exact absurd (State.fetches_of_namesReference names) silent
                  · exact (ih k (by omega) (ready.next step) later).of_next step
          | halted code t =>
              rw [step] at imitates
              cases imitates with
              | halted same => cases same
          | failed fault t =>
              rw [step] at imitates
              cases imitates with
              | failed same => cases same
          | outOfFuel =>
              rw [step] at imitates
              cases imitates with
              | outOfFuel same quiet =>
                  cases same
                  rcases quiet.split rest with silent | ⟨k, length, _⟩
                  · exact absurd (State.fetches_of_namesReference names) silent
                  · omega

theorem Ready.exhausts (ready : Ready env s) (full : s.bare.Exhausts env.interpreted) :
    s.Exhausts env := by
  obtain ⟨fuel, fault, t, run, isExhaustion⟩ := full
  obtain ⟨fuel', e, run', bare⟩ := ready.run_of_interpreted run
  cases e with
  | ended outcome u => cases bare
  | failed fault' u =>
      cases bare
      exact ⟨fuel', _, u, run', isExhaustion⟩

end Native

/-! ## Checking a run -/

/-- The run ends within the number of steps, does not run out of memory and prints no reference
other than null. -/
def State.endsWell (env : Environment) : Nat → State → Bool
  | 0, _ => false
  | n + 1, s =>
      !s.namesReference &&
        match s.frames with
        | [] => true
        | _ :: _ =>
            match s.step env 0 with
            | .next t => t.endsWell env n
            | .halted _ _ => true
            | .failed fault _ => !fault.isExhaustion
            | .outOfFuel => false

section EndsWell

variable {env : Environment} {n : Nat} {s : State}

theorem State.not_exhausts_of_endsWell (ends : s.endsWell env.interpreted n = true) :
    ¬ s.Exhausts env.interpreted := by
  induction n generalizing s with
  | zero => cases ends
  | succ n ih =>
      have goesOn := (Bool.and_eq_true_iff.mp ends).2
      rintro ⟨fuel, fault, t, run, full⟩
      cases fuel with
      | zero => cases run
      | succ fuel =>
          cases frames : s.frames with
          | nil =>
              rw [State.runSteps_of_empty fuel frames] at run
              cases run
          | cons frame callers =>
              have active : s.frames ≠ [] := by simp [frames]
              rw [State.runSteps_of_frames fuel active, State.step_interpreted_fuel env fuel 0]
                at run
              rw [frames] at goesOn
              cases step : s.step env.interpreted 0 with
              | next u =>
                  rw [step] at run goesOn
                  exact ih goesOn ⟨fuel, fault, t, run, full⟩
              | halted code u =>
                  rw [step] at run
                  cases run
              | failed fault' u =>
                  rw [step] at run goesOn
                  cases run
                  simp [full] at goesOn
              | outOfFuel =>
                  rw [step] at run
                  cases run

theorem State.not_printsReference_of_endsWell (ends : s.endsWell env.interpreted n = true) :
    ¬ s.PrintsReference env.interpreted := by
  induction n generalizing s with
  | zero => cases ends
  | succ n ih =>
      obtain ⟨silent, goesOn⟩ := Bool.and_eq_true_iff.mp ends
      rintro ⟨m, t, chain, names⟩
      cases chain with
      | refl _ => simp [names] at silent
      | head first rest =>
          rw [State.step_interpreted_fuel env _ 0] at first
          cases frames : s.frames with
          | nil => exact State.frames_ne_nil_of_step first frames
          | cons frame callers =>
              rw [frames] at goesOn
              simp only [first] at goesOn
              exact ih goesOn ⟨_, t, rest, names⟩

end EndsWell

/-! ## What is seen apart from the heap -/

/-- The run of the function ends with the result and leaves the console. -/
def State.Shows (env : Environment) (s : State) (entry : LinkedFunction) (console : Console)
    (result : Except RuntimeError Outcome) : Prop :=
  ∃ heap, s.Yields env entry ⟨heap, console, result⟩

theorem Execution.Alike.observation {e e' : Execution} (alike : e.Alike e') :
    e'.observation.console = e.observation.console
      ∧ e'.observation.result = e.observation.result := by
  cases alike with
  | ended outcome console =>
      simp only [Execution.observation, Execution.conclude, State.flush, console, and_self]
  | failed fault console frames =>
      simp only [Execution.observation, Execution.conclude, State.flush, console, frames, and_self]

section Shows

variable {env : Environment} {s t : State} {entry : LinkedFunction} {console : Console}
  {result : Except RuntimeError Outcome}

theorem Ready.shows_iff (ready : Ready env (s.entering entry)) :
    s.Shows env entry console result ↔ s.bare.Shows env.interpreted entry console result := by
  simp only [State.Shows, ready.yields_iff]

theorem State.Alike.shows (env env' : Environment) {ρ : Pairing}
    (program : env.program = env'.program)
    (depth : env.config.maxCallDepth = env'.config.maxCallDepth)
    (alike : (s.entering entry).Alike ρ (t.entering entry))
    (roomy : ¬ (s.entering entry).Exhausts env.interpreted)
    (roomy' : ¬ (t.entering entry).Exhausts env'.interpreted)
    (unnamed : ¬ (s.entering entry).PrintsReference env.interpreted)
    (shows : s.Shows env.interpreted entry console result) :
    t.Shows env'.interpreted entry console result := by
  obtain ⟨heap, yields⟩ := shows
  obtain ⟨fuel, e, run, seen⟩ := State.yields_iff.mp yields
  have roomy'' : ¬ (t.entering entry).Exhausts env.interpreted := by
    rintro ⟨fuel, fault, u, run, full⟩
    rw [State.runSteps_interpreted_congr program depth] at run
    exact roomy' ⟨fuel, fault, u, run, full⟩
  obtain ⟨e', run', same⟩ := alike.run roomy roomy'' unnamed run
  obtain ⟨console_eq, result_eq⟩ := same.observation
  rw [seen] at console_eq result_eq
  rw [State.runSteps_interpreted_congr program depth] at run'
  refine ⟨e'.observation.heap, State.yields_iff.mpr ⟨fuel, e', run', ?_⟩⟩
  calc e'.observation
      = ⟨e'.observation.heap, e'.observation.console, e'.observation.result⟩ := rfl
    _ = ⟨e'.observation.heap, console, result⟩ := by rw [console_eq, result_eq]

end Shows

def Environment.start (env : Environment) (console : Console) (log : Log) : State :=
  .start env.config console log

def Environment.withHeap (env : Environment) (maxHeapBytes : Nat) (gcEnabled : Bool) :
    Environment :=
  { env with config := { env.config with maxHeapBytes := maxHeapBytes, gcEnabled := gcEnabled } }

/-- Before anything is allocated the heaps match, whatever their limits. -/
theorem alike_start (env env' : Environment) (console : Console) (log log' : Log)
    (entry : LinkedFunction) :
    ((env.start console log).entering entry).Alike (fun _ _ => False)
      ((env'.start console log').entering entry) where
  heaps := .nothing _ _
  sound := .empty _ _
  sound' := .empty _ _
  frames := .cons (.enter entry .nil) .nil
  console := rfl

/-- One run that ends determines another, for environments with the same program and the same
greatest depth of calls. -/
theorem shows_of_shows (env env' : Environment) {entry : LinkedFunction}
    {console console' : Console} {log log' : Log} {result : Except RuntimeError Outcome}
    (program : env.program = env'.program)
    (depth : env.config.maxCallDepth = env'.config.maxCallDepth)
    (compiler : env.compiler = env'.compiler)
    (known : env.compiler = none ∨ env.compiler = some .bundled)
    (roomy : ¬ ((env.start console log).entering entry).Exhausts env)
    (roomy' : ¬ ((env'.start console log').entering entry).Exhausts env')
    (unnamed : ¬ ((env.start console log).entering entry).PrintsReference env)
    (shows : (env.start console log).Shows env entry console' result) :
    (env'.start console log').Shows env' entry console' result := by
  rcases known with none | bundled
  · rw [← Environment.interpreted_eq none] at roomy unnamed shows
    rw [compiler] at none
    rw [← Environment.interpreted_eq none] at roomy' ⊢
    have alike := alike_start env env' console log log' entry
    exact alike.shows env env' program depth roomy roomy' unnamed shows
  · have ready := ready_start bundled console log entry
    rw [compiler] at bundled
    have ready' := ready_start bundled console log' entry
    have alike := alike_start env env' console (.empty none) (.empty none) entry
    refine ready'.shows_iff.mpr (alike.shows env env' program depth ?_ ?_ ?_ ?_)
    · exact fun full => roomy (ready.exhausts full)
    · exact fun full => roomy' (ready'.exhausts full)
    · exact fun prints => unnamed (ready.printsReference prints)
    · exact ready.shows_iff.mp shows

/-- Two runs from empty heaps, with and without collections or with different limits on memory,
neither of which runs out of memory or prints a reference other than null: if one of them ends,
so does the other, with the same text on the console and the same outcome, or the same fault with
the same frames. -/
theorem collections_do_not_show (env : Environment) (entry : LinkedFunction) (maxHeapBytes : Nat)
    (gcEnabled : Bool) (console : Console) (log log' : Log)
    (known : env.compiler = none ∨ env.compiler = some .bundled)
    (roomy : ¬ ((env.start console log).entering entry).Exhausts env)
    (roomy' : ¬ (((env.withHeap maxHeapBytes gcEnabled).start console log').entering
      entry).Exhausts (env.withHeap maxHeapBytes gcEnabled))
    (unnamed : ¬ ((env.start console log).entering entry).PrintsReference env)
    (unnamed' : ¬ (((env.withHeap maxHeapBytes gcEnabled).start console log').entering
      entry).PrintsReference (env.withHeap maxHeapBytes gcEnabled))
    (console' : Console) (result : Except RuntimeError Outcome) :
    (env.start console log).Shows env entry console' result
      ↔ ((env.withHeap maxHeapBytes gcEnabled).start console log').Shows
          (env.withHeap maxHeapBytes gcEnabled) entry console' result := by
  constructor
  · exact shows_of_shows _ _ rfl rfl rfl known roomy roomy' unnamed
  · exact shows_of_shows _ _ rfl rfl rfl known roomy' roomy unnamed'

/-! Three arrays are made and the second is dropped, so that the third gets its id if there is a
collection. -/

namespace Recycling

def main : LinkedFunction :=
  ⟨"Main", ⟨0, 0, 0, 0, 2,
    #[⟨.ldc, some 0⟩, ⟨.newarr, some 1⟩, ⟨.store, some 0⟩,
      ⟨.ldc, some 0⟩, ⟨.newarr, some 1⟩, ⟨.store, some 1⟩,
      ⟨.ldc, some 0⟩, ⟨.store, some 1⟩,
      ⟨.ldc, some 0⟩, ⟨.newarr, some 1⟩, ⟨.store, some 1⟩,
      ⟨.ldv, some 1⟩, ⟨.ldc, some 2⟩, ⟨.ldelem, none⟩, ⟨.print, none⟩, ⟨.ret, none⟩]⟩, [], .void⟩

def program : Program :=
  ⟨#[⟨.int .i32, [0, 0, 0, 1]⟩, ⟨.string, [73, 51, 50, 59]⟩, ⟨.int .i32, [0, 0, 0, 0]⟩],
    #[main], #[], ⟨[("Main", 0)]⟩, .empty⟩

def environment : Environment := ⟨{ maxHeapBytes := 300 }, none, program⟩

theorem does_not_show :
    ((environment.start .working (.empty none)).entering main).endsWell environment.interpreted 17
        = true
      ∧ (((environment.withHeap 1000 false).start .working (.empty none)).entering main).endsWell
          (environment.withHeap 1000 false).interpreted 17 = true
      ∧ ((environment.start .working (.empty none)).Shows environment main ⟨"0", none, none⟩
            (.ok .returned)
          ↔ ((environment.withHeap 1000 false).start .working (.empty none)).Shows
              (environment.withHeap 1000 false) main ⟨"0", none, none⟩ (.ok .returned)) := by
  have ends : ((environment.start .working (.empty none)).entering main).endsWell
      environment.interpreted 17 = true := by cbv
  have ends' : (((environment.withHeap 1000 false).start .working (.empty none)).entering
      main).endsWell (environment.withHeap 1000 false).interpreted 17 = true := by cbv
  refine ⟨ends, ends', ?_⟩
  exact collections_do_not_show environment main 1000 false .working (.empty none) (.empty none)
    (.inl rfl) (State.not_exhausts_of_endsWell ends) (State.not_exhausts_of_endsWell ends')
    (State.not_printsReference_of_endsWell ends) (State.not_printsReference_of_endsWell ends') _ _

end Recycling

end StackMachine
