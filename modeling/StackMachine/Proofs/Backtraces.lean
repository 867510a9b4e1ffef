import Mathlib
import StackMachine.Proofs.CallStacks

/-! # Backtraces

The frames of a run are those of the calls that are under way: at the bottom that of the entry,
and above each frame that of the function which it has just called. There are never more of them
than the configuration admits. A failure is reported with these frames.
-/

namespace StackMachine

/-! ## Frames that follow from each other -/

/-- The instruction just before the frame's program counter calls the function. -/
def Frame.Awaits (p : Program) (caller : Frame) (f : LinkedFunction) : Prop :=
  ∃ pc i, caller.pc = pc + 1 ∧ caller.function.code[pc]? = some i ∧ i.opcode = .call
    ∧ p.function i.arg = .ok f

/-- The frames are those of nested calls that the entry has led to. -/
structure CallStack.Traced (env : Environment) (entry : LinkedFunction) (stack : CallStack) :
    Prop where
  awaited : stack.IsChain fun callee caller => caller.Awaits env.program callee.function
  bottom : ∀ frame, stack.getLast? = some frame → frame.function = entry
  depth : stack.length ≤ max 1 env.config.maxCallDepth

namespace CallStack.Traced

variable {env : Environment} {entry : LinkedFunction} {frame : Frame} {callers stack : CallStack}

theorem single (env : Environment) (entry : LinkedFunction) (operands : List Value) :
    Traced env entry [Frame.enter entry operands] where
  awaited := .singleton _
  bottom := by
    intro frame last
    cases last
    rfl
  depth := Nat.le_max_left _ _

/-- Of the innermost frame only the function matters. -/
theorem replace (traced : Traced env entry (frame :: callers)) {after : Frame}
    (same : after.function = frame.function) : Traced env entry (after :: callers) := by
  obtain ⟨awaited, bottom, depth⟩ := traced
  refine ⟨?_, ?_, depth⟩
  · rw [List.isChain_cons] at awaited ⊢
    rw [same]
    exact awaited
  · cases callers with
    | nil =>
        intro last found
        cases found
        exact same.trans (bottom frame rfl)
    | cons caller rest =>
        rw [List.getLast?_cons_cons] at bottom ⊢
        exact bottom

theorem tail (traced : Traced env entry (frame :: callers)) : Traced env entry callers := by
  obtain ⟨awaited, bottom, depth⟩ := traced
  refine ⟨(List.isChain_cons.mp awaited).2, ?_, ?_⟩
  · cases callers with
    | nil => exact nofun
    | cons caller rest =>
        rw [List.getLast?_cons_cons] at bottom
        exact bottom
  · rw [List.length_cons] at depth
    omega

theorem receive (traced : Traced env entry stack) (value : Option Value) :
    Traced env entry (CallStack.receive stack value) := by
  cases value with
  | none => rwa [CallStack.receive_none]
  | some v =>
      cases stack with
      | nil => exact traced
      | cons caller rest => exact traced.replace rfl

theorem enter {caller : Frame} {f : LinkedFunction} (traced : Traced env entry (caller :: callers))
    (awaits : caller.Awaits env.program f)
    (shallow : callers.length + 1 < env.config.maxCallDepth) (args : List Value) :
    Traced env entry (Frame.enter f args :: caller :: callers) := by
  obtain ⟨awaited, bottom, depth⟩ := traced
  refine ⟨List.isChain_cons_cons.mpr ⟨awaits, awaited⟩, ?_, ?_⟩
  · rw [List.getLast?_cons_cons]
    exact bottom
  · rw [List.length_cons, List.length_cons]
    omega

theorem moves {after : CallStack} (traced : Traced env entry stack)
    (moves : Moves env stack after) : Traced env entry after := by
  cases moves with
  | works _ _ same => exact traced.replace same
  | answers => exact traced.replace rfl
  | leaves => exact traced.tail.receive _
  | @enters frame callers i f fetched call found _ shallow =>
      have suspended : Traced env entry (frame.resume f.arity none :: callers) :=
        traced.replace rfl
      exact suspended.enter ⟨frame.pc, i, rfl, fetched, call, found⟩ shallow _

end CallStack.Traced

theorem Steps.traced {env : Environment} {n : Nat} {s t : State} (entry : LinkedFunction)
    (chain : Steps env n (s.entering entry) t) : CallStack.Traced env entry t.frames := by
  have kept : ∀ (s t : State) (fuel : Nat), CallStack.Traced env entry s.frames →
      s.step env fuel = .next t → CallStack.Traced env entry t.frames := by
    intro s t fuel traced next
    exact traced.moves (State.moves_of_step next)
  exact chain.invariant kept (.single env entry [])

/-! ## Failures -/

/-- A step that fails leaves the frames as they are, past the instruction that failed. -/
theorem State.frames_of_failed {env : Environment} {fuel : Nat} {t u : State} {fault : Fault}
    (active : t.frames ≠ []) (failed : t.step env fuel = .failed fault u) :
    ∃ (frame after : Frame) (callers : CallStack), t.frames = frame :: callers
      ∧ u.frames = after :: callers ∧ after.function = frame.function
      ∧ after.pc = if frame.fetch?.isSome then frame.pc + 1 else frame.pc := by
  cases frames : t.frames with
  | nil => exact absurd frames active
  | cons frame callers =>
      have tracks : (t.step env fuel).Tracks env frame callers := State.tracks_step frames fuel
      rw [failed] at tracks
      obtain ⟨after, frames', function, pc⟩ := tracks
      exact ⟨frame, after, callers, rfl, frames', function, pc⟩

/-- In every state that a run comes to, whatever the compiler, the bottom frame is the entry's,
the depth is within the configured one, and each frame waits for the one above it at a call of
its function. A step that fails keeps this, and gives the run its error: the fault, and the names
and program counters of the frames, the outermost first, the innermost one past the instruction.
Every other error is of the console. After a run no frame is left. -/
theorem backtraces_follow_the_calls (env : Environment) (s : State) (entry : LinkedFunction) :
    (∀ n t, Steps env n (s.entering entry) t → CallStack.Traced env entry t.frames) ∧
    (∀ fuel left t fault u, RunsTo env fuel (s.entering entry) (left + 1) t → t.frames ≠ [] →
      t.step env left = .failed fault u →
        CallStack.Traced env entry u.frames ∧
        (∃ (frame after : Frame) (callers : CallStack), t.frames = frame :: callers
          ∧ u.frames = after :: callers ∧ after.function = frame.function
          ∧ after.pc = if frame.fetch?.isSome then frame.pc + 1 else frame.pc) ∧
        (u.console.flushError = none → ∃ v, s.run env fuel entry = some (v, .error ⟨fault,
          u.frames.reverse.map fun frame => s!"{frame.function.name}@{frame.pc}"⟩))) ∧
    ∀ fuel t result, s.run env fuel entry = some (t, result) →
      t.frames = [] ∧ ∀ e, result = .error e →
        (∃ reason, t.console.flushError = some reason ∧ e = ⟨.io reason, []⟩) ∨
          ∃ left v u, RunsTo env fuel (s.entering entry) (left + 1) v ∧ v.frames ≠ [] ∧
            v.step env left = .failed e.fault u ∧ u.console.flushError = none := by
  refine ⟨fun n t chain => chain.traced entry, ?_, ?_⟩
  · intro fuel left t fault u runs active failed
    obtain ⟨n, chain⟩ := runs.steps
    have failing := State.frames_of_failed active failed
    refine ⟨?_, failing, fun flushes => ⟨_, runs.run_of_failed active failed flushes⟩⟩
    obtain ⟨frame, after, callers, before, frames, function, _⟩ := failing
    have traced := chain.traced entry
    rw [before] at traced
    rw [frames]
    exact traced.replace function
  · intro fuel t result run
    refine ⟨State.frames_of_run run, ?_⟩
    rintro e rfl
    rcases State.runsTo_of_run run with io | ⟨left, v, u, runs, active, failed, flushes, _⟩
    · exact .inl io
    · exact .inr ⟨left, v, u, runs, active, failed, flushes⟩

namespace Endless

def main : LinkedFunction :=
  ⟨"Main", ⟨0, 0, 0, 0, 0, #[⟨.call, some 0⟩, ⟨.ret, none⟩]⟩, [], .void⟩

def environment : Environment := ⟨{ maxCallDepth := 2 }, none,
  ⟨#[], #[main], #[], ⟨[("Main", 0)]⟩, .empty⟩⟩

def start : State := State.start environment.config .working (.empty none)

def nested : State :=
  { start with frames := [Frame.enter main [], (Frame.enter main []).resume 0 none] }

def stopped : State :=
  { start with
    frames := [(Frame.enter main []).resume 0 none, (Frame.enter main []).resume 0 none] }

theorem is_stopped_at_the_second_call :
    RunsTo environment 3 (start.entering main) 2 nested
      ∧ nested.step environment 1 = .failed (.callDepthExceeded 2) stopped
      ∧ CallStack.Traced environment main stopped.frames
      ∧ ∃ t, start.run environment 3 main
          = some (t, .error ⟨.callDepthExceeded 2, ["Main@1", "Main@1"]⟩) := by
  have call : (start.entering main).step environment 2 = .next nested := rfl
  have runs : RunsTo environment 3 (start.entering main) 2 nested := .head call (.refl 2 nested)
  have failed : nested.step environment 1 = .failed (.callDepthExceeded 2) stopped := rfl
  obtain ⟨traced, _, fails⟩ := (backtraces_follow_the_calls environment start main).2.1
    3 1 nested _ stopped runs (by decide) failed
  exact ⟨runs, failed, traced, fails rfl⟩

end Endless

end StackMachine
