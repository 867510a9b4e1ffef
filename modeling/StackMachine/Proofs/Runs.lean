import StackMachine.Machine.Run

/-! # Runs, step by step

A run is looked at as a chain of steps, each of which may be given fuel of its own. What native
code is installed and what was logged never shows in the heap, the call stack, the console or
the result: `State.bare` erases both, and without a compiler a step commutes with the erasure.
-/

namespace StackMachine

def Environment.interpreted (env : Environment) : Environment := { env with compiler := none }

@[simp] theorem Environment.interpreted_program (env : Environment) :
    env.interpreted.program = env.program := rfl

@[simp] theorem Environment.interpreted_config (env : Environment) :
    env.interpreted.config = env.config := rfl

theorem Environment.interpreted_eq {env : Environment} (none : env.compiler = none) :
    env.interpreted = env := by
  rw [Environment.interpreted, ← none]

/-! ## Erasing native code and log -/

namespace State

/-- The state without what is known of native code, and with a log that keeps nothing. -/
def bare (s : State) : State := { s with natives := #[], log := .empty none }

@[simp] theorem bare_heap (s : State) : s.bare.heap = s.heap := rfl

@[simp] theorem bare_frames (s : State) : s.bare.frames = s.frames := rfl

@[simp] theorem bare_console (s : State) : s.bare.console = s.console := rfl

@[simp] theorem bare_note (s : State) (level : Level) (message : Unit → String) :
    (s.note level message).bare = s.bare := rfl

@[simp] theorem bare_disableNative (s : State) (index : Nat) :
    (s.disableNative index).bare = s.bare := rfl

@[simp] theorem note_bare (s : State) (level : Level) (message : Unit → String) :
    s.bare.note level message = s.bare := rfl

theorem bare_eq_iff {s t : State} :
    s.bare = t.bare ↔ s.heap = t.heap ∧ s.frames = t.frames ∧ s.console = t.console := by
  constructor
  · intro same
    rw [← bare_heap s, ← bare_frames s, ← bare_console s, same]
    exact ⟨rfl, rfl, rfl⟩
  · rintro ⟨heap, frames, console⟩
    simp only [bare, heap, frames, console]

end State

theorem Log.noteAll_empty (entries : List LogEntry) :
    (Log.empty none).noteAll entries = Log.empty none := by
  induction entries with
  | nil => rfl
  | cons entry rest ih => exact ih

namespace StepResult

def bare : StepResult → StepResult
  | .next s => .next s.bare
  | .halted code s => .halted code s.bare
  | .failed fault s => .failed fault s.bare
  | .outOfFuel => .outOfFuel

end StepResult

namespace State

theorem bare_continueWith (s : State) (frame : Frame) (callers : CallStack)
    (result : Except Fault Frame) :
    (s.continueWith frame callers result).bare = s.bare.continueWith frame callers result := by
  cases result <;> rfl

theorem bare_newArray (p : Program) (s : State) (frame : Frame) (callers : CallStack)
    (index : Nat) :
    (s.newArray p frame callers index).bare = s.bare.newArray p frame callers index := by
  unfold newArray
  cases arrayRequest p frame index with
  | error fault => rfl
  | ok request =>
      obtain ⟨element, length, popped⟩ := request
      simp only [allocate, bare, Log.noteAll_empty]
      cases (s.heap.allocateArray (popped :: callers) element length).result <;> rfl

theorem bare_storeElement (s : State) (frame : Frame) (callers : CallStack) :
    (s.storeElement frame callers).bare = s.bare.storeElement frame callers := by
  unfold storeElement
  simp only [bare_heap]
  cases storeRequest s.heap frame <;> rfl

theorem bare_ret (s : State) (frame : Frame) (callers : CallStack) :
    (s.ret frame callers).bare = s.bare.ret frame callers := by
  unfold ret
  cases frame.returnValue <;> rfl

theorem bare_print (s : State) (frame : Frame) (callers : CallStack) :
    (s.print frame callers).bare = s.bare.print frame callers := by
  unfold print
  cases frame.pop "PRINT" with
  | error fault => rfl
  | ok popped =>
      obtain ⟨v, after⟩ := popped
      simp only [bare_console]
      cases s.console.writeFault? v.text <;> rfl

theorem bare_halt (p : Program) (s : State) (frame : Frame) (callers : CallStack)
    (index : Nat) : (s.halt p frame callers index).bare = s.bare.halt p frame callers index := by
  unfold halt
  cases exitCode p index <;> rfl

/-- Without a compiler every call gets a frame of its own. -/
theorem tryNative_interpreted (env : Environment) (fuel : Nat) (s : State) (index : Nat)
    (f : LinkedFunction) (args : List Value) :
    s.tryNative env.interpreted fuel index f args = .unavailable s := rfl

theorem bare_call_interpreted (env : Environment) (fuel fuel' : Nat) (s : State) (frame : Frame)
    (callers : CallStack) (index : Nat) :
    (s.call env.interpreted fuel frame callers index).bare
      = s.bare.call env.interpreted fuel' frame callers index := by
  unfold call
  cases env.interpreted.program.function index with
  | error fault => rfl
  | ok f =>
      dsimp only
      cases frame.require "CALL" f.arity with
      | error fault => rfl
      | ok _ =>
          dsimp only
          split <;> rfl

/-- An instruction other than a call does not look at the compiler, at native code or at the
log. -/
theorem bare_execute (env : Environment) (fuel fuel' : Nat) (s : State) (frame : Frame)
    (callers : CallStack) (i : Instruction) (other : i.opcode ≠ .call) :
    (s.execute env fuel frame callers i).bare
      = s.bare.execute env.interpreted fuel' frame callers i := by
  unfold execute
  cases opcode : i.opcode with
  | newarr => exact bare_newArray _ _ _ _ _
  | stelem => exact bare_storeElement _ _ _
  | ldelem => exact bare_continueWith _ _ _ _
  | call => exact absurd opcode other
  | ret => exact bare_ret _ _ _
  | print => exact bare_print _ _ _
  | halt => exact bare_halt _ _ _ _ _
  | _ => exact bare_continueWith _ _ _ _

theorem bare_execute_interpreted (env : Environment) (fuel fuel' : Nat) (s : State)
    (frame : Frame) (callers : CallStack) (i : Instruction) :
    (s.execute env.interpreted fuel frame callers i).bare
      = s.bare.execute env.interpreted fuel' frame callers i := by
  by_cases call : i.opcode = .call
  · unfold execute
    rw [call]
    exact bare_call_interpreted _ _ _ _ _ _ _
  · exact bare_execute _ _ _ _ _ _ _ call

/-- Without a compiler a step is the same whatever its fuel, native code and log. -/
theorem bare_step_interpreted (env : Environment) (fuel fuel' : Nat) (s : State) :
    (s.step env.interpreted fuel).bare = s.bare.step env.interpreted fuel' := by
  unfold step
  rw [bare_frames]
  cases s.frames with
  | nil => rfl
  | cons frame callers =>
      dsimp only
      cases frame.fetch? with
      | none => rfl
      | some i => exact bare_execute_interpreted _ _ _ _ _ _ _

theorem step_interpreted_fuel (env : Environment) (fuel fuel' : Nat) (s : State) :
    s.step env.interpreted fuel = s.step env.interpreted fuel' := by
  unfold step
  split
  · rfl
  · split
    · rfl
    · dsimp only
      unfold execute
      split <;> rfl

end State

def Opcode.isLocal : Opcode → Bool
  | .ldc | .store | .ldv | .dup | .swap | .binary _ | .unary _ | .jmp | .jz | .jnz => true
  | _ => false

theorem State.execute_of_isLocal {env : Environment} {fuel : Nat} {s : State} {frame : Frame}
    {callers : CallStack} {i : Instruction} (isLocal : i.opcode.isLocal = true) :
    s.execute env fuel frame callers i
      = s.continueWith frame callers (frame.execute env.program i) := by
  unfold State.execute
  split <;> simp_all [Opcode.isLocal]

theorem State.step_of_fetch {env : Environment} {fuel : Nat} {s : State} {frame : Frame}
    {callers : CallStack} {i : Instruction} (frames : s.frames = frame :: callers)
    (fetched : frame.fetch? = some i) :
    s.step env fuel
      = (s.note .trace fun _ => s!"{frame.context}: {i.text}").execute env fuel
          { frame with pc := frame.pc + 1 } callers i := by
  simp only [State.step, frames, fetched]

/-! ## Chains of steps -/

/-- The run goes from the first state to the second in `n` steps, none of which ends it. -/
inductive Steps (env : Environment) : Nat → State → State → Prop where
  | refl (s : State) : Steps env 0 s s
  | head {n fuel : Nat} {s u t : State} (first : s.step env fuel = .next u)
      (rest : Steps env n u t) : Steps env (n + 1) s t

namespace Steps

variable {env : Environment}

/-- What one step keeps, a chain of steps keeps. -/
theorem invariant {holds : State → Prop}
    (kept : ∀ s t fuel, holds s → s.step env fuel = .next t → holds t) {n : Nat} {s t : State}
    (chain : Steps env n s t) (initially : holds s) : holds t := by
  induction chain with
  | refl s => exact initially
  | head step _ ih => exact ih (kept _ _ _ initially step)

end Steps

/-- A chain of steps in which every state that is left behind satisfies `inside`. -/
inductive StepsIn (env : Environment) (inside : State → Prop) : Nat → State → State → Prop where
  | refl (s : State) : StepsIn env inside 0 s s
  | head {n fuel : Nat} {s u t : State} (within : inside s) (first : s.step env fuel = .next u)
      (rest : StepsIn env inside n u t) : StepsIn env inside (n + 1) s t

theorem StepsIn.steps {env : Environment} {inside : State → Prop} {n : Nat} {s t : State}
    (chain : StepsIn env inside n s t) : Steps env n s t := by
  induction chain with
  | refl s => exact .refl s
  | head _ first _ ih => exact .head first ih

def State.Fetches (s : State) (o : Opcode) : Prop :=
  ∃ frame callers i, s.frames = frame :: callers ∧ frame.fetch? = some i ∧ i.opcode = o

theorem State.frames_ne_nil_of_step {env : Environment} {fuel : Nat} {s t : State}
    (step : s.step env fuel = .next t) : s.frames ≠ [] := by
  intro none
  simp [State.step, none] at step

/-! ## Runs that end -/

theorem State.runSteps_of_empty {env : Environment} (fuel : Nat) {s : State}
    (none : s.frames = []) : s.runSteps env (fuel + 1) = some (.ended .returned s) := by
  simp [State.runSteps, none]

theorem State.runSteps_of_frames {env : Environment} (fuel : Nat) {s : State}
    (active : s.frames ≠ []) :
    s.runSteps env (fuel + 1) =
      match s.step env fuel with
      | .next t => t.runSteps env fuel
      | .halted code t => some (.ended (.halted code) t)
      | .failed fault t => some (.failed fault t)
      | .outOfFuel => none := by
  cases frames : s.frames with
  | nil => exact absurd frames active
  | cons frame callers =>
      cases step : s.step env fuel <;> simp only [State.runSteps, frames, step]

/-- Given the fuel, the run goes from the first state to the second, with the rest of the fuel
left. -/
inductive RunsTo (env : Environment) : Nat → State → Nat → State → Prop where
  | refl (fuel : Nat) (s : State) : RunsTo env fuel s fuel s
  | head {fuel left : Nat} {s u t : State} (first : s.step env fuel = .next u)
      (rest : RunsTo env fuel u left t) : RunsTo env (fuel + 1) s left t

namespace RunsTo

variable {env : Environment} {fuel left : Nat} {s t : State}

theorem steps (runs : RunsTo env fuel s left t) : ∃ n, Steps env n s t := by
  induction runs with
  | refl fuel s => exact ⟨0, .refl s⟩
  | head first _ ih =>
      obtain ⟨n, chain⟩ := ih
      exact ⟨n + 1, .head first chain⟩

theorem runSteps_eq (runs : RunsTo env fuel s left t) :
    s.runSteps env fuel = t.runSteps env left := by
  induction runs with
  | refl fuel s => rfl
  | head first _ ih =>
      rw [State.runSteps_of_frames _ (State.frames_ne_nil_of_step first), first]
      exact ih

end RunsTo

/-- Every run that ends does so in a state that it reaches. -/
theorem State.runsTo_of_runSteps {env : Environment} {fuel : Nat} {s : State} {e : Execution}
    (run : s.runSteps env fuel = some e) :
    ∃ left t, RunsTo env fuel s (left + 1) t ∧
      ((t.frames = [] ∧ e = .ended .returned t) ∨
        (t.frames ≠ [] ∧ ∃ u, (∃ code, t.step env left = .halted code u
            ∧ e = .ended (.halted code) u)
          ∨ (∃ fault, t.step env left = .failed fault u ∧ e = .failed fault u))) := by
  induction fuel generalizing s with
  | zero => simp [State.runSteps] at run
  | succ fuel ih =>
      by_cases active : s.frames = []
      · rw [runSteps_of_empty fuel active] at run
        cases run
        exact ⟨fuel, s, .refl _ s, .inl ⟨active, rfl⟩⟩
      · rw [runSteps_of_frames fuel active] at run
        cases step : s.step env fuel with
        | next u =>
            rw [step] at run
            obtain ⟨left, t, runs, ending⟩ := ih run
            exact ⟨left, t, .head step runs, ending⟩
        | halted code u =>
            rw [step] at run
            cases run
            exact ⟨fuel, s, .refl _ s, .inr ⟨active, u, .inl ⟨code, step, rfl⟩⟩⟩
        | failed fault u =>
            rw [step] at run
            cases run
            exact ⟨fuel, s, .refl _ s, .inr ⟨active, u, .inr ⟨fault, step, rfl⟩⟩⟩
        | outOfFuel => simp [step] at run

/-- Every run that ends does so after a chain of steps. -/
theorem State.steps_of_runSteps {env : Environment} {fuel : Nat} {s : State} {e : Execution}
    (run : s.runSteps env fuel = some e) :
    ∃ n t, Steps env n s t ∧
      ((t.frames = [] ∧ e = .ended .returned t) ∨
        (t.frames ≠ [] ∧ ∃ left u, (∃ code, t.step env left = .halted code u
            ∧ e = .ended (.halted code) u)
          ∨ (∃ fault, t.step env left = .failed fault u ∧ e = .failed fault u))) := by
  obtain ⟨left, t, runs, ending⟩ := State.runsTo_of_runSteps run
  obtain ⟨n, chain⟩ := runs.steps
  rcases ending with empty | ⟨active, u, ending⟩
  · exact ⟨n, t, chain, .inl empty⟩
  · exact ⟨n, t, chain, .inr ⟨active, left, u, ending⟩⟩

/-! ## Runs of the interpreter -/

section Interpreted

variable {env : Environment} {n : Nat} {s t : State}

/-- Without a compiler a chain of steps takes its steps from the fuel; too little fuel gives
nothing either way. -/
theorem Steps.runSteps_eq (chain : Steps env.interpreted n s t) (fuel : Nat) :
    s.runSteps env.interpreted fuel = t.runSteps env.interpreted (fuel - n) := by
  induction chain generalizing fuel with
  | refl s => rfl
  | @head n fuel' s u t first _ ih =>
      cases fuel with
      | zero => simp [State.runSteps]
      | succ fuel =>
          rw [State.runSteps_of_frames fuel (State.frames_ne_nil_of_step first),
            State.step_interpreted_fuel env fuel fuel' s, first]
          dsimp only
          rw [ih fuel]
          congr 1
          omega

end Interpreted

def Execution.bare : Execution → Execution
  | .ended outcome s => .ended outcome s.bare
  | .failed fault s => .failed fault s.bare

/-- Without a compiler, native code and log do not show in a run. -/
theorem State.runSteps_bare (env : Environment) (fuel : Nat) (s : State) :
    s.bare.runSteps env.interpreted fuel
      = (s.runSteps env.interpreted fuel).map Execution.bare := by
  induction fuel generalizing s with
  | zero => rfl
  | succ fuel ih =>
      by_cases active : s.frames = []
      · have active' : s.bare.frames = [] := active
        rw [State.runSteps_of_empty fuel active, State.runSteps_of_empty fuel active']
        rfl
      · have active' : s.bare.frames ≠ [] := active
        rw [State.runSteps_of_frames fuel active, State.runSteps_of_frames fuel active',
          ← State.bare_step_interpreted env fuel fuel s]
        cases s.step env.interpreted fuel with
        | next t => exact ih t
        | halted code t => rfl
        | failed fault t => rfl
        | outOfFuel => rfl

/-- Of the configuration, the interpreter reads the greatest depth of calls only. -/
theorem State.step_interpreted_congr {env env' : Environment} (program : env.program = env'.program)
    (depth : env.config.maxCallDepth = env'.config.maxCallDepth) (fuel : Nat) (s : State) :
    s.step env.interpreted fuel = s.step env'.interpreted fuel := by
  obtain ⟨config, _, _⟩ := env
  obtain ⟨config', _, _⟩ := env'
  obtain ⟨_, _, _, _, _⟩ := config
  obtain ⟨_, _, _, _, _⟩ := config'
  cases program
  cases depth
  unfold step
  split
  · rfl
  · split
    · rfl
    · dsimp only
      unfold execute
      split <;> rfl

theorem State.runSteps_interpreted_congr {env env' : Environment}
    (program : env.program = env'.program)
    (depth : env.config.maxCallDepth = env'.config.maxCallDepth) (fuel : Nat) (s : State) :
    s.runSteps env.interpreted fuel = s.runSteps env'.interpreted fuel := by
  induction fuel generalizing s with
  | zero => rfl
  | succ fuel ih =>
      simp only [State.runSteps, State.step_interpreted_congr program depth fuel s, ih]

/-! ## What is seen of a run -/

/-- The heap and the console that a run leaves, and its result. -/
structure Observation where
  heap : Heap
  console : Console
  result : Except RuntimeError Outcome

def Execution.observation (e : Execution) : Observation :=
  ⟨e.conclude.1.heap, e.conclude.1.console, e.conclude.1.flush e.conclude.2⟩

theorem Execution.observation_bare (e : Execution) : e.bare.observation = e.observation := by
  cases e <;> rfl

def State.Yields (env : Environment) (s : State) (entry : LinkedFunction) (o : Observation) :
    Prop :=
  ∃ fuel t result, s.run env fuel entry = some (t, result) ∧ o = ⟨t.heap, t.console, result⟩

def State.entering (s : State) (entry : LinkedFunction) : State :=
  { s with frames := [Frame.enter entry []] }

section Run

variable {env : Environment} {fuel : Nat} {s : State} {entry : LinkedFunction}

theorem State.run_of_unfinished (unfinished : (s.entering entry).runSteps env fuel = none) :
    s.run env fuel entry = none := by
  unfold State.entering at unfinished
  simp only [State.run, unfinished]

theorem State.run_of_execution {e : Execution}
    (ends : (s.entering entry).runSteps env fuel = some e) :
    ∃ t, s.run env fuel entry = some (t, e.observation.result)
      ∧ t.heap = e.observation.heap ∧ t.console = e.observation.console := by
  unfold State.entering at ends
  simp only [State.run, ends, Execution.observation]
  cases e.conclude.1.flush e.conclude.2 with
  | error e => exact ⟨_, rfl, rfl, rfl⟩
  | ok outcome => exact ⟨_, rfl, rfl, rfl⟩

/-- A run that reaches a failing step ends there, if the console can be flushed. -/
theorem RunsTo.run_of_failed {left : Nat} {t u : State} {fault : Fault}
    (runs : RunsTo env fuel (s.entering entry) (left + 1) t)
    (active : t.frames ≠ []) (failed : t.step env left = .failed fault u)
    (flushes : u.console.flushError = none) :
    s.run env fuel entry
      = some ({ u with frames := [] }, .error ⟨fault, CallStack.backtrace u.frames⟩) := by
  have ended : (s.entering entry).runSteps env fuel = some (.failed fault u) := by
    rw [runs.runSteps_eq, State.runSteps_of_frames left active, failed]
  unfold State.entering at ended
  simp only [State.run, ended, Execution.conclude, State.flush, flushes]

/-- A run that fails has come to a failing step, or the console could not be flushed. -/
theorem State.runsTo_of_run {t : State} {e : RuntimeError}
    (run : s.run env fuel entry = some (t, .error e)) :
    (∃ reason, t.console.flushError = some reason ∧ e = ⟨.io reason, []⟩) ∨
      ∃ left v u, RunsTo env fuel (s.entering entry) (left + 1) v ∧ v.frames ≠ [] ∧
        v.step env left = .failed e.fault u ∧ u.console.flushError = none
          ∧ e.callStack = CallStack.backtrace u.frames := by
  cases ended : (s.entering entry).runSteps env fuel with
  | none =>
      rw [State.run_of_unfinished ended] at run
      cases run
  | some execution =>
      obtain ⟨t', run', _, console⟩ := State.run_of_execution ended
      rw [run] at run'
      obtain ⟨rfl, observed⟩ := Prod.mk.inj (Option.some.inj run')
      have flushed : execution.conclude.1.flush execution.conclude.2 = .error e := observed.symm
      have console : t.console = execution.conclude.1.console := console
      unfold State.flush at flushed
      split at flushed
      · rename_i reason broken
        cases flushed
        exact .inl ⟨reason, by rw [console, broken], rfl⟩
      · rename_i flushes
        right
        obtain ⟨left, v, runs, ending⟩ := State.runsTo_of_runSteps ended
        rcases ending with ⟨_, rfl⟩ | ⟨active, u, ⟨code, _, rfl⟩ | ⟨fault, step, rfl⟩⟩
        · cases flushed
        · cases flushed
        · cases flushed
          exact ⟨left, v, u, runs, active, step, flushes, rfl⟩

theorem State.yields_iff {o : Observation} :
    s.Yields env entry o
      ↔ ∃ fuel e, (s.entering entry).runSteps env fuel = some e ∧ e.observation = o := by
  constructor
  · rintro ⟨fuel, t, result, run, rfl⟩
    cases steps : (s.entering entry).runSteps env fuel with
    | none =>
        rw [State.run_of_unfinished steps] at run
        cases run
    | some e =>
        obtain ⟨t', run', heap, console⟩ := State.run_of_execution steps
        rw [run] at run'
        cases run'
        exact ⟨fuel, e, steps, by rw [heap, console]⟩
  · rintro ⟨fuel, e, steps, rfl⟩
    obtain ⟨t, run, heap, console⟩ := State.run_of_execution steps
    exact ⟨fuel, t, _, run, by rw [heap, console]⟩

/-- Without a compiler a run is seen as the same whatever native code is known, whatever was
logged, and whatever the configuration says beyond the greatest depth of calls. -/
theorem State.yields_interpreted_congr (env env' : Environment) {s' : State} {o : Observation}
    (program : env.program = env'.program)
    (depth : env.config.maxCallDepth = env'.config.maxCallDepth) (bare : s.bare = s'.bare) :
    s.Yields env.interpreted entry o ↔ s'.Yields env'.interpreted entry o := by
  obtain ⟨heap, _, console⟩ := State.bare_eq_iff.mp bare
  have entered : (s.entering entry).bare = (s'.entering entry).bare :=
    State.bare_eq_iff.mpr ⟨heap, rfl, console⟩
  have seen : ∀ (env : Environment) (s : State), s.Yields env.interpreted entry o ↔
      ∃ fuel e, (s.entering entry).bare.runSteps env.interpreted fuel = some e
        ∧ e.observation = o := by
    intro env s
    rw [State.yields_iff]
    simp only [State.runSteps_bare, Option.map_eq_some_iff]
    constructor
    · rintro ⟨fuel, e, run, rfl⟩
      exact ⟨fuel, e.bare, ⟨e, run, rfl⟩, e.observation_bare⟩
    · rintro ⟨fuel, _, ⟨e, run, rfl⟩, rfl⟩
      exact ⟨fuel, e, run, e.observation_bare.symm⟩
  rw [seen, seen, entered]
  simp only [State.runSteps_interpreted_congr program depth]

end Run

end StackMachine
