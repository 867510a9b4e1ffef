import StackMachine.Machine.Loading
import StackMachine.Proofs.Native.Invocation

/-! # Native code does not show

A run with the bundled compiler and a run without a compiler agree in everything but what is
known of native code and what is logged: whether they end, how, what they print, and the heap
that they leave. Every step with native code is a chain of steps without it, and native code that
does not end is a chain of steps that does not end.
-/

namespace StackMachine

/-! ## Installed code -/

namespace NativeTable

theorem get_put (t : NativeTable) (i j : Nat) (status : NativeStatus) :
    (t.put i status).get j = if j = i then status else t.get j := by
  simp only [put, get, Array.getD_eq_getD_getElem?]
  split
  · rename_i inside
    rw [Array.getElem?_setIfInBounds]
    by_cases same : i = j
    · simp [same, same ▸ inside]
    · simp [same, Ne.symm same]
  · rename_i outside
    have size : t.size + (i - t.size) = i := by omega
    rw [Array.getElem?_push]
    by_cases same : j = i
    · simp [same, size]
    · simp only [Array.size_append, Array.size_replicate, size, same, if_false]
      by_cases known : j < t.size
      · rw [Array.getElem?_append_left known]
      · rw [Array.getElem?_append_right (by omega), Array.getElem?_replicate,
          Array.getElem?_eq_none (by omega)]
        split <;> rfl

end NativeTable

/-- Native code is installed only for functions that it was compiled from. -/
def NativesFit (p : Program) (t : NativeTable) : Prop :=
  ∀ (index : Nat) (code : NativeCode), (t.get index).code = some code →
    ∃ f native, p.function index = .ok f ∧ compileFunction p f = .ok native
      ∧ code = native.toCode

namespace NativesFit

variable {p : Program} {t : NativeTable}

theorem empty (p : Program) : NativesFit p #[] := by
  intro index code installed
  simp [NativeTable.get, NativeStatus.fresh] at installed

theorem put (fits : NativesFit p t) (index : Nat) {status : NativeStatus}
    (fit : ∀ code, status.code = some code → ∃ f native, p.function index = .ok f
      ∧ compileFunction p f = .ok native ∧ code = native.toCode) :
    NativesFit p (t.put index status) := by
  intro j code installed
  rw [NativeTable.get_put] at installed
  split at installed
  · rename_i same
    subst same
    exact fit code installed
  · exact fits j code installed

theorem disable (fits : NativesFit p t) (index : Nat) :
    NativesFit p (t.put index (t.get index).disable) :=
  fits.put index fun _ installed => by cases installed

end NativesFit

/-! ## Trying native code -/

section Try

variable {env : Environment} {s : State} {index : Nat} {f : LinkedFunction}

/-- What is known of native code after a call is counted: nothing else has changed, and the code
that is found is that of the function. -/
structure FindsNative (p : Program) (f : LinkedFunction) (s : State)
    (found : State × Option NativeCode) : Prop where
  bare : found.1.bare = s.bare
  fits : NativesFit p found.1.natives
  code : ∀ code, found.2 = some code →
    ∃ native, compileFunction p f = .ok native ∧ code = native.toCode

theorem State.findsNative_compile (fits : NativesFit env.program s.natives)
    (function : env.program.function index = .ok f) :
    FindsNative env.program f s (s.compileNative env .bundled index f) := by
  unfold State.compileNative
  dsimp only
  split
  · cases compiles : compileFunction env.program f with
    | ok native =>
        have compiled : (Compiler.bundled.compile env.program f).1 = .ok native.toCode := by
          simp [Compiler.bundled, compiles]
        simp only [compiled]
        refine ⟨rfl, ?_, ?_⟩
        · refine fits.put index ?_
          intro code installed
          cases installed
          exact ⟨f, native, function, compiles, rfl⟩
        · intro code found
          cases found
          exact ⟨native, compiles, rfl⟩
    | error e =>
        have failed : (Compiler.bundled.compile env.program f).1 = .error e := by
          simp [Compiler.bundled, compiles]
        simp only [failed]
        exact ⟨rfl, fits.disable index, fun _ found => by cases found⟩
  · exact ⟨rfl, fits.disable index, fun _ found => by cases found⟩

theorem State.findsNative (bundled : env.compiler = some .bundled)
    (fits : NativesFit env.program s.natives) (function : env.program.function index = .ok f) :
    FindsNative env.program f s (s.nativeCode env index f) := by
  unfold State.nativeCode
  simp only [bundled]
  split
  · exact ⟨rfl, fits, fun _ found => by cases found⟩
  · have counted : NativesFit env.program
        (s.setNative index (s.natives.get index).recordCall).natives :=
      fits.put index fun code installed => fits index code installed
    split
    · exact ⟨rfl, counted, fun _ found => by cases found⟩
    · split
      · rename_i code installed
        refine ⟨rfl, counted, ?_⟩
        intro code' found
        cases found
        obtain ⟨f', native, function', compiles, rfl⟩ := fits index code installed
        rw [function] at function'
        cases function'
        exact ⟨native, compiles, rfl⟩
      · have compiled := State.findsNative_compile counted function
        exact ⟨compiled.bare, compiled.fits, compiled.code⟩

inductive Attempts (env : Environment) (s : State) (frame : Frame) (fuel : Nat) :
    NativeCall → Prop where
  | outOfFuel {h' : Heap} {frame' : Frame}
      (goesOn : ∀ callers : CallStack, StepsIn env.interpreted (¬ ·.Fetches .print) fuel
        (s.inCall s.heap frame callers) (s.inCall h' frame' callers)) :
      Attempts env s frame fuel .outOfFuel
  | unavailable {t : State} (bare : t.bare = s.bare) (fits : NativesFit env.program t.natives) :
      Attempts env s frame fuel (.unavailable t)
  | returned {value : Option Value} {t : State} {n : Nat}
      (fits : NativesFit env.program t.natives)
      (chain : ∀ callers : CallStack, StepsIn env.interpreted (¬ ·.Fetches .print) n
        (s.inCall s.heap frame callers) (t.backFrom t.heap callers value)) :
      Attempts env s frame fuel (.returned value t)

theorem State.attempts_invoke {native : NativeFunction} {args : List Value} {fuel : Nat}
    {t : State} (compiles : compileFunction env.program f = .ok native) (typed : s.heap.Typed)
    (arity : args.length = f.arity) (bare : t.bare = s.bare)
    (fits : NativesFit env.program t.natives) :
    Attempts env s (Frame.enter f args) fuel
      (t.invokeNative fuel index f native.toCode args.reverse) := by
  obtain ⟨heap, frames, console⟩ := State.bare_eq_iff.mp bare
  unfold State.invokeNative
  rw [heap]
  split
  · exact .unavailable bare fits
  · rename_i words converted
    have interprets : Interprets env f s.heap (Frame.enter f args) fuel
        (native.invoke fuel words s.heap) :=
      interprets_invoke compiles typed.elementsFit arity converted
    simp only [NativeFunction.toCode]
    generalize native.invoke fuel words s.heap = outcome at interprets ⊢
    cases interprets with
    | unfinished goesOn => exact .outOfFuel (goesOn s)
    | failed e =>
        refine .unavailable ?_ (fits.disable index)
        rw [State.bare_disableNative, State.bare_note, State.bare_eq_iff]
        exact ⟨rfl, frames, console⟩
    | @returned h' w n value means chain =>
        have chain' : ∀ callers, StepsIn env.interpreted (¬ ·.Fetches .print) n
            (s.inCall s.heap (Frame.enter f args) callers)
            (({ t with heap := h' } : State).backFrom h' callers value) := by
          intro callers
          have same : ({ t with heap := h' } : State).backFrom h' callers value
              = s.backFrom h' callers value := by
            simp only [State.backFrom, State.bare, console]
          rw [same]
          exact chain s callers
        dsimp only
        cases void : f.result.isVoid with
        | true =>
            have none_returned : value = none := by
              simpa [LinkedFunction.Returns, LinkedFunction.returnsValue, void] using means
            subst none_returned
            exact .returned fits chain'
        | false =>
            simp only [LinkedFunction.Returns, LinkedFunction.returnsValue, void] at means
            obtain ⟨v, rfl, result⟩ := means
            simp only [result]
            exact .returned fits chain'

theorem State.attempts_tryNative {args : List Value} {fuel : Nat}
    (bundled : env.compiler = some .bundled) (fits : NativesFit env.program s.natives)
    (typed : s.heap.Typed) (function : env.program.function index = .ok f)
    (arity : args.length = f.arity) :
    Attempts env s (Frame.enter f args) fuel (s.tryNative env fuel index f args.reverse) := by
  have finds := State.findsNative bundled fits function
  unfold State.tryNative
  split
  · rename_i t found
    rw [found] at finds
    exact .unavailable finds.bare finds.fits
  · rename_i t code found
    rw [found] at finds
    obtain ⟨native, compiles, rfl⟩ := finds.code code rfl
    exact State.attempts_invoke compiles typed arity finds.bare finds.fits

end Try

/-! ## One step -/

/-- What the interpreter does for a step: its first step is given. The rest of the chain is the
call that native code has made. -/
inductive Imitates (env : Environment) (fuel : Nat) (plain : StepResult) : StepResult → Prop where
  | next {t u : State} {n : Nat} (fits : NativesFit env.program t.natives)
      (first : plain = .next u)
      (rest : StepsIn env.interpreted (¬ ·.Fetches .print) n u t.bare) :
      Imitates env fuel plain (.next t)
  | halted {code : Int} {t : State} (same : plain = .halted code t.bare) :
      Imitates env fuel plain (.halted code t)
  | failed {fault : Fault} {t : State} (same : plain = .failed fault t.bare) :
      Imitates env fuel plain (.failed fault t)
  | outOfFuel {u v : State} (first : plain = .next u)
      (rest : StepsIn env.interpreted (¬ ·.Fetches .print) fuel u v) :
      Imitates env fuel plain .outOfFuel

/-- A step that does not call leaves native code as it is, and has a result. -/
def StepResult.KeepsNatives (natives : NativeTable) : StepResult → Prop
  | .next t => t.natives = natives
  | .halted _ _ => True
  | .failed _ _ => True
  | .outOfFuel => False

theorem Imitates.of_bare {env : Environment} {fuel : Nat} {natives : NativeTable}
    {result : StepResult} (fits : NativesFit env.program natives)
    (keeps : result.KeepsNatives natives) : Imitates env fuel result.bare result := by
  cases result with
  | next t =>
      have same : t.natives = natives := keeps
      exact .next (same ▸ fits) rfl (.refl _)
  | halted code t => exact .halted rfl
  | failed fault t => exact .failed rfl
  | outOfFuel => exact keeps.elim

section Step

variable {env : Environment} {fuel : Nat} {s : State} {frame : Frame} {callers : CallStack}
  {i : Instruction}

theorem State.keepsNatives_execute (other : i.opcode ≠ .call) :
    (s.execute env fuel frame callers i).KeepsNatives s.natives := by
  have continues : ∀ result, (s.continueWith frame callers result).KeepsNatives s.natives := by
    rintro (fault | after)
    · trivial
    · rfl
  unfold State.execute
  split
  · unfold State.newArray
    split
    · trivial
    · simp only [State.allocate]
      split
      · trivial
      · rename_i u r allocated
        exact (congrArg (·.1.natives) allocated).symm
  · unfold State.storeElement
    split
    · trivial
    · rfl
  · exact continues _
  · exact absurd ‹_› other
  · unfold State.ret
    split
    · trivial
    · rfl
  · unfold State.print
    split
    · trivial
    · split
      · trivial
      · rfl
  · unfold State.halt
    split <;> trivial
  · exact continues _

theorem State.imitates_call {index : Nat} (bundled : env.compiler = some .bundled)
    (fits : NativesFit env.program s.natives) (typed : s.heap.Typed) :
    Imitates env fuel (s.bare.call env.interpreted 0 frame callers index)
      (s.call env fuel frame callers index) := by
  unfold State.call
  rw [Environment.interpreted_program, Environment.interpreted_config]
  cases function : env.program.function index with
  | error fault => exact .failed rfl
  | ok f =>
      dsimp only
      cases enough : frame.require "CALL" f.arity with
      | error fault => exact .failed rfl
      | ok _ =>
          dsimp only
          split
          · exact .failed rfl
          · have arity : (frame.operands.take f.arity).length = f.arity := by
              unfold Frame.require at enough
              split at enough
              · cases enough
              · rw [List.length_take]
                omega
            have attempts : Attempts env s (Frame.enter f (frame.operands.take f.arity)) fuel
                (s.tryNative env fuel index f (frame.operands.take f.arity).reverse) :=
              State.attempts_tryNative bundled fits typed function arity
            rw [State.tryNative_interpreted]
            generalize s.tryNative env fuel index f _ = attempt at attempts ⊢
            cases attempts with
            | outOfFuel goesOn => exact .outOfFuel rfl (goesOn _)
            | @unavailable t bare fits' =>
                refine .next (n := 0) fits' rfl ?_
                rw [← bare]
                exact .refl _
            | @returned value t n fits' chain =>
                cases value with
                | none => exact .next fits' rfl (chain _)
                | some v => exact .next fits' rfl (chain _)

structure Ready (env : Environment) (s : State) : Prop where
  bundled : env.compiler = some .bundled
  fits : NativesFit env.program s.natives
  typed : s.heap.Typed

theorem Ready.imitates (ready : Ready env s) :
    Imitates env fuel (s.bare.step env.interpreted 0) (s.step env fuel) := by
  unfold State.step
  rw [State.bare_frames]
  cases s.frames with
  | nil => exact .failed rfl
  | cons frame callers =>
      dsimp only
      cases frame.fetch? with
      | none => exact .failed rfl
      | some i =>
          dsimp only
          by_cases call : i.opcode = .call
          · simp only [State.execute, call]
            exact State.imitates_call (s := s.note _ _) ready.bundled ready.fits ready.typed
          · rw [State.note_bare, ← State.bare_note, ← State.bare_execute env fuel 0 _ _ _ _ call]
            exact .of_bare ready.fits (State.keepsNatives_execute call)

/-- A step of a run with the bundled compiler is a chain of steps of the interpreter, of which
only the first can be a print. -/
theorem Ready.chain (ready : Ready env s) {t : State} (next : s.step env fuel = .next t) :
    NativesFit env.program t.natives ∧ ∃ n u, s.bare.step env.interpreted 0 = .next u
      ∧ StepsIn env.interpreted (¬ ·.Fetches .print) n u t.bare := by
  have imitates : Imitates env fuel (s.bare.step env.interpreted 0) (s.step env fuel) :=
    ready.imitates
  rw [next] at imitates
  cases imitates with
  | next fits first rest => exact ⟨fits, _, _, first, rest⟩

theorem Ready.next (ready : Ready env s) {t : State} (next : s.step env fuel = .next t) :
    Ready env t := by
  obtain ⟨fits, n, u, first, rest⟩ := ready.chain next
  refine ⟨ready.bundled, fits, ?_⟩
  have chain : Steps env.interpreted (n + 1) s.bare t.bare := .head first rest.steps
  have kept : ∀ (s t : State) (fuel : Nat), s.heap.Typed → s.step env.interpreted fuel = .next t →
      t.heap.Typed := by
    intro s t fuel typed step
    exact State.typed_of_step_interpreted typed (by rw [step]; rfl)
  exact chain.invariant kept ready.typed

end Step

/-! ## More fuel -/

section Fuel

variable {env : Environment} {fuel fuel' : Nat} {s : State}

theorem State.invokeNative_mono {native : NativeFunction} {index : Nat} {f : LinkedFunction}
    {args : List Value} (le : fuel ≤ fuel')
    (done : s.invokeNative fuel index f native.toCode args ≠ .outOfFuel) :
    s.invokeNative fuel' index f native.toCode args
      = s.invokeNative fuel index f native.toCode args := by
  unfold State.invokeNative at done ⊢
  cases converted : nativeArguments s.heap f.params args with
  | none => rfl
  | some words =>
      simp only [converted, NativeFunction.toCode] at done ⊢
      cases invoked : native.invoke fuel words s.heap with
      | none => simp [invoked] at done
      | some r => rw [NativeFunction.invoke_mono le invoked]

theorem Ready.tryNative_mono (ready : Ready env s) {index : Nat} {f : LinkedFunction}
    {args : List Value} (function : env.program.function index = .ok f) (le : fuel ≤ fuel')
    (done : s.tryNative env fuel index f args ≠ .outOfFuel) :
    s.tryNative env fuel' index f args = s.tryNative env fuel index f args := by
  have finds := State.findsNative ready.bundled ready.fits function
  unfold State.tryNative at done ⊢
  cases found : s.nativeCode env index f with
  | mk t code =>
      rw [found] at finds done
      cases code with
      | none => rfl
      | some code =>
          obtain ⟨native, _, rfl⟩ := finds.code code rfl
          exact State.invokeNative_mono le done

theorem Ready.call_mono (ready : Ready env s) {frame : Frame} {callers : CallStack} {index : Nat}
    (le : fuel ≤ fuel') (done : s.call env fuel frame callers index ≠ .outOfFuel) :
    s.call env fuel' frame callers index = s.call env fuel frame callers index := by
  unfold State.call at done ⊢
  cases function : env.program.function index with
  | error fault => rfl
  | ok f =>
      simp only [function] at done ⊢
      cases enough : frame.require "CALL" f.arity with
      | error fault => rfl
      | ok _ =>
          simp only [enough] at done ⊢
          split
          · rfl
          · rename_i shallow
            rw [if_neg shallow] at done
            rw [ready.tryNative_mono function le]
            intro unfinished
            rw [unfinished] at done
            exact done rfl

theorem State.execute_fuel {frame : Frame} {callers : CallStack} {i : Instruction}
    (other : i.opcode ≠ .call) :
    s.execute env fuel' frame callers i = s.execute env fuel frame callers i := by
  unfold State.execute
  split
  case h_4 opcode => exact absurd opcode other
  all_goals rfl

theorem Ready.step_mono (ready : Ready env s) (le : fuel ≤ fuel')
    (done : s.step env fuel ≠ .outOfFuel) : s.step env fuel' = s.step env fuel := by
  unfold State.step at done ⊢
  cases frames : s.frames with
  | nil => rfl
  | cons frame callers =>
      simp only [frames] at done ⊢
      cases fetched : frame.fetch? with
      | none => rfl
      | some i =>
          simp only [fetched] at done ⊢
          by_cases call : i.opcode = .call
          · simp only [State.execute, call] at done ⊢
            have noted : Ready env (s.note .trace fun _ => s!"{frame.context}: {i.text}") :=
              ⟨ready.bundled, ready.fits, ready.typed⟩
            exact noted.call_mono le done
          · exact State.execute_fuel call

theorem Ready.runSteps_mono (ready : Ready env s) (le : fuel ≤ fuel') {e : Execution}
    (run : s.runSteps env fuel = some e) : s.runSteps env fuel' = some e := by
  induction fuel generalizing s fuel' with
  | zero => simp [State.runSteps] at run
  | succ fuel ih =>
      obtain ⟨more, rfl⟩ : ∃ more, fuel' = more + 1 := ⟨fuel' - 1, by omega⟩
      by_cases active : s.frames = []
      · rw [State.runSteps_of_empty _ active] at run ⊢
        exact run
      · rw [State.runSteps_of_frames _ active] at run ⊢
        have done : s.step env fuel ≠ .outOfFuel := by
          intro unfinished
          simp [unfinished] at run
        rw [ready.step_mono (by omega) done]
        cases step : s.step env fuel with
        | next t =>
            rw [step] at run
            exact ih (ready.next step) (by omega) run
        | halted code t =>
            rw [step] at run
            exact run
        | failed fault t =>
            rw [step] at run
            exact run
        | outOfFuel => exact absurd step done

end Fuel

/-! ## Runs -/

section Runs

variable {env : Environment} {fuel : Nat} {s : State}

/-- A run with native code that ends is a run of the interpreter. -/
theorem Ready.interpreted_of_run (ready : Ready env s) {e : Execution}
    (run : s.runSteps env fuel = some e) :
    ∃ fuel', s.bare.runSteps env.interpreted fuel' = some e.bare := by
  induction fuel generalizing s with
  | zero => simp [State.runSteps] at run
  | succ fuel ih =>
      by_cases active : s.frames = []
      · rw [State.runSteps_of_empty fuel active] at run
        cases run
        exact ⟨1, State.runSteps_of_empty 0 active⟩
      · rw [State.runSteps_of_frames fuel active] at run
        have imitates : Imitates env fuel (s.bare.step env.interpreted 0) (s.step env fuel) :=
          ready.imitates
        have active' : s.bare.frames ≠ [] := active
        cases step : s.step env fuel with
        | next t =>
            rw [step] at run
            obtain ⟨_, n, u, first, rest⟩ := ready.chain step
            obtain ⟨more, run'⟩ := ih (ready.next step) run
            have chain : Steps env.interpreted (n + 1) s.bare t.bare := .head first rest.steps
            refine ⟨n + 1 + more, ?_⟩
            rw [chain.runSteps_eq, Nat.add_sub_cancel_left]
            exact run'
        | halted code t =>
            rw [step] at run imitates
            cases run
            cases imitates with
            | halted same => exact ⟨1, by rw [State.runSteps_of_frames 0 active', same]; rfl⟩
        | failed fault t =>
            rw [step] at run imitates
            cases run
            cases imitates with
            | failed same => exact ⟨1, by rw [State.runSteps_of_frames 0 active', same]; rfl⟩
        | outOfFuel => simp [step] at run

/-- A run of the interpreter that ends is one with native code. The induction is on the fuel of
the interpreter, of which every step with native code takes some. -/
theorem Ready.run_of_interpreted (ready : Ready env s) {e : Execution}
    (run : s.bare.runSteps env.interpreted fuel = some e) :
    ∃ fuel' e', s.runSteps env fuel' = some e' ∧ e'.bare = e := by
  induction fuel using Nat.strongRecOn generalizing s with
  | ind fuel ih =>
      cases fuel with
      | zero => simp [State.runSteps] at run
      | succ fuel =>
          by_cases active : s.frames = []
          · have active' : s.bare.frames = [] := active
            rw [State.runSteps_of_empty fuel active'] at run
            cases run
            exact ⟨1, _, State.runSteps_of_empty 0 active, rfl⟩
          · have imitates : Imitates env fuel (s.bare.step env.interpreted 0) (s.step env fuel) :=
              ready.imitates
            have active' : s.bare.frames ≠ [] := active
            cases step : s.step env fuel with
            | next t =>
                obtain ⟨_, n, u, first, rest⟩ := ready.chain step
                have chain : Steps env.interpreted (n + 1) s.bare t.bare := .head first rest.steps
                rw [chain.runSteps_eq] at run
                obtain ⟨more, e', run', same⟩ := ih _ (by omega) (ready.next step) run
                refine ⟨max fuel more + 1, e', ?_, same⟩
                have done : s.step env fuel ≠ .outOfFuel := by simp [step]
                rw [State.runSteps_of_frames _ active,
                  ready.step_mono (Nat.le_max_left fuel more) done, step]
                exact (ready.next step).runSteps_mono (Nat.le_max_right fuel more) run'
            | halted code t =>
                rw [State.runSteps_of_frames fuel active', State.step_interpreted_fuel env fuel 0]
                  at run
                rw [step] at imitates
                cases imitates with
                | halted same =>
                    rw [same] at run
                    cases run
                    exact ⟨fuel + 1, _, by rw [State.runSteps_of_frames fuel active, step], rfl⟩
            | failed fault t =>
                rw [State.runSteps_of_frames fuel active', State.step_interpreted_fuel env fuel 0]
                  at run
                rw [step] at imitates
                cases imitates with
                | failed same =>
                    rw [same] at run
                    cases run
                    exact ⟨fuel + 1, _, by rw [State.runSteps_of_frames fuel active, step], rfl⟩
            | outOfFuel =>
                rw [step] at imitates
                cases imitates with
                | outOfFuel first rest =>
                    have chain : Steps env.interpreted (fuel + 1) s.bare _ :=
                      .head first rest.steps
                    rw [chain.runSteps_eq, Nat.sub_self] at run
                    simp [State.runSteps] at run

theorem ready_start {env : Environment} (bundled : env.compiler = some .bundled)
    (console : Console) (log : Log) (entry : LinkedFunction) :
    Ready env ((State.start env.config console log).entering entry) where
  bundled := bundled
  fits := .empty _
  typed := .empty _ _

end Runs

/-- From a state without native code, a run with the bundled compiler is seen as the interpreter's
run is. -/
theorem Ready.yields_iff {env : Environment} {s : State} {entry : LinkedFunction}
    {o : Observation} (ready : Ready env (s.entering entry)) :
    s.Yields env entry o ↔ s.bare.Yields env.interpreted entry o := by
  rw [State.yields_iff, State.yields_iff]
  constructor
  · rintro ⟨fuel, e, run, rfl⟩
    obtain ⟨fuel', run'⟩ := ready.interpreted_of_run run
    exact ⟨fuel', e.bare, run', e.observation_bare⟩
  · rintro ⟨fuel, e, run, rfl⟩
    obtain ⟨fuel', e', run', rfl⟩ := ready.run_of_interpreted run
    exact ⟨fuel', e', run', e'.observation_bare.symm⟩

/-- Native code does not show: with the bundled compiler a run from a fresh heap ends if and only
if the interpreter's run does, and then it leaves the same heap and the same text on the console
and has the same outcome, or the same fault with the same frames. -/
theorem bundled_compiler_does_not_show (program : Program) (entry : LinkedFunction)
    (config : Config) (jitEnabled : Bool) (jitThreshold : Nat) (console : Console)
    (log log' : Log) (o : Observation) :
    (State.start config console log).Yields ⟨config, some .bundled, program⟩ entry o
      ↔ (State.start config console log').Yields
          ⟨{ config with jitEnabled := jitEnabled, jitThreshold := jitThreshold }, none, program⟩
          entry o := by
  have ready : Ready ⟨config, some .bundled, program⟩ _ := ready_start rfl console log entry
  rw [ready.yields_iff]
  exact State.yields_interpreted_congr ⟨config, _, program⟩
    ⟨{ config with jitEnabled := jitEnabled, jitThreshold := jitThreshold }, none, program⟩
    rfl rfl rfl

end StackMachine
