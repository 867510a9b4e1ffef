import StackMachine.Proofs.Native.Lockstep
import StackMachine.Proofs.Native.Optimization

/-! # Calls of compiled functions

A call of native code that returns is a call that the interpreter makes: with the value of the
word, and with the heap that the stores leave. A call that fails leaves the heap as it was, and
one that does not end is one that the interpreter does not end either.
-/

namespace StackMachine

/-! ## What compilation makes sure of -/

theorem fits_of_analyze {p : Program} {f : LinkedFunction} {lane : Lane}
    (able : analyze p f = .ok lane) :
    LaneFits p f lane ∧ ∃ states stack, f.parameterKinds = .ok stack
      ∧ KindsFit p f (f.entryKinds lane stack) states := by
  simp only [analyze, bind, Except.bind] at able
  cases selected : selectLane p f with
  | error e => simp [selected] at able
  | ok chosen =>
      simp only [selected] at able
      cases kinds : f.kinds p chosen with
      | error e => simp [kinds] at able
      | ok states =>
          simp only [kinds, pure, Except.pure, Except.ok.injEq] at able
          subst able
          obtain ⟨stack, parameters, fit⟩ := f.kindsFit_of_kinds kinds
          exact ⟨laneFits_of_selectLane selected, states, stack, parameters, fit⟩

theorem compiled_of_compileFunction {p : Program} {f : LinkedFunction} {native : NativeFunction}
    (compiles : compileFunction p f = .ok native) :
    ∃ (lane : Lane) (steps : List Step) (states : Array (Option (KindState f.locals)))
        (stack : List Kind) (assumed : KindState f.locals),
      Compiled p f lane steps states ∧ f.parameterKinds = .ok stack
        ∧ states[0]? = some (some assumed) ∧ assumed.Covers (f.entryKinds lane stack)
        ∧ native
          = ⟨f.name, f.arity, f.locals, lane, f.returnsValue, (optimize lane steps).toArray⟩ := by
  simp only [compileFunction, bind, Except.bind, pure, Except.pure] at compiles
  cases able : analyze p f with
  | error e => simp [able] at compiles
  | ok lane =>
      simp only [able] at compiles
      obtain ⟨fits, states, stack, parameters, fit⟩ := fits_of_analyze able
      obtain ⟨assumed, at_start, covers⟩ := fit.entry
      cases lowered : lower p f with
      | error e => simp [lowered] at compiles
      | ok steps =>
          simp only [lowered] at compiles
          split at compiles
          · cases compiles
          · cases compiles
            exact ⟨lane, steps, states, stack, assumed, ⟨fits, fit.size, fit.settled, lowered⟩,
              parameters, at_start, covers, rfl⟩

/-! ## Entering -/

section Entering

variable {lane : Lane} {h : Heap}

theorem AllStand.append {kinds kinds' : List Kind} {words words' : List Int64}
    {values values' : List Value} (first : AllStand lane h kinds words values)
    (second : AllStand lane h kinds' words' values') :
    AllStand lane h (kinds ++ kinds') (words ++ words') (values ++ values') := by
  induction first with
  | nil => exact second
  | cons head _ ih => exact .cons head ih

theorem AllStand.reverse {kinds : List Kind} {words : List Int64} {values : List Value}
    (all : AllStand lane h kinds words values) :
    AllStand lane h kinds.reverse words.reverse values.reverse := by
  induction all with
  | nil => exact .nil
  | cons head _ ih =>
      simp only [List.reverse_cons]
      exact ih.append (.cons head .nil)

/-- The words for the arguments of a call stand for them, in order. -/
theorem allStand_of_nativeArguments {params : List Descriptor} {args : List Value}
    {words : List Int64} {kinds : List Kind} (takes : ∀ d ∈ params, lane.Takes d)
    (fit : h.ElementsFit) (known : params.mapM Descriptor.kind? = some kinds)
    (lengths : params.length = args.length)
    (converted : nativeArguments h params args = some words) :
    AllStand lane h kinds words args := by
  induction params generalizing args words kinds with
  | nil =>
      cases args with
      | nil =>
          cases known
          cases converted
          exact .nil
      | cons v rest => simp at lengths
  | cons d params ih =>
      cases args with
      | nil => simp at lengths
      | cons v args =>
          simp only [List.mapM_cons, bind, Option.bind_eq_some_iff, pure,
            Option.some.injEq] at known
          obtain ⟨k, kind, kinds, rest_known, rfl⟩ := known
          simp only [nativeArguments, List.zip_cons_cons, List.mapM_cons, bind,
            Option.bind_eq_some_iff, pure, Option.some.injEq] at converted
          obtain ⟨w, word, words, rest_converted, rfl⟩ := converted
          refine .cons (.of_argument (takes d (by simp)) kind fit word) ?_
          exact ih (fun d' member => takes d' (by simp [member])) rest_known
            (by simpa using lengths) rest_converted

theorem standsFor_unset {k : Kind} (initial : lane.initialLocal = some k) :
    StandsFor lane h k 0 Value.unset := by
  cases lane with
  | i32 =>
      cases initial
      exact .int rfl rfl
  | i64 => cases initial

/-- When native code is entered, its state stands for a fresh frame of the function. -/
theorem inStep_start {p : Program} {f : LinkedFunction} {steps : List Step}
    {states : Array (Option (KindState f.locals))} {stack : List Kind}
    {assumed : KindState f.locals} (compiled : Compiled p f lane steps states)
    (parameters : f.parameterKinds = .ok stack) (at_start : states[0]? = some (some assumed))
    (covers : assumed.Covers (f.entryKinds lane stack)) (fit : h.ElementsFit) {args : List Value}
    {words : List Int64} (arity : args.length = f.arity)
    (converted : nativeArguments h f.params args.reverse = some words) :
    InStep f lane states h (.start words f.locals) h (Frame.enter f args) := by
  refine ⟨rfl, ⟨assumed, at_start, ?_⟩, .nil lane fit⟩
  refine Mirrors.weaken ⟨rfl, by simp [NativeState.start], by simp [Frame.enter], ?_, ?_⟩ covers
  · unfold LinkedFunction.parameterKinds at parameters
    split at parameters
    · rename_i kinds known
      cases parameters
      have all := allStand_of_nativeArguments compiled.fits.params fit known
        (by rw [List.length_reverse, arity]; rfl) converted
      have reversed := all.reverse
      rw [List.reverse_reverse] at reversed
      exact reversed
    · cases parameters
  · intro i k at_i
    simp only [LinkedFunction.entryKinds, Vector.getElem?_replicate] at at_i
    split at at_i
    · rename_i bound
      refine ⟨0, Value.unset, ?_, ?_, standsFor_unset (Option.some.inj at_i)⟩
      · simp [NativeState.start, bound]
      · simp [Frame.enter, bound]
    · cases at_i

end Entering

/-! ## Calling -/

section Calling

variable {env : Environment} {f : LinkedFunction} {native : NativeFunction} {h : Heap}
  {args : List Value} {words : List Int64} {fuel : Nat}

theorem NativeFunction.invoke_mono {fuel' : Nat} (le : fuel ≤ fuel') {words : List Int64}
    {r : Heap × Except NativeError Int64} (done : native.invoke fuel words h = some r) :
    native.invoke fuel' words h = some r := by
  unfold NativeFunction.invoke at done ⊢
  rw [NativeFunction.execute_eq_run] at done ⊢
  split at done
  · cases done
  · rename_i e run
    rw [GappedCode.run_mono le run]
    exact done
  · rename_i v journal run
    rw [GappedCode.run_mono le run]
    exact done

inductive Interprets (env : Environment) (f : LinkedFunction) (h : Heap) (frame : Frame)
    (fuel : Nat) : Option (Heap × Except NativeError Int64) → Prop where
  | unfinished {h' : Heap} {frame' : Frame}
      (goesOn : ∀ (σ : State) (callers : CallStack), StepsIn env.interpreted
        (¬ ·.Fetches .print) fuel (σ.inCall h frame callers) (σ.inCall h' frame' callers)) :
      Interprets env f h frame fuel none
  | failed (e : NativeError) : Interprets env f h frame fuel (some (h, .error e))
  | returned {h' : Heap} {w : Int64} {n : Nat} {value : Option Value} (means : f.Returns w value)
      (chain : ∀ (σ : State) (callers : CallStack), StepsIn env.interpreted
        (¬ ·.Fetches .print) n (σ.inCall h frame callers) (σ.backFrom h' callers value)) :
      Interprets env f h frame fuel (some (h', .ok w))

theorem interprets_invoke (compiles : compileFunction env.program f = .ok native)
    (fit : h.ElementsFit) (arity : args.length = f.arity)
    (converted : nativeArguments h f.params args.reverse = some words) :
    Interprets env f h (Frame.enter f args) fuel (native.invoke fuel words h) := by
  obtain ⟨lane, steps, states, stack, assumed, compiled, parameters, at_start, covers, rfl⟩ :=
    compiled_of_compileFunction compiles
  have inStep := inStep_start compiled parameters at_start covers fit arity converted
  have condenses := condenses_optimize (f.context lane h) steps
  simp only [NativeFunction.invoke, NativeFunction.execute_eq_run]
  cases optimized : (GappedCode.full (optimize lane steps)).run (f.context lane h) fuel
      (.start words f.locals) with
  | none =>
      have unfinished : (GappedCode.full steps).run (f.context lane h) fuel
          (.start words f.locals) = none := by
        rw [Option.eq_none_iff_forall_ne_some]
        intro r plain
        have ends : (GappedCode.full (optimize lane steps)).run (f.context lane h) fuel
            (.start words f.locals) = some r := condenses.ends rfl plain
        rw [optimized] at ends
        cases ends
      obtain ⟨h', frame', goesOn⟩ := inStep.run_unfinished compiled unfinished
      exact .unfinished goesOn
  | some r =>
      cases r with
      | error e => exact .failed e
      | ok ended =>
          obtain ⟨w, journal⟩ := ended
          obtain ⟨more, plain⟩ := condenses.ended rfl optimized
          obtain ⟨n, h', value, means, journaled, chain⟩ := inStep.run_returned compiled plain
          simp only [journaled.committed]
          exact .returned means chain

end Calling

end StackMachine
