import Mathlib
import StackMachine.Proofs.Native.Discipline

/-! # What is known of native code

Over any number of runs, and whatever the compiler and its code answer, the record of each function
is in order. Each step keeps to the guards, with the answers of a compiler or without one, and each
run of a machine is such a chain of steps.
-/

namespace StackMachine

/-! ## Steps -/

namespace State

section Interpreted

variable {env : Environment} {fuel : Nat} {s t : State} {frame : Frame} {callers : CallStack}

theorem natives_of_continueWith {result : Except Fault Frame}
    (left : (s.continueWith frame callers result).state? = some t) : t.natives = s.natives := by
  cases result <;> cases left <;> rfl

theorem natives_of_newArray {p : Program} {index : Nat}
    (left : (s.newArray p frame callers index).state? = some t) : t.natives = s.natives := by
  unfold newArray at left
  split at left
  · cases left
    rfl
  · simp only [allocate] at left
    split at left
    all_goals
      rename_i allocated
      cases left
      exact (congrArg (·.1.natives) allocated).symm

theorem natives_of_call_interpreted {index : Nat}
    (left : (s.call env.interpreted fuel frame callers index).state? = some t) :
    t.natives = s.natives := by
  unfold call at left
  split at left
  · cases left
    rfl
  · split at left
    · cases left
      rfl
    · dsimp only at left
      split at left
      · cases left
        rfl
      · rw [tryNative_interpreted] at left
        cases left
        rfl

theorem natives_of_execute_interpreted {i : Instruction}
    (left : (s.execute env.interpreted fuel frame callers i).state? = some t) :
    t.natives = s.natives := by
  unfold execute at left
  split at left
  · exact natives_of_newArray left
  · unfold storeElement at left
    split at left <;> cases left <;> rfl
  · exact natives_of_continueWith left
  · exact natives_of_call_interpreted left
  · unfold ret at left
    split at left <;> cases left <;> rfl
  · unfold print at left
    split at left
    · cases left
      rfl
    · split at left <;> cases left <;> rfl
  · unfold halt at left
    split at left <;> cases left <;> rfl
  · exact natives_of_continueWith left

/-- Without a compiler, nothing becomes known of native code. -/
theorem natives_of_step_interpreted (left : (s.step env.interpreted fuel).state? = some t) :
    t.natives = s.natives := by
  unfold step at left
  split at left
  · cases left
    rfl
  · split at left
    · cases left
      rfl
    · have kept := natives_of_execute_interpreted left
      exact kept

end Interpreted

/-- What a step asks and comes to, with the answers of its compiler if it has one. -/
def consult (config : Config) (p : Program) (s : State) :
    Option Answers → List Exchange × Option StepResult
  | none => ([], some (s.step ⟨config, none, p⟩ 0))
  | some answers => (s.stepTalk config p).answered answers

def events (config : Config) (p : Program) (s : State) (consulted : Option Answers) :
    List Event :=
  match s.callRequest? config p with
  | none => []
  | some r =>
      ⟨config.jitThreshold, r.index, none⟩
        :: (s.consult config p consulted).1.map fun x => ⟨config.jitThreshold, r.index, some x⟩

section Step

variable {config : Config} {p : Program} {s t : State} {r : CallRequest}

theorem natives_of_conclude {call : NativeCall} (left : (r.conclude call).state? = some t) :
    ∃ u, call.state? = some u ∧ t.natives = u.natives := by
  cases call with
  | outOfFuel => cases left
  | unavailable u =>
      cases left
      exact ⟨u, rfl, rfl⟩
  | returned value u =>
      cases value <;> cases left <;> exact ⟨u, rfl, rfl⟩

theorem heeds_stepTalk (request : s.callRequest? config p = some r) :
    (s.stepTalk config p).Heeds p r.function config.jitThreshold
      (fun status result => ∀ t, result.state? = some t →
        s.natives.Becomes r.index status t.natives) (s.natives.get r.index).called := by
  simp only [stepTalk, request]
  rw [← natives_of_callRequest request]
  refine (heeds_tryTalk config r.args.reverse).bind ?_
  intro status call left
  refine .done fun t state => ?_
  obtain ⟨u, state', same⟩ := natives_of_conclude state
  rw [same]
  exact left u state'

/-- A step that makes no call changes nothing that is known. -/
theorem natives_of_consult_of_none (consulted : Option Answers)
    (none : s.callRequest? config p = none)
    (left : (s.consult config p consulted).2.bind StepResult.state? = some t) :
    t.natives = s.natives := by
  let env : Environment := ⟨config, .none, p⟩
  have interpreted : (s.step env.interpreted 0).state? = some t := by
    cases consulted with
    | none => exact left
    | some answers =>
        simp only [consult, stepTalk, none] at left
        exact left
  exact natives_of_step_interpreted interpreted

/-- Only the called function becomes better known. -/
theorem get_of_consult_other (consulted : Option Answers)
    (request : s.callRequest? config p = some r) {i : Nat} (other : i ≠ r.index)
    (left : (s.consult config p consulted).2.bind StepResult.state? = some t) :
    t.natives.get i = s.natives.get i := by
  cases consulted with
  | none =>
      let env : Environment := ⟨config, none, p⟩
      have interpreted : (s.step env.interpreted 0).state? = some t := left
      rw [natives_of_step_interpreted interpreted]
  | some answers =>
      obtain ⟨result, answered, state⟩ := Option.bind_eq_some_iff.mp left
      obtain ⟨status, becomes⟩ := (heeds_stepTalk request).ends_of_answered answered
      rw [becomes t state i, if_neg other]

end Step

end State

/-! ## Sessions -/

def eventsOf (i : Nat) (events : List Event) : List Event := events.filter (·.function == i)

section Step

variable {config : Config} {p : Program} {s : State} {events : List Event} {i : Nat}
  {f : LinkedFunction}

theorem eventsOf_append_other {r : CallRequest} (consulted : Option Answers)
    (request : s.callRequest? config p = some r) (other : i ≠ r.index) :
    eventsOf i (events ++ s.events config p consulted) = eventsOf i events := by
  have none : ∀ e ∈ s.events config p consulted, ¬ (e.function == i) = true := by
    intro e member
    simp only [State.events, request, List.mem_cons, List.mem_map] at member
    rcases member with rfl | ⟨x, _, rfl⟩
    all_goals simpa using Ne.symm other
  rw [eventsOf, List.filter_append, List.filter_eq_nil_iff.mpr none, List.append_nil]
  rfl

theorem eventsOf_append_called {r : CallRequest} (consulted : Option Answers)
    (request : s.callRequest? config p = some r) (same : r.index = i) :
    eventsOf i (events ++ s.events config p consulted)
      = eventsOf i events ++ [⟨config.jitThreshold, r.index, none⟩]
        ++ (s.consult config p consulted).1.map
            fun x => ⟨config.jitThreshold, r.index, some x⟩ := by
  have all : ∀ e ∈ s.events config p consulted, (e.function == i) = true := by
    intro e member
    simp only [State.events, request, List.mem_cons, List.mem_map] at member
    rcases member with rfl | ⟨x, _, rfl⟩
    all_goals simpa using same
  rw [eventsOf, List.filter_append, List.filter_eq_self.mpr all, State.events, request]
  simp [eventsOf]

/-- A step keeps the discipline of each function, and what is known of it right. -/
theorem Recorded.step (function : p.function i = .ok f)
    (disciplined : Disciplined p f (eventsOf i events))
    (recorded : Recorded p f (eventsOf i events) (s.natives.get i)) (config : Config)
    (consulted : Option Answers) :
    Disciplined p f (eventsOf i (events ++ s.events config p consulted))
      ∧ ∀ t, (s.consult config p consulted).2.bind StepResult.state? = some t →
        Recorded p f (eventsOf i (events ++ s.events config p consulted)) (t.natives.get i) := by
  cases request : s.callRequest? config p with
  | none =>
      have silent : s.events config p consulted = [] := by simp only [State.events, request]
      rw [silent, List.append_nil]
      refine ⟨disciplined, fun t left => ?_⟩
      rw [State.natives_of_consult_of_none consulted request left]
      exact recorded
  | some r =>
      by_cases called : r.index = i
      · rw [eventsOf_append_called consulted request called]
        have callee : r.function = f := by
          have known := State.function_of_callRequest request
          rw [called, function] at known
          exact (Except.ok.inj known).symm
        have after := disciplined.call config.jitThreshold r.index
        cases consulted with
        | none =>
            simp only [State.consult, List.map_nil, List.append_nil]
            refine ⟨after, fun t left => ?_⟩
            let env : Environment := ⟨config, none, p⟩
            have interpreted : (s.step env.interpreted 0).state? = some t := left
            rw [State.natives_of_step_interpreted interpreted]
            exact recorded.call config.jitThreshold r.index
        | some answers =>
            have heeds := State.heeds_stepTalk request
            rw [callee, called] at heeds
            rw [called] at after ⊢
            obtain ⟨kept, right⟩ := heeds.recorded answers i after
              (recorded.called config.jitThreshold i)
            refine ⟨kept, fun t left => ?_⟩
            obtain ⟨result, answered, state⟩ := Option.bind_eq_some_iff.mp left
            obtain ⟨status, becomes, recorded'⟩ := right result answered
            rw [(becomes t state).here]
            exact recorded'
      · have other : i ≠ r.index := Ne.symm called
        rw [eventsOf_append_other consulted request other]
        refine ⟨disciplined, fun t left => ?_⟩
        rw [State.get_of_consult_other consulted request other left]
        exact recorded

theorem function_of_events (consulted : Option Answers) {e : Event}
    (member : e ∈ s.events config p consulted) : ∃ f, p.function e.function = .ok f := by
  unfold State.events at member
  split at member
  · cases member
  · rename_i r request
    have function := State.function_of_callRequest request
    simp only [List.mem_cons, List.mem_map] at member
    rcases member with rfl | ⟨x, _, rfl⟩
    all_goals exact ⟨r.function, function⟩

end Step

/-- The events of a program, from a time when nothing was known of native code, up to a state; or up
to a question to which there is no answer, with no state then. Each step has its own configuration
and its own answers, or no compiler. Between steps all but what is known of native code may be
replaced, as at the start of a run. -/
inductive Session (p : Program) : List Event → Option State → Prop where
  | fresh {s : State} (fresh : ∀ i, s.natives.get i = .fresh) : Session p [] (some s)
  | resume {events : List Event} {s t : State} (session : Session p events (some s))
      (same : t.natives = s.natives) : Session p events (some t)
  | step {events : List Event} {s : State} (session : Session p events (some s))
      (config : Config) (consulted : Option Answers) :
      Session p (events ++ s.events config p consulted)
        ((s.consult config p consulted).2.bind StepResult.state?)

theorem Session.recorded {p : Program} {events : List Event} {left : Option State}
    (session : Session p events left) {i : Nat} {f : LinkedFunction}
    (function : p.function i = .ok f) :
    Disciplined p f (eventsOf i events)
      ∧ ∀ s, left = some s → Recorded p f (eventsOf i events) (s.natives.get i) := by
  induction session with
  | fresh fresh =>
      refine ⟨.nil p f, fun s same => ?_⟩
      cases same
      rw [fresh i]
      exact .fresh p f
  | resume _ same ih =>
      refine ⟨ih.1, fun t here => ?_⟩
      cases here
      rw [same]
      exact ih.2 _ rfl
  | step _ config consulted ih => exact Recorded.step function ih.1 (ih.2 _ rfl) config consulted

theorem Session.functions {p : Program} {events : List Event} {left : Option State}
    (session : Session p events left) : ∀ e ∈ events, ∃ f, p.function e.function = .ok f := by
  induction session with
  | fresh => exact fun e no => by cases no
  | resume _ _ ih => exact ih
  | step _ config consulted ih =>
      intro e member
      rcases List.mem_append.mp member with old | new
      · exact ih e old
      · exact function_of_events consulted new

/-! ## Runs are sessions -/

def State.transcript (env : Environment) : Nat → State → List Event
  | 0, _ => []
  | fuel + 1, s =>
      match s.frames with
      | [] => []
      | _ :: _ =>
          s.events env.config env.program (env.compiler.map (·.answers fuel))
            ++ match s.step env fuel with
              | .next t => t.transcript env fuel
              | _ => []

section Runs

variable {env : Environment} {fuel : Nat} {s t : State} {events : List Event}

/-- With the answers of its compiler, a step of a session is a step of the machine. -/
theorem State.consult_eq_step (env : Environment) (fuel : Nat) (s : State) :
    (s.consult env.config env.program (env.compiler.map (·.answers fuel))).2.getD .outOfFuel
      = s.step env fuel := by
  obtain ⟨config, compiler, p⟩ := env
  cases compiler with
  | none => exact State.step_interpreted_fuel ⟨config, none, p⟩ 0 fuel s
  | some c => exact State.answered_stepTalk c fuel

theorem Session.after_step (session : Session env.program events (some s)) (fuel : Nat) :
    Session env.program
      (events ++ s.events env.config env.program (env.compiler.map (·.answers fuel)))
      (s.step env fuel).state? := by
  have step := session.step env.config (env.compiler.map (·.answers fuel))
  rw [← State.consult_eq_step env fuel s]
  cases result : (s.consult env.config env.program (env.compiler.map (·.answers fuel))).2 with
  | none =>
      rw [result] at step
      exact step
  | some r =>
      rw [result] at step
      exact step

theorem Session.after_steps (session : Session env.program events (some s)) {e : Execution}
    (run : s.runSteps env fuel = some e) :
    Session env.program (events ++ s.transcript env fuel) (some e.conclude.1) := by
  induction fuel generalizing s events with
  | zero => cases run
  | succ fuel ih =>
      have after := session.after_step fuel
      cases frames : s.frames with
      | nil =>
          rw [State.runSteps_of_empty fuel frames] at run
          cases run
          simp only [State.transcript, frames, List.append_nil]
          exact session
      | cons frame callers =>
          have active : s.frames ≠ [] := by simp [frames]
          rw [State.runSteps_of_frames fuel active] at run
          simp only [State.transcript, frames]
          cases stepped : s.step env fuel with
          | next t =>
              rw [stepped] at run after
              have later := ih after run
              rw [List.append_assoc] at later
              exact later
          | halted code t =>
              rw [stepped] at run after
              cases run
              simp only [List.append_nil]
              exact after
          | failed fault t =>
              rw [stepped] at run after
              cases run
              simp only [List.append_nil]
              exact after.resume rfl
          | outOfFuel =>
              rw [stepped] at run
              cases run

/-- A session goes on with any run. -/
theorem Session.after_run (session : Session env.program events (some s))
    {entry : LinkedFunction} {result : Except RuntimeError Outcome}
    (run : s.run env fuel entry = some (t, result)) :
    Session env.program (events ++ (s.entering entry).transcript env fuel) (some t) := by
  have entered : Session env.program events (some (s.entering entry)) := session.resume rfl
  unfold State.run at run
  split at run
  · cases run
  · rename_i e ended
    have after := entered.after_steps ended
    dsimp only at run
    split at run
    · cases run
      exact after
    · cases run
      exact after.resume rfl

end Runs

/-- In every session, whatever is answered, each function is compiled at most once, and the code
that was made of it is called only on calls after the threshold. Once a compiler refuses it, or
compiling it fails, or its code fails, or returns a word without a form in the result type, its
native code is given up: no code is kept, and nothing is asked for it any more. A session goes on
with any run of the machine with any compiler, whose steps are its dialogues with the answers of
the compiler. -/
theorem native_code_is_given_up_for_good {p : Program} {events : List Event}
    {left : Option State} (session : Session p events left) :
    (∀ e ∈ events, ∃ f, p.function e.function = .ok f)
      ∧ (∀ i f, p.function i = .ok f → Disciplined p f (eventsOf i events)
        ∧ ∀ s, left = some s → (∃ e ∈ eventsOf i events, e.GivesUp f) →
            (s.natives.get i).disabled = true ∧ (s.natives.get i).code = none)
      ∧ ∀ s, left = some s → ∀ env : Environment, env.program = p →
          (∀ fuel, (s.consult env.config p (env.compiler.map (·.answers fuel))).2.getD .outOfFuel
            = s.step env fuel)
          ∧ ∀ fuel entry t result, s.run env fuel entry = some (t, result) →
              Session p (events ++ (s.entering entry).transcript env fuel) (some t) := by
  refine ⟨session.functions, ?_, ?_⟩
  · intro i f function
    obtain ⟨disciplined, recorded⟩ := session.recorded function
    refine ⟨disciplined, fun s here => ?_⟩
    rintro ⟨e, member, givesUp⟩
    have disabled := (recorded s here).givenUp e member givesUp
    exact ⟨disabled, (recorded s here).bare disabled⟩
  · rintro s rfl env rfl
    exact ⟨fun fuel => State.consult_eq_step env fuel s,
      fun fuel entry t result run => session.after_run run⟩

/-! The compiler compiles everything to code that fails. A program that calls a function three
times is run twice, with a threshold of one call. -/

namespace Unreliable

def callee : LinkedFunction := ⟨"Nothing", ⟨0, 0, 0, 0, 0, #[⟨.ret, none⟩]⟩, [], .void⟩

def main : LinkedFunction :=
  ⟨"Main", ⟨0, 0, 0, 0, 0,
    #[⟨.call, some 1⟩, ⟨.call, some 1⟩, ⟨.call, some 1⟩, ⟨.ret, none⟩]⟩, [], .void⟩

def program : Program :=
  ⟨#[], #[main, callee], #[], ⟨[("Main", 0), ("Nothing", 1)]⟩, .empty⟩

def code : NativeCode := ⟨0, fun _ _ h => some (h, .error .stackUnderflow)⟩

def compiler : Compiler := ⟨fun _ _ => (true, []), fun _ _ => (.ok code, [])⟩

def environment : Environment := ⟨{ jitThreshold := 1 }, some compiler, program⟩

def start : State := .start {} .working (.empty none)

def after : State := { start with natives := #[.fresh, ⟨2, none, true⟩] }

def events : List Event :=
  (start.entering main).transcript environment 9 ++ (after.entering main).transcript environment 9

theorem runs : start.run environment 9 main = some (after, .ok .returned)
    ∧ after.run environment 9 main = some (after, .ok .returned) := by
  constructor <;> rfl

theorem is_asked_about_once :
    Session program events (some after)
      ∧ events.map (fun e => (e.isCall, e.isCompile, e.isInvoke))
        = [(true, false, false), (true, false, false), (false, false, false),
          (false, true, false), (false, false, true), (true, false, false), (true, false, false),
          (true, false, false), (true, false, false)]
      ∧ Disciplined program callee (eventsOf 1 events)
      ∧ (after.natives.get 1).disabled = true ∧ (after.natives.get 1).code = none := by
  have fresh : Session program [] (some start) := .fresh fun i => rfl
  have once := ((native_code_is_given_up_for_good fresh).2.2 start rfl environment rfl).2 9 main
    after (.ok .returned) runs.1
  have twice := ((native_code_is_given_up_for_good once).2.2 after rfl environment rfl).2 9 main
    after (.ok .returned) runs.2
  have session : Session program events (some after) := twice
  obtain ⟨disciplined, given⟩ :=
    (native_code_is_given_up_for_good session).2.1 1 callee rfl
  have failed : ∃ e ∈ eventsOf 1 events, e.GivesUp callee := by
    refine ⟨⟨1, 1, some ⟨.invoke code [] start.heap, some (start.heap, .error .stackUnderflow)⟩⟩,
      ?_, _, rfl, .failed⟩
    exact List.mem_of_getElem? (i := 4) rfl
  exact ⟨session, rfl, disciplined, given after rfl failed⟩

end Unreliable

end StackMachine
