import Mathlib
import StackMachine.Proofs.Runs

/-! # What a machine asks its compiler

A step may ask the compiler whether it can compile a function, ask it to compile it, and call the
code that was made of it. Here these questions are written down one by one, so that any answers
can be given: other ones each time, or none at all. With the answers of a compiler, the dialogue
is the step.
-/

namespace StackMachine

/-! ## Questions and answers -/

inductive Question where
  | canCompile (p : Program) (f : LinkedFunction)
  | compile (p : Program) (f : LinkedFunction)
  | invoke (code : NativeCode) (words : List Int64) (h : Heap)

abbrev Question.Answer : Question → Type
  | .canCompile _ _ => Bool × List LogEntry
  | .compile _ _ => Except NativeError NativeCode × List LogEntry
  | .invoke _ _ _ => Heap × Except NativeError Int64

/-- Answers to all questions; one that is missing never comes. -/
abbrev Answers := (q : Question) → Option q.Answer

structure Exchange where
  question : Question
  answer : Option question.Answer

/-- A computation that asks questions and goes on with the answers. -/
inductive Talk (α : Type) where
  | done (a : α)
  | ask (q : Question) (rest : q.Answer → Talk α)

namespace Talk

variable {α β : Type}

def bind : Talk α → (α → Talk β) → Talk β
  | .done a, next => next a
  | .ask q rest, next => .ask q fun answer => (rest answer).bind next

/-- What is asked, in order, and what comes of it; nothing, if an answer is missing. -/
def answered (answers : Answers) : Talk α → List Exchange × Option α
  | .done a => ([], some a)
  | .ask q rest =>
      match answers q with
      | none => ([⟨q, none⟩], none)
      | some answer =>
          (⟨q, some answer⟩ :: ((rest answer).answered answers).1,
            ((rest answer).answered answers).2)

theorem answered_bind (answers : Answers) (talk : Talk α) (next : α → Talk β) :
    (talk.bind next).answered answers =
      match (talk.answered answers).2 with
      | none => ((talk.answered answers).1, none)
      | some a =>
          ((talk.answered answers).1 ++ ((next a).answered answers).1,
            ((next a).answered answers).2) := by
  induction talk with
  | done a => rfl
  | ask q rest ih =>
      simp only [bind, answered]
      cases answers q with
      | none => rfl
      | some answer =>
          simp only [ih answer]
          cases ((rest answer).answered answers).2 <;> rfl

end Talk

/-- A compiler gives the same answer each time. Code that does not come to an end within the fuel
gives none. -/
def Compiler.answers (c : Compiler) (fuel : Nat) : Answers
  | .canCompile p f => some (c.canCompile p f)
  | .compile p f => some (c.compile p f)
  | .invoke code words h => code.invoke fuel words h

/-! ## The questions of a call -/

def Compiler.giving (able : Bool × List LogEntry)
    (compiled : Except NativeError NativeCode × List LogEntry) : Compiler :=
  ⟨fun _ _ => able, fun _ _ => compiled⟩

def NativeCode.giving (arity : Nat) (answer : Heap × Except NativeError Int64) : NativeCode :=
  ⟨arity, fun _ _ _ => some answer⟩

namespace State

def compileTalk (p : Program) (s : State) (index : Nat) (f : LinkedFunction) :
    Talk (State × Option NativeCode) :=
  .ask (.canCompile p f) fun able =>
    if able.1 then
      .ask (.compile p f) fun compiled =>
        .done (s.compileNative ⟨{}, none, p⟩ (.giving able compiled) index f)
    else
      .done (s.compileNative ⟨{}, none, p⟩ (.giving able (.error .stackUnderflow, [])) index f)

def codeTalk (config : Config) (p : Program) (s : State) (index : Nat) (f : LinkedFunction) :
    Talk (State × Option NativeCode) :=
  let status := s.natives.get index
  if status.disabled then .done (s, none)
  else
    let s := s.setNative index status.recordCall
    if status.recordCall.calls ≤ config.jitThreshold then .done (s, none)
    else
      match status.code with
      | some code => .done (s, some code)
      | none => s.compileTalk p index f

def invokeTalk (s : State) (index : Nat) (f : LinkedFunction) (code : NativeCode)
    (args : List Value) : Talk NativeCall :=
  match nativeArguments s.heap f.params args with
  | none => .done (.unavailable s)
  | some words =>
      .ask (.invoke code words s.heap) fun answer =>
        .done (s.invokeNative 0 index f (.giving code.arity answer) args)

def tryTalk (config : Config) (p : Program) (s : State) (index : Nat) (f : LinkedFunction)
    (args : List Value) : Talk NativeCall :=
  (s.codeTalk config p index f).bind fun found =>
    match found.2 with
    | none => .done (.unavailable found.1)
    | some code => found.1.invokeTalk index f code args

section Answered

variable {config : Config} {c : Compiler} {p : Program} {fuel : Nat} {s : State} {index : Nat}
  {f : LinkedFunction} {args : List Value}

theorem answered_compileTalk :
    ((s.compileTalk p index f).answered (c.answers fuel)).2
      = some (s.compileNative ⟨config, some c, p⟩ c index f) := by
  unfold compileTalk
  simp only [Talk.answered, Compiler.answers]
  cases able : (c.canCompile p f).1 with
  | true =>
      simp only [if_true, Talk.answered, Compiler.answers, compileNative, Compiler.giving, able]
  | false =>
      simp only [Bool.false_eq_true, if_false, Talk.answered, compileNative, Compiler.giving, able]

theorem answered_codeTalk :
    ((s.codeTalk config p index f).answered (c.answers fuel)).2
      = some (s.nativeCode ⟨config, some c, p⟩ index f) := by
  simp only [codeTalk, nativeCode]
  split
  · rfl
  · split
    · rfl
    · have kept : (s.natives.get index).recordCall.code = (s.natives.get index).code := rfl
      rw [kept]
      cases (s.natives.get index).code with
      | some code => rfl
      | none => exact answered_compileTalk

theorem answered_invokeTalk {code : NativeCode} :
    ((s.invokeTalk index f code args).answered (c.answers fuel)).2.getD .outOfFuel
      = s.invokeNative fuel index f code args := by
  unfold invokeTalk
  cases words : nativeArguments s.heap f.params args with
  | none => simp only [Talk.answered, Option.getD_some, invokeNative, words]
  | some words' =>
      simp only [Talk.answered, Compiler.answers]
      cases answer : code.invoke fuel words' s.heap with
      | none => simp only [Option.getD_none, invokeNative, words, answer]
      | some answer' =>
          simp only [Option.getD_some, invokeNative, words, answer, NativeCode.giving]

/-- With the answers of a compiler, the dialogue of a call is the attempt to call native code. -/
theorem answered_tryTalk :
    ((s.tryTalk config p index f args).answered (c.answers fuel)).2.getD .outOfFuel
      = s.tryNative ⟨config, some c, p⟩ fuel index f args := by
  unfold tryTalk tryNative
  rw [Talk.answered_bind, answered_codeTalk]
  obtain ⟨t, code⟩ := s.nativeCode ⟨config, some c, p⟩ index f
  cases code with
  | none => rfl
  | some code => exact answered_invokeTalk

end Answered

end State

/-! ## The dialogue of a step -/

/-- A call that has passed all checks before native code is tried. -/
structure CallRequest where
  index : Nat
  function : LinkedFunction
  /-- The topmost operand comes first. -/
  args : List Value
  /-- The calling frame, without the arguments. -/
  caller : Frame
  callers : CallStack
  /-- The state, with the instruction logged. -/
  state : State

def CallRequest.conclude (r : CallRequest) : NativeCall → StepResult
  | .outOfFuel => .outOfFuel
  | .returned none s => .next { s with frames := r.caller :: r.callers }
  | .returned (some v) s => .next (s.withFrame (r.caller.push v) r.callers)
  | .unavailable s =>
      .next { s with frames := Frame.enter r.function r.args :: r.caller :: r.callers }

namespace State

def callRequest? (config : Config) (p : Program) (s : State) : Option CallRequest :=
  match s.frames with
  | [] => none
  | frame :: callers =>
      match frame.fetch? with
      | none => none
      | some i =>
          if i.opcode = .call then
            match p.function i.arg with
            | .error _ => none
            | .ok f =>
                match ({ frame with pc := frame.pc + 1 } : Frame).require "CALL" f.arity with
                | .error _ => none
                | .ok () =>
                    if callers.length + 1 ≥ config.maxCallDepth then none
                    else
                      some ⟨i.arg, f, frame.operands.take f.arity,
                        { frame with pc := frame.pc + 1, operands := frame.operands.drop f.arity },
                        callers, s.note .trace fun _ => s!"{frame.context}: {i.text}"⟩
          else none

def stepTalk (config : Config) (p : Program) (s : State) : Talk StepResult :=
  match s.callRequest? config p with
  | none => .done (s.step ⟨config, none, p⟩ 0)
  | some r =>
      (r.state.tryTalk config p r.index r.function r.args.reverse).bind fun call =>
        .done (r.conclude call)

section Step

variable {config : Config} {p : Program} {s : State} {r : CallRequest}

/-- The next instruction is a call that passes all checks, and this is its request. -/
structure Requests (config : Config) (p : Program) (s : State) (r : CallRequest) (frame : Frame)
    (i : Instruction) : Prop where
  frames : s.frames = frame :: r.callers
  fetched : frame.fetch? = some i
  opcode : i.opcode = .call
  index : i.arg = r.index
  function : p.function r.index = .ok r.function
  enough : ({ frame with pc := frame.pc + 1 } : Frame).require "CALL" r.function.arity = .ok ()
  shallow : ¬ r.callers.length + 1 ≥ config.maxCallDepth
  args : r.args = frame.operands.take r.function.arity
  caller : r.caller
    = { frame with pc := frame.pc + 1, operands := frame.operands.drop r.function.arity }
  state : r.state = s.note .trace fun _ => s!"{frame.context}: {i.text}"

theorem requests_of_callRequest (request : s.callRequest? config p = some r) :
    ∃ frame i, s.Requests config p r frame i := by
  unfold callRequest? at request
  split at request
  · cases request
  · rename_i frame callers frames
    split at request
    · cases request
    · rename_i i fetched
      split at request
      · rename_i opcode
        split at request
        · cases request
        · rename_i f function
          split at request
          · cases request
          · rename_i enough
            split at request
            · cases request
            · rename_i shallow
              cases request
              exact ⟨frame, i, frames, fetched, opcode, rfl, function, enough, shallow, rfl, rfl,
                rfl⟩
      · cases request

theorem function_of_callRequest (request : s.callRequest? config p = some r) :
    p.function r.index = .ok r.function := by
  obtain ⟨frame, i, requests⟩ := requests_of_callRequest request
  exact requests.function

theorem natives_of_callRequest (request : s.callRequest? config p = some r) :
    r.state.natives = s.natives := by
  obtain ⟨frame, i, requests⟩ := requests_of_callRequest request
  rw [requests.state]
  rfl

theorem step_of_callRequest (compiler : Option Compiler) (fuel : Nat)
    (request : s.callRequest? config p = some r) :
    s.step ⟨config, compiler, p⟩ fuel
      = r.conclude
          (r.state.tryNative ⟨config, compiler, p⟩ fuel r.index r.function r.args.reverse) := by
  obtain ⟨frame, i, requests⟩ := requests_of_callRequest request
  rw [step_of_fetch requests.frames requests.fetched]
  simp only [execute, requests.opcode, call, requests.index, requests.function, requests.enough,
    List.length_cons, if_neg requests.shallow, ← requests.args, ← requests.caller,
    ← requests.state]
  cases r.state.tryNative ⟨config, compiler, p⟩ fuel r.index r.function r.args.reverse with
  | returned value t => cases value <;> rfl
  | unavailable t => rfl
  | outOfFuel => rfl

/-- Only a call depends on the compiler. -/
theorem execute_of_other {compiler : Option Compiler} {fuel : Nat} {frame : Frame}
    {callers : CallStack} {i : Instruction} (other : i.opcode ≠ .call) :
    s.execute ⟨config, compiler, p⟩ fuel frame callers i
      = s.execute ⟨config, none, p⟩ 0 frame callers i := by
  cases opcode : i.opcode with
  | call => exact absurd opcode other
  | _ => simp only [execute, opcode]

/-- A call that fails one of its checks does not depend on it either. -/
theorem call_of_no_request {compiler : Option Compiler} {fuel : Nat} {frame : Frame}
    {callers : CallStack} {index : Nat}
    (deep : ∀ f, p.function index = .ok f → frame.require "CALL" f.arity = .ok () →
      callers.length + 1 ≥ config.maxCallDepth) :
    s.call ⟨config, compiler, p⟩ fuel frame callers index
      = s.call ⟨config, none, p⟩ 0 frame callers index := by
  cases function : p.function index with
  | error fault => simp only [call, function]
  | ok f =>
      cases enough : frame.require "CALL" f.arity with
      | error fault => simp only [call, function, enough]
      | ok done =>
          have exceeded := deep f function enough
          simp only [call, function, enough, List.length_cons, if_pos exceeded]

/-- A step that does not come to a call does not depend on the compiler. -/
theorem step_of_no_callRequest (compiler : Option Compiler) (fuel : Nat)
    (none : s.callRequest? config p = none) :
    s.step ⟨config, compiler, p⟩ fuel = s.step ⟨config, .none, p⟩ 0 := by
  cases frames : s.frames with
  | nil => simp only [step, frames]
  | cons frame callers =>
      cases fetched : frame.fetch? with
      | none => simp only [step, frames, fetched]
      | some i =>
          rw [step_of_fetch frames fetched, step_of_fetch frames fetched]
          by_cases opcode : i.opcode = .call
          · simp only [execute, opcode]
            refine call_of_no_request ?_
            intro f function enough
            by_contra shallow
            simp [callRequest?, frames, fetched, opcode, function, enough, shallow] at none
          · exact execute_of_other opcode

/-- With the answers of a compiler, the dialogue of a step is the step. -/
theorem answered_stepTalk (c : Compiler) (fuel : Nat) :
    ((s.stepTalk config p).answered (c.answers fuel)).2.getD .outOfFuel
      = s.step ⟨config, some c, p⟩ fuel := by
  unfold stepTalk
  cases request : s.callRequest? config p with
  | none => exact (step_of_no_callRequest (some c) fuel request).symm
  | some r =>
      rw [step_of_callRequest (some c) fuel request, ← answered_tryTalk]
      dsimp only
      rw [Talk.answered_bind]
      cases ((r.state.tryTalk config p r.index r.function r.args.reverse).answered
        (c.answers fuel)).2 <;> rfl

end Step

end State

end StackMachine
