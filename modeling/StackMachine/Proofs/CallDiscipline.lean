import Mathlib
import StackMachine.Proofs.CallStacks

/-! # Calls and returns

While a call runs, its caller is suspended just past the call and no frame from the caller down
changes. When the depth is again that of the caller, the callee has handed on what its result
type says, and nothing else has happened to the caller.
-/

namespace StackMachine

theorem CallStack.length_receive (callers : CallStack) (value : Option Value) :
    (CallStack.receive callers value).length = callers.length := by
  cases callers with
  | nil => cases value <;> rfl
  | cons caller rest => cases value <;> rfl

theorem Frame.receive_resume (frame : Frame) (arity : Nat) (callers : CallStack)
    (value : Option Value) :
    CallStack.receive (frame.resume arity none :: callers) value
      = frame.resume arity value :: callers := by
  cases value <;> rfl

/-! ## Inside a call -/

/-- A call of the function is under way, on top of the frames that wait for it. -/
def CallStack.Running (f : LinkedFunction) (below stack : CallStack) : Prop :=
  ∃ (inner : CallStack) (callee : Frame), stack = inner ++ callee :: below ∧ callee.function = f

/-- A call of the function is over: the frames that waited for it have what it hands on. -/
def CallStack.Answered (f : LinkedFunction) (below stack : CallStack) : Prop :=
  ∃ value, f.HandsOn value ∧ stack = CallStack.receive below value

namespace CallStack.Running

variable {env : Environment} {f : LinkedFunction} {below stack after : CallStack}

theorem length_lt (running : Running f below stack) : below.length < stack.length := by
  obtain ⟨inner, callee, rfl, _⟩ := running
  rw [List.length_append, List.length_cons]
  omega

theorem receive (running : Running f below stack) (value : Option Value) :
    Running f below (CallStack.receive stack value) := by
  cases value with
  | none => rwa [CallStack.receive_none]
  | some v =>
      obtain ⟨inner, callee, rfl, function⟩ := running
      cases inner with
      | nil => exact ⟨[], callee.push v, rfl, function⟩
      | cons innermost rest => exact ⟨innermost.push v :: rest, callee, rfl, function⟩

/-- A frame on top of the callee comes, works and goes without an effect on what is below. -/
theorem moves_inside {innermost : Frame} {rest : CallStack} (running : Running f below rest)
    (moves : Moves env (innermost :: rest) after) : Running f below after := by
  have covered : ∀ frame : Frame, Running f below (frame :: rest) := by
    obtain ⟨inner, callee, shape, function⟩ := running
    intro frame
    exact ⟨frame :: inner, callee, by rw [shape, List.cons_append], function⟩
  cases moves with
  | works => exact covered _
  | answers => exact covered _
  | enters =>
      obtain ⟨inner, callee, shape, function⟩ := covered (innermost.resume _ none)
      exact ⟨_ :: inner, callee, by rw [shape, List.cons_append], function⟩
  | leaves => exact running.receive _

/-- A step inside a call leaves the call running, or it is the return from it. -/
theorem moves (running : Running f below stack) (moves : Moves env stack after) :
    Running f below after ∨ Answered f below after := by
  obtain ⟨inner, callee, rfl, function⟩ := running
  cases inner with
  | cons innermost rest =>
      have suspended : Running f below (rest ++ callee :: below) := ⟨rest, callee, rfl, function⟩
      exact .inl (suspended.moves_inside moves)
  | nil =>
      cases moves with
      | works _ _ same => exact .inl ⟨[], _, rfl, same.trans function⟩
      | answers => exact .inl ⟨[], _, rfl, function⟩
      | enters => exact .inl ⟨[_], _, rfl, function⟩
      | leaves _ _ hands =>
          rw [function] at hands
          exact .inr ⟨_, hands, rfl⟩

end CallStack.Running

/-- Up to the first state that is as deep as the caller the call runs, and that state is the one
in which the callee has handed on its result. -/
theorem StepsIn.running {env : Environment} {f : LinkedFunction} {below : CallStack} {n : Nat}
    {t u : State} (chain : StepsIn env (·.frames.length ≠ below.length) n t u)
    (entered : CallStack.Running f below t.frames ∨ CallStack.Answered f below t.frames) :
    CallStack.Running f below u.frames ∨ CallStack.Answered f below u.frames := by
  induction chain with
  | refl t => exact entered
  | head deeper first _ ih =>
      refine ih ?_
      rcases entered with running | ⟨value, _, returned⟩
      · exact running.moves (State.moves_of_step first)
      · rw [returned, CallStack.length_receive] at deeper
        exact absurd rfl deeper

/-! ## From a call to its return -/

section

variable {env : Environment} {fuel : Nat} {s t : State} {frame : Frame} {callers : CallStack}
  {i : Instruction}

/-- A call is made by native code, or a frame is entered on top of the suspended caller. -/
theorem State.call_of_step (frames : s.frames = frame :: callers) (fetched : frame.fetch? = some i)
    (call : i.opcode = .call) (next : s.step env fuel = .next t) :
    ∃ f, env.program.function i.arg = .ok f ∧ f.arity ≤ frame.operands.length ∧
      ((∃ value, f.HandsOn value ∧ t.frames = frame.resume f.arity value :: callers)
        ∨ t.frames = Frame.enter f (frame.operands.take f.arity)
            :: frame.resume f.arity none :: callers) := by
  have moves := State.moves_of_step next
  rw [frames] at moves
  generalize reached : t.frames = after at moves
  cases moves with
  | works fetched' other =>
      rw [fetched] at fetched'
      cases fetched'
      exact absurd call other
  | leaves fetched' ret =>
      rw [fetched] at fetched'
      cases fetched'
      rw [call] at ret
      cases ret
  | enters fetched' _ found enough =>
      rw [fetched] at fetched'
      cases fetched'
      exact ⟨_, found, enough, .inr rfl⟩
  | answers fetched' _ found enough hands =>
      rw [fetched] at fetched'
      cases fetched'
      exact ⟨_, found, enough, .inl ⟨_, hands, rfl⟩⟩

end

/-- A call takes its arguments off the caller, in their order, and an interpreted callee starts
with them, at its first instruction and with unset locals. From then on, up to the first state
that is as deep as the caller, the caller waits just past the call and nothing below the callee
changes. In that state the caller has got one value of the callee's result type, or nothing from
a callee without a result; so every frame is as if the call had been one instruction. -/
theorem calls_return_to_their_caller (env : Environment) (fuel : Nat) (s t : State)
    (frame : Frame) (callers : CallStack) (i : Instruction)
    (frames : s.frames = frame :: callers) (fetched : frame.fetch? = some i)
    (call : i.opcode = .call) (next : s.step env fuel = .next t) :
    ∃ f, env.program.function i.arg = .ok f ∧ f.arity ≤ frame.operands.length ∧
      ((∃ value, f.HandsOn value ∧ t.frames = frame.resume f.arity value :: callers)
        ∨ t.frames
            = ⟨f, 0, Array.replicate f.locals (.ofInt .i32 0), frame.operands.take f.arity⟩
              :: frame.resume f.arity none :: callers) ∧
      ∀ n u, StepsIn env (·.frames.length ≠ s.frames.length) n t u →
        (u.frames.length ≠ s.frames.length →
          ∃ (inner : CallStack) (callee : Frame), callee.function = f
            ∧ u.frames = inner ++ callee :: frame.resume f.arity none :: callers) ∧
        (u.frames.length = s.frames.length →
          ∃ value, f.HandsOn value ∧ u.frames = frame.resume f.arity value :: callers) := by
  obtain ⟨f, found, enough, made⟩ := State.call_of_step frames fetched call next
  refine ⟨f, found, enough, made, ?_⟩
  intro n u chain
  have depth : s.frames.length = (frame.resume f.arity none :: callers).length := by
    rw [frames, List.length_cons, List.length_cons]
  rw [depth] at chain ⊢
  have reached : CallStack.Running f (frame.resume f.arity none :: callers) u.frames
      ∨ CallStack.Answered f (frame.resume f.arity none :: callers) u.frames := by
    refine chain.running ?_
    rcases made with ⟨value, hands, answered⟩ | entered
    · exact .inr ⟨value, hands, by rw [answered, Frame.receive_resume]⟩
    · exact .inl ⟨[], _, entered, rfl⟩
  rcases reached with running | ⟨value, hands, returned⟩
  · have deeper := running.length_lt
    obtain ⟨inner, callee, shape, function⟩ := running
    exact ⟨fun _ => ⟨inner, callee, function, shape⟩, fun same => absurd same (by omega)⟩
  · have same := congrArg List.length returned
    rw [CallStack.length_receive] at same
    rw [Frame.receive_resume] at returned
    exact ⟨fun other => absurd same other, fun _ => ⟨value, hands, returned⟩⟩

namespace Pick

def pick : LinkedFunction :=
  ⟨"Pick", ⟨0, 0, 0, 0, 3, #[⟨.ret, none⟩]⟩, [.int .i32, .int .i32], .int .i32⟩

def asking : LinkedFunction :=
  ⟨"Ask", ⟨0, 0, 0, 0, 1, #[⟨.dup, none⟩, ⟨.call, some 0⟩, ⟨.ret, none⟩]⟩, [], .int .i32⟩

def environment : Environment :=
  ⟨{}, none, ⟨#[], #[pick, asking], #[], ⟨[("Pick", 0), ("Ask", 1)]⟩, .empty⟩⟩

def number (n : Int) : Value := .ofInt .i32 n

def caller : Frame := ⟨asking, 1, #[number 5], [number 8, number 7, number 9]⟩

def outer : Frame := ⟨asking, 2, #[.unset], [number 3]⟩

def state (frames : CallStack) : State :=
  { State.start environment.config .working (.empty none) with frames := frames }

def calling : State := state [caller, outer]

def entered : State :=
  state [Frame.enter pick [number 8, number 7], caller.resume 2 none, outer]

def returned : State := state [⟨asking, 2, #[number 5], [number 8, number 9]⟩, outer]

theorem returns_to_its_caller :
    calling.step environment 0 = .next entered
      ∧ StepsIn environment (·.frames.length ≠ calling.frames.length) 1 entered returned
      ∧ ∃ f value, environment.program.function 0 = .ok f ∧ f.HandsOn value
          ∧ returned.frames = caller.resume f.arity value :: [outer] := by
  have call : calling.step environment 0 = .next entered := rfl
  have ret : entered.step environment 0 = .next returned := rfl
  have chain : StepsIn environment (·.frames.length ≠ calling.frames.length) 1 entered returned :=
    .head (by decide) ret (.refl returned)
  obtain ⟨f, found, _, _, later⟩ := calls_return_to_their_caller environment 0 calling entered
    caller [outer] ⟨.call, some 0⟩ rfl rfl rfl call
  obtain ⟨value, hands, frames⟩ := (later 1 returned chain).2 rfl
  exact ⟨call, chain, f, value, found, hands, frames⟩

end Pick

end StackMachine
