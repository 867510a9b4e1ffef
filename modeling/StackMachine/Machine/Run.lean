import StackMachine.Machine.Step

/-! # Runs

A run starts with one frame and makes steps until no frame is left, the program halts or a step
fails. It is given fuel; a run that does not end within its fuel has no result. A failure is
reported with the frames that were active, which are then dropped.
-/

namespace StackMachine

inductive Outcome where
  | returned
  | halted (code : Int)
  deriving DecidableEq, Repr

def Outcome.describe : Outcome → String
  | .returned => "Returned"
  | .halted code => s!"Halted({code})"

/-- A fault and the contexts of the frames that were active, the outermost first. -/
structure RuntimeError where
  fault : Fault
  callStack : List String
  deriving DecidableEq, Repr

namespace RuntimeError

def message (e : RuntimeError) : String := e.fault.message

/-- The fault, and a line for each frame, the innermost first. -/
def text (e : RuntimeError) : String :=
  let lines := e.callStack.reverse.zipIdx.map fun (frame, i) => s!"\n    {i}: {frame}"
  s!"runtime error: {e.message}"
    ++ (if e.callStack.isEmpty then "" else "\n  call stack:" ++ String.join lines)

end RuntimeError

/-- How the steps of a run ended. -/
inductive Execution where
  | ended (outcome : Outcome) (s : State)
  | failed (fault : Fault) (s : State)

/-- Makes steps until the run ends. -/
def State.runSteps (env : Environment) : Nat → State → Option Execution
  | 0, _ => none
  | fuel + 1, s =>
      match s.frames with
      | [] => some (.ended .returned s)
      | _ :: _ =>
          match s.step env fuel with
          | .next s => s.runSteps env fuel
          | .halted code s => some (.ended (.halted code) s)
          | .failed fault s => some (.failed fault s)
          | .outOfFuel => none

def Execution.conclude : Execution → State × Except RuntimeError Outcome
  | .ended outcome s => (s, .ok outcome)
  | .failed fault s => ({ s with frames := [] }, .error ⟨fault, CallStack.backtrace s.frames⟩)

/-- Flushes the console: if that fails, the failure is the result of the run. -/
def State.flush (s : State) (result : Except RuntimeError Outcome) :
    Except RuntimeError Outcome :=
  match s.console.flushError with
  | some reason => .error ⟨.io reason, []⟩
  | none => result

/-- Runs a function without arguments. -/
def State.run (env : Environment) (fuel : Nat) (s : State) (entry : LinkedFunction) :
    Option (State × Except RuntimeError Outcome) :=
  match ({ s with frames := [Frame.enter entry []] } : State).runSteps env fuel with
  | none => none
  | some execution =>
      let (s, result) := execution.conclude
      match s.flush result with
      | .error e => some (s, .error e)
      | .ok outcome =>
          let s := s.note .info fun _ =>
            s!"{entry.name} finished: {outcome.describe} ({s.heap.live} live objects, {s.heap.collections} collections)"
          some (s, .ok outcome)

end StackMachine
