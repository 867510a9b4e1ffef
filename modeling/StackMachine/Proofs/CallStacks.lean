import StackMachine.Proofs.Runs

/-! # What a step does to the call stack

A step works in the innermost frame, enters a function, takes what native code hands on, or leaves
the innermost frame. Whatever a compiler and its code do, they reach the call stack through the
one result that a call can have. A step that fails leaves every frame where it is, but for the
innermost one, which has gone past the instruction. A run leaves no frame.
-/

namespace StackMachine

/-! ## What calls hand on -/

/-- What a call of the function hands on: nothing, or one value of the result type. -/
def LinkedFunction.HandsOn (f : LinkedFunction) : Option Value → Prop
  | none => f.result.isVoid = true
  | some v => f.result.isVoid = false ∧ f.result.admits v = true

@[simp] theorem CallStack.receive_none (callers : CallStack) :
    CallStack.receive callers none = callers := by
  cases callers <;> rfl

theorem Value.admits_of_ofLane? {word : Int64} {d : Descriptor} {v : Value}
    (stands : Value.ofLane? word d = some v) : d.admits v = true := by
  cases d with
  | int kind =>
      cases stands
      simp [Descriptor.admits, Value.ofInt]
  | bool | array _ | record _ =>
      cases stands
      rfl
  | string | void => cases stands

theorem Frame.handsOn_of_returnValue {frame : Frame} {value : Option Value}
    (returned : frame.returnValue = .ok value) : frame.function.HandsOn value := by
  unfold Frame.returnValue LinkedFunction.returnsValue at returned
  cases void : frame.function.result.isVoid with
  | true =>
      simp only [void, Bool.not_true, Bool.false_eq_true, if_false] at returned
      cases returned
      exact void
  | false =>
      simp only [void, Bool.not_false, if_true] at returned
      unfold Frame.pop at returned
      cases operands : frame.operands with
      | nil =>
          rw [operands] at returned
          cases returned
      | cons v rest =>
          simp only [operands, bind, Except.bind] at returned
          split at returned
          · rename_i admitted
            cases returned
            exact ⟨void, admitted⟩
          · cases returned

theorem State.handsOn_of_tryNative {env : Environment} {fuel : Nat} {s t : State} {index : Nat}
    {f : LinkedFunction} {args : List Value} {value : Option Value}
    (returned : s.tryNative env fuel index f args = .returned value t) : f.HandsOn value := by
  unfold State.tryNative at returned
  split at returned
  · cases returned
  · unfold State.invokeNative at returned
    split at returned
    · cases returned
    · split at returned
      · cases returned
      · dsimp only at returned
        split at returned
        · rename_i void
          cases returned
          exact void
        · rename_i solid
          split at returned
          · rename_i stands
            cases returned
            exact ⟨by simpa using solid, Value.admits_of_ofLane? stands⟩
          · cases returned
      · cases returned

/-! ## Work in a frame -/

def Frame.StaysIn (f : LinkedFunction) (result : Except Fault Frame) : Prop :=
  ∀ after, result = .ok after → after.function = f

namespace Frame.StaysIn

variable {f : LinkedFunction}

theorem ok {frame : Frame} (same : frame.function = f) : StaysIn f (.ok frame) := by
  intro after made
  cases made
  exact same

theorem bind {α : Type} {x : Except Fault α} {k : α → Except Fault Frame}
    (rest : ∀ a, x = .ok a → StaysIn f (k a)) : StaysIn f (x >>= k) := by
  cases x with
  | error fault => exact nofun
  | ok a => exact rest a rfl

theorem jump (frame : Frame) (target : Nat) : StaysIn frame.function (frame.jump target) := by
  unfold Frame.jump
  split
  · exact .ok rfl
  · exact nofun

end Frame.StaysIn

namespace Frame

variable {frame after : Frame} {operation : String}

theorem function_of_pop {v : Value} (popped : frame.pop operation = .ok (v, after)) :
    after.function = frame.function := by
  unfold pop at popped
  split at popped <;> cases popped
  rfl

theorem function_of_pop2 {a b : Value} (popped : frame.pop2 operation = .ok (a, b, after)) :
    after.function = frame.function := by
  unfold pop2 at popped
  split at popped <;> cases popped
  rfl

theorem staysIn_branch (frame : Frame) (operation : String) (onFalsy : Bool) (target : Nat) :
    StaysIn frame.function (frame.branch operation onFalsy target) := by
  refine .bind ?_
  rintro ⟨condition, after⟩ popped
  have same := function_of_pop popped
  dsimp only
  split
  · exact nofun
  · split
    · rw [← same]
      exact .jump after target
    · exact .ok same

theorem staysIn_execute (p : Program) (frame : Frame) (i : Instruction) :
    StaysIn frame.function (frame.execute p i) := by
  unfold Frame.execute
  cases i.opcode with
  | ldc | ldv | dup => exact .bind fun _ _ => .ok rfl
  | store =>
      refine .bind ?_
      rintro ⟨v, after⟩ popped
      have same := function_of_pop popped
      dsimp only [Frame.storeLocal]
      split
      · exact .ok same
      · exact nofun
  | swap =>
      refine .bind ?_
      rintro ⟨a, b, after⟩ popped
      have same := function_of_pop2 popped
      exact .ok same
  | binary op =>
      refine .bind ?_
      rintro ⟨a, b, after⟩ popped
      have same := function_of_pop2 popped
      exact .bind fun _ _ => .ok same
  | unary op =>
      refine .bind ?_
      rintro ⟨a, after⟩ popped
      have same := function_of_pop popped
      exact .bind fun _ _ => .ok same
  | jmp => exact .jump frame i.arg
  | jz => exact staysIn_branch frame _ _ _
  | jnz => exact staysIn_branch frame _ _ _
  | _ => exact .ok rfl

theorem staysIn_loadOperands (h : Heap) (frame : Frame) :
    StaysIn frame.function (loadOperands h frame) := by
  refine .bind ?_
  rintro ⟨array, index, after⟩ popped
  have same := function_of_pop2 popped
  exact .bind fun _ _ => .bind fun _ _ => .ok same

end Frame

/-! ## Moves of the call stack -/

/-- The frame just past a call that has taken its arguments and handed on the value. -/
def Frame.resume (frame : Frame) (arity : Nat) (value : Option Value) : Frame :=
  { frame with pc := frame.pc + 1, operands := value.toList ++ frame.operands.drop arity }

inductive CallStack.Moves (env : Environment) : CallStack → CallStack → Prop where
  | works {frame after : Frame} {callers : CallStack} {i : Instruction}
      (fetched : frame.fetch? = some i) (other : i.opcode ≠ .call)
      (function : after.function = frame.function) :
      Moves env (frame :: callers) (after :: callers)
  | enters {frame : Frame} {callers : CallStack} {i : Instruction} {f : LinkedFunction}
      (fetched : frame.fetch? = some i) (call : i.opcode = .call)
      (found : env.program.function i.arg = .ok f) (enough : f.arity ≤ frame.operands.length)
      (shallow : callers.length + 1 < env.config.maxCallDepth) :
      Moves env (frame :: callers)
        (Frame.enter f (frame.operands.take f.arity) :: frame.resume f.arity none :: callers)
  /-- Native code has made the call. -/
  | answers {frame : Frame} {callers : CallStack} {i : Instruction} {f : LinkedFunction}
      {value : Option Value} (fetched : frame.fetch? = some i) (call : i.opcode = .call)
      (found : env.program.function i.arg = .ok f) (enough : f.arity ≤ frame.operands.length)
      (hands : f.HandsOn value) :
      Moves env (frame :: callers) (frame.resume f.arity value :: callers)
  | leaves {frame : Frame} {callers : CallStack} {i : Instruction} {value : Option Value}
      (fetched : frame.fetch? = some i) (ret : i.opcode = .ret)
      (hands : frame.function.HandsOn value) :
      Moves env (frame :: callers) (CallStack.receive callers value)

def StepResult.Tracks (env : Environment) (frame : Frame) (callers : CallStack) :
    StepResult → Prop
  | .next t => CallStack.Moves env (frame :: callers) t.frames
  | .halted _ t => t.frames = []
  | .failed _ t => ∃ after : Frame, t.frames = after :: callers ∧ after.function = frame.function
      ∧ after.pc = if frame.fetch?.isSome then frame.pc + 1 else frame.pc
  | .outOfFuel => True

section Steps

variable {env : Environment} {fuel : Nat} {s t : State} {frame : Frame} {callers : CallStack}
  {i : Instruction}

theorem StepResult.tracks_fails {after : Frame} {fault : Fault} (fetched : frame.fetch? = some i)
    (frames : t.frames = after :: callers) (function : after.function = frame.function)
    (past : after.pc = frame.pc + 1) :
    (StepResult.failed fault t).Tracks env frame callers := by
  refine ⟨after, frames, function, ?_⟩
  rw [fetched]
  exact past

namespace State

theorem tracks_continueWith (fetched : frame.fetch? = some i) (other : i.opcode ≠ .call)
    {result : Except Fault Frame} (stays : Frame.StaysIn frame.function result) :
    (s.continueWith { frame with pc := frame.pc + 1 } callers result).Tracks env frame callers := by
  cases result with
  | error fault => exact StepResult.tracks_fails fetched rfl rfl rfl
  | ok after => exact .works fetched other (stays after rfl)

theorem tracks_newArray (fetched : frame.fetch? = some i) (opcode : i.opcode = .newarr) :
    (s.newArray env.program { frame with pc := frame.pc + 1 } callers i.arg).Tracks env frame
      callers := by
  unfold newArray arrayRequest
  cases env.program.descriptor i.arg with
  | error fault => exact StepResult.tracks_fails fetched rfl rfl rfl
  | ok element =>
      unfold Frame.pop
      cases frame.operands with
      | nil => exact StepResult.tracks_fails fetched rfl rfl rfl
      | cons size rest =>
          simp only [bind, Except.bind]
          cases size.widen? with
          | none => exact StepResult.tracks_fails fetched rfl rfl rfl
          | some n =>
              dsimp only
              split
              · exact StepResult.tracks_fails fetched rfl rfl rfl
              · rename_i request
                split at request
                · cases request
                  simp only [allocate]
                  split
                  · exact StepResult.tracks_fails fetched rfl rfl rfl
                  · exact .works fetched (by simp [opcode]) rfl
                · cases request

theorem tracks_storeElement (fetched : frame.fetch? = some i) (opcode : i.opcode = .stelem) :
    (s.storeElement { frame with pc := frame.pc + 1 } callers).Tracks env frame callers := by
  unfold storeElement storeRequest Frame.pop3
  split
  · exact StepResult.tracks_fails fetched rfl rfl rfl
  · rename_i request
    split at request
    · simp only [bind, Except.bind] at request
      split at request
      · cases request
      · split at request
        · cases request
        · cases request
          exact .works fetched (by simp [opcode]) rfl
    · cases request

theorem tracks_print (fetched : frame.fetch? = some i) (opcode : i.opcode = .print) :
    (s.print { frame with pc := frame.pc + 1 } callers).Tracks env frame callers := by
  unfold print
  split
  · exact StepResult.tracks_fails fetched rfl rfl rfl
  · rename_i v after popped
    split
    · exact StepResult.tracks_fails fetched rfl rfl rfl
    · have same := Frame.function_of_pop popped
      exact .works fetched (by simp [opcode]) same

theorem tracks_ret (fetched : frame.fetch? = some i) (opcode : i.opcode = .ret) :
    (s.ret { frame with pc := frame.pc + 1 } callers).Tracks env frame callers := by
  unfold ret
  split
  · exact StepResult.tracks_fails fetched rfl rfl rfl
  · rename_i value returned
    have hands := Frame.handsOn_of_returnValue returned
    exact .leaves fetched opcode hands

theorem tracks_halt (fetched : frame.fetch? = some i) :
    (s.halt env.program { frame with pc := frame.pc + 1 } callers i.arg).Tracks env frame
      callers := by
  unfold halt
  split
  · exact StepResult.tracks_fails fetched rfl rfl rfl
  · exact rfl

theorem tracks_call (fetched : frame.fetch? = some i) (opcode : i.opcode = .call) (fuel : Nat) :
    (s.call env fuel { frame with pc := frame.pc + 1 } callers i.arg).Tracks env frame callers := by
  unfold call
  cases found : env.program.function i.arg with
  | error fault => exact StepResult.tracks_fails fetched rfl rfl rfl
  | ok f =>
      dsimp only
      unfold Frame.require
      split
      · exact StepResult.tracks_fails fetched rfl rfl rfl
      · rename_i required
        have enough : f.arity ≤ frame.operands.length := by
          split at required
          · cases required
          · rename_i many
            exact Nat.le_of_not_lt many
        split
        · exact StepResult.tracks_fails fetched rfl rfl rfl
        · rename_i shallow
          split
          · trivial
          · rename_i returned
            exact .answers fetched opcode found enough (handsOn_of_tryNative returned)
          · rename_i returned
            exact .answers fetched opcode found enough (handsOn_of_tryNative returned)
          · exact .enters fetched opcode found enough (Nat.lt_of_not_le shallow)

/-- What a step does to the frames, whatever it comes to. -/
theorem tracks_step (frames : s.frames = frame :: callers) (fuel : Nat) :
    (s.step env fuel).Tracks env frame callers := by
  cases fetched : frame.fetch? with
  | none =>
      simp only [step, frames, fetched]
      exact ⟨frame, frames, rfl, by rw [fetched]; rfl⟩
  | some i =>
      rw [step_of_fetch frames fetched]
      unfold execute
      cases opcode : i.opcode with
      | newarr => exact tracks_newArray fetched opcode
      | stelem => exact tracks_storeElement fetched opcode
      | ldelem =>
          exact tracks_continueWith fetched (by simp [opcode]) (Frame.staysIn_loadOperands _ _)
      | call => exact tracks_call fetched opcode fuel
      | ret => exact tracks_ret fetched opcode
      | print => exact tracks_print fetched opcode
      | halt => exact tracks_halt fetched
      | _ => exact tracks_continueWith fetched (by simp [opcode]) (Frame.staysIn_execute _ _ _)

theorem moves_of_step (next : s.step env fuel = .next t) :
    CallStack.Moves env s.frames t.frames := by
  cases frames : s.frames with
  | nil => exact absurd frames (frames_ne_nil_of_step next)
  | cons frame callers =>
      have tracks : (s.step env fuel).Tracks env frame callers := tracks_step frames fuel
      rw [next] at tracks
      exact tracks

theorem frames_of_halted {code : Int} (halted : s.step env fuel = .halted code t) :
    t.frames = [] := by
  cases frames : s.frames with
  | nil => simp [step, frames] at halted
  | cons frame callers =>
      have tracks : (s.step env fuel).Tracks env frame callers := tracks_step frames fuel
      rw [halted] at tracks
      exact tracks

end State

end Steps

/-! ## The frames after a run -/

section Ends

variable {env : Environment} {fuel : Nat} {s t : State}

/-- Steps end well where no frame is left, or at a halt, which drops them all. -/
theorem State.frames_of_ended {outcome : Outcome}
    (ended : s.runSteps env fuel = some (.ended outcome t)) : t.frames = [] := by
  obtain ⟨left, u, _, ending⟩ := runsTo_of_runSteps ended
  rcases ending with ⟨empty, same⟩ | ⟨_, v, ⟨code, halted, same⟩ | ⟨fault, _, same⟩⟩
  · cases same
    exact empty
  · cases same
    exact frames_of_halted halted
  · cases same

theorem State.frames_of_run {entry : LinkedFunction} {result : Except RuntimeError Outcome}
    (run : s.run env fuel entry = some (t, result)) : t.frames = [] := by
  unfold State.run at run
  split at run
  · cases run
  · rename_i e ended
    have empty : e.conclude.1.frames = [] := by
      cases e with
      | ended outcome u => exact frames_of_ended ended
      | failed fault u => rfl
    dsimp only at run
    split at run <;> cases run <;> exact empty

end Ends

end StackMachine
