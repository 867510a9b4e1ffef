import StackMachine.Proofs.VerifiedRuns

/-! # What instructions fail with

Most faults are about the operands at hand. Two sorts say something of what is behind them: that a
reference names nothing, and that a constant cannot be decoded. This separates the instructions
that can meet one of these from those that cannot.
-/

namespace StackMachine

/-- If the computation fails, the fault is an admitted one. -/
def FailsOnly {α : Type} (admitted : Fault → Prop) (x : Except Fault α) : Prop :=
  ∀ fault, x = .error fault → admitted fault

namespace FailsOnly

variable {α β : Type} {admitted : Fault → Prop}

theorem ok (a : α) : FailsOnly admitted (.ok a) := by
  intro fault failed
  cases failed

theorem error {fault : Fault} (only : admitted fault) :
    FailsOnly admitted (.error fault : Except Fault α) := by
  intro fault' failed
  cases failed
  exact only

theorem bind {x : Except Fault α} {f : α → Except Fault β} (first : FailsOnly admitted x)
    (rest : ∀ a, x = .ok a → FailsOnly admitted (f a)) : FailsOnly admitted (x >>= f) := by
  cases x with
  | error fault => exact .error (first fault rfl)
  | ok a => exact rest a rfl

end FailsOnly

/-- The fault names neither a reference nor a constant that cannot be decoded. -/
def Fault.isPlain : Fault → Bool
  | .invalidHeapRef _ | .malformedConstant _ _ => false
  | _ => true

section Plain

variable {admitted : Fault → Prop} (plain : ∀ fault : Fault, fault.isPlain = true → admitted fault)

include plain

/-! ## Frames -/

namespace Frame

variable (frame : Frame) (operation : String)

theorem failsOnly_pop : FailsOnly admitted (frame.pop operation) := by
  unfold pop
  split
  · exact .ok _
  · exact .error (plain _ rfl)

theorem failsOnly_pop2 : FailsOnly admitted (frame.pop2 operation) := by
  unfold pop2
  split
  · exact .ok _
  · exact .error (plain _ rfl)

theorem failsOnly_pop3 : FailsOnly admitted (frame.pop3 operation) := by
  unfold pop3
  split
  · exact .ok _
  · exact .error (plain _ rfl)

theorem failsOnly_jump (target : Nat) : FailsOnly admitted (frame.jump target) := by
  unfold jump
  split
  · exact .ok _
  · exact .error (plain _ rfl)

theorem failsOnly_branch (onFalsy : Bool) (target : Nat) :
    FailsOnly admitted (frame.branch operation onFalsy target) := by
  refine (failsOnly_pop plain frame operation).bind ?_
  rintro ⟨condition, after⟩ _
  dsimp only
  split
  · exact .error (plain _ rfl)
  · split
    · exact failsOnly_jump plain after target
    · exact .ok _

theorem failsOnly_returnValue : FailsOnly admitted frame.returnValue := by
  unfold returnValue
  split
  · refine (failsOnly_pop plain frame _).bind ?_
    intro _ _
    dsimp only
    split
    · exact .ok _
    · exact .error (plain _ rfl)
  · exact .ok _

end Frame

/-! ## Programs -/

namespace Program

variable (p : Program) (index : Nat)

theorem failsOnly_constant : FailsOnly admitted (p.constant index) := by
  unfold constant
  split
  · exact .ok _
  · exact .error (plain _ rfl)

theorem failsOnly_descriptor : FailsOnly admitted (p.descriptor index) := by
  refine FailsOnly.bind ((failsOnly_constant plain p index).bind ?_) ?_
  · intro c _
    split
    · exact .ok _
    · exact .error (plain _ rfl)
  · intro text _
    unfold Descriptor.parse
    split
    · exact .ok _
    · exact .error (plain _ rfl)

end Program

theorem BinaryOp.failsOnly_apply (op : BinaryOp) (a b : Value) :
    FailsOnly admitted (op.apply a b) := by
  intro fault failed
  rcases BinaryOp.apply_fault failed with ⟨_, _, rfl⟩ | rfl
  · exact plain _ rfl
  · exact plain _ rfl

theorem UnaryOp.failsOnly_apply (op : UnaryOp) (a : Value) : FailsOnly admitted (op.apply a) := by
  intro fault failed
  obtain ⟨_, _, rfl⟩ := UnaryOp.apply_fault failed
  exact plain _ rfl

/-- Of the instructions that concern the innermost frame only, a load of a constant is the one
that decodes something. -/
theorem Frame.failsOnly_execute (p : Program) (frame : Frame) (i : Instruction)
    (constant : i.opcode = .ldc → FailsOnly admitted (p.constantValue i.arg)) :
    FailsOnly admitted (frame.execute p i) := by
  unfold Frame.execute
  cases opcode : i.opcode with
  | ldc => exact (constant opcode).bind fun v _ => .ok _
  | ldv =>
      refine FailsOnly.bind ?_ fun v _ => .ok _
      unfold Frame.loadLocal
      split
      · exact .ok _
      · exact .error (plain _ rfl)
  | store =>
      refine (failsOnly_pop plain frame _).bind ?_
      rintro ⟨v, after⟩ _
      dsimp only [Frame.storeLocal]
      split
      · exact .ok _
      · exact .error (plain _ rfl)
  | dup =>
      refine FailsOnly.bind ?_ fun v _ => .ok _
      unfold Frame.peek
      split
      · exact .ok _
      · exact .error (plain _ rfl)
  | swap => exact (failsOnly_pop2 plain frame _).bind fun _ _ => .ok _
  | binary op =>
      exact (failsOnly_pop2 plain frame _).bind fun _ _ =>
        (op.failsOnly_apply plain _ _).bind fun _ _ => .ok _
  | unary op =>
      exact (failsOnly_pop plain frame _).bind fun _ _ =>
        (op.failsOnly_apply plain _).bind fun _ _ => .ok _
  | jmp => exact failsOnly_jump plain frame _
  | jz => exact failsOnly_branch plain frame _ _ _
  | jnz => exact failsOnly_branch plain frame _ _ _
  | _ => exact .ok _

theorem failsOnly_exitCode (p : Program) (index : Nat)
    (constant : FailsOnly admitted (p.constantValue index)) :
    FailsOnly admitted (exitCode p index) := by
  refine constant.bind ?_
  intro v _
  dsimp only
  split
  · exact .error (plain _ rfl)
  · split
    · exact .ok _
    · exact .error (plain _ rfl)

theorem failsOnly_arrayRequest (p : Program) (frame : Frame) (index : Nat) :
    FailsOnly admitted (arrayRequest p frame index) := by
  refine (Program.failsOnly_descriptor plain p index).bind ?_
  intro element _
  refine (Frame.failsOnly_pop plain frame _).bind ?_
  intro popped _
  dsimp only
  split
  · exact .error (plain _ rfl)
  · split
    · exact .ok _
    · exact .error (plain _ rfl)

/-! ## Arrays -/

namespace Heap

variable {h : Heap} {r : HeapRef}

theorem failsOnly_elementSlot (index : Value) (length : Nat) :
    FailsOnly admitted (elementSlot index length) := by
  unfold elementSlot
  split
  · exact .error (plain _ rfl)
  · split
    · exact .ok _
    · exact .error (plain _ rfl)

/-- An access to an array fails as the look-up does, or on its operands. -/
theorem failsOnly_loadElement (found : FailsOnly admitted (h.array r)) (index : Value) :
    FailsOnly admitted (h.loadElement r index) := by
  unfold loadElement
  cases array : h.array r with
  | error fault => exact .error (found fault array)
  | ok o =>
      dsimp only
      split
      · rename_i fault missed
        exact .error (failsOnly_elementSlot plain _ _ fault missed)
      · exact .ok _

theorem failsOnly_storeSlot (found : FailsOnly admitted (h.array r)) (index v : Value) :
    FailsOnly admitted (h.storeSlot r index v) := by
  unfold storeSlot
  cases array : h.array r with
  | error fault => exact .error (found fault array)
  | ok o =>
      dsimp only
      split
      · rename_i fault missed
        exact .error (failsOnly_elementSlot plain _ _ fault missed)
      · split
        · exact .ok _
        · exact .error (plain _ rfl)

theorem failsOnly_allocateArray (h : Heap) (stack : CallStack) (element : Descriptor)
    (length : Nat) : FailsOnly admitted (h.allocateArray stack element length).result := by
  have inserts : ∀ (h : Heap) (o : HeapObject), FailsOnly admitted (h.insert o).2 := by
    intro h o
    unfold insert
    split
    · exact .ok _
    · split
      · exact .ok _
      · exact .error (plain _ rfl)
  unfold allocateArray
  dsimp only
  split
  · exact .error (plain _ rfl)
  · split
    · unfold place
      dsimp only
      split
      · exact .error (plain _ rfl)
      · exact inserts _ _
    · exact .error (plain _ rfl)

end Heap

theorem failsOnly_arrayOperand (v : Value) : FailsOnly admitted (arrayOperand v) := by
  unfold arrayOperand
  split
  · exact .ok _
  · exact .error (plain _ rfl)

/-! ## Steps -/

def StepResult.FailsOnly (admitted : Fault → Prop) : StepResult → Prop
  | .failed fault _ => admitted fault
  | _ => True

namespace State

variable {env : Environment} {s : State} {frame : Frame} {callers : CallStack} {i : Instruction}

omit plain in
theorem failsOnly_continueWith {result : Except Fault Frame} (fails : FailsOnly admitted result) :
    (s.continueWith frame callers result).FailsOnly admitted := by
  cases result with
  | error fault => exact fails fault rfl
  | ok after => trivial

theorem failsOnly_newArray (p : Program) (index : Nat) :
    (s.newArray p frame callers index).FailsOnly admitted := by
  have request := failsOnly_arrayRequest plain p frame index
  unfold newArray
  split
  · rename_i fault failed
    exact request fault failed
  · rename_i element length popped _
    have allocates := Heap.failsOnly_allocateArray plain s.heap (popped :: callers) element length
    simp only [allocate]
    split
    · rename_i fault failed
      exact allocates fault (congrArg (·.2) failed)
    · trivial

theorem failsOnly_call (fuel index : Nat) :
    (s.call env fuel frame callers index).FailsOnly admitted := by
  unfold call Program.function Frame.require
  split
  · rename_i failed
    split at failed <;> cases failed
    exact plain _ rfl
  · split
    · rename_i failed
      split at failed <;> cases failed
      exact plain _ rfl
    · dsimp only
      split
      · exact plain _ rfl
      · split <;> trivial

theorem failsOnly_ret : (s.ret frame callers).FailsOnly admitted := by
  have returned := frame.failsOnly_returnValue plain
  unfold ret
  split
  · rename_i fault failed
    exact returned fault failed
  · trivial

theorem failsOnly_print : (s.print frame callers).FailsOnly admitted := by
  have popped := frame.failsOnly_pop plain "PRINT"
  unfold print Console.writeFault?
  split
  · rename_i fault failed
    exact popped fault failed
  · split
    · rename_i fault written
      split at written
      · cases written
      · obtain ⟨reason, _, rfl⟩ := Option.map_eq_some_iff.mp written
        exact plain _ rfl
    · trivial

theorem failsOnly_halt (p : Program) (index : Nat)
    (constant : FailsOnly admitted (p.constantValue index)) :
    (s.halt p frame callers index).FailsOnly admitted := by
  have code := failsOnly_exitCode plain p index constant
  unfold halt
  split
  · rename_i fault failed
    exact code fault failed
  · trivial

variable (stale : ∀ id, admitted (.invalidHeapRef id))

include stale

theorem failsOnly_array (h : Heap) (r : HeapRef) : FailsOnly admitted (h.array r) := by
  unfold Heap.array Heap.get
  cases h.get? r with
  | none => exact .error (stale _)
  | some o =>
      dsimp only
      split
      · exact .ok _
      · exact .error (plain _ rfl)

theorem failsOnly_loadOperands (h : Heap) (frame : Frame) :
    FailsOnly admitted (loadOperands h frame) := by
  refine (frame.failsOnly_pop2 plain _).bind ?_
  rintro ⟨array, index, after⟩ _
  refine (failsOnly_arrayOperand plain array).bind ?_
  intro r _
  exact (Heap.failsOnly_loadElement plain (failsOnly_array plain stale h r) index).bind
    fun _ _ => .ok _

theorem failsOnly_storeElement : (s.storeElement frame callers).FailsOnly admitted := by
  have request : FailsOnly admitted (storeRequest s.heap frame) := by
    refine (frame.failsOnly_pop3 plain _).bind ?_
    rintro ⟨array, index, v, after⟩ _
    refine (failsOnly_arrayOperand plain array).bind ?_
    intro r _
    exact (Heap.failsOnly_storeSlot plain (failsOnly_array plain stale s.heap r) index v).bind
      fun _ _ => .ok _
  unfold storeElement
  split
  · rename_i fault failed
    exact request fault failed
  · trivial

/-- Constants are decoded by two instructions only. -/
theorem failsOnly_step (fuel : Nat)
    (constants : ∀ frame callers i, s.frames = frame :: callers → frame.fetch? = some i →
      i.opcode = .ldc ∨ i.opcode = .halt → FailsOnly admitted (env.program.constantValue i.arg)) :
    (s.step env fuel).FailsOnly admitted := by
  cases frames : s.frames with
  | nil =>
      simp only [step, frames]
      exact plain _ rfl
  | cons frame callers =>
      cases fetched : frame.fetch? with
      | none =>
          simp only [step, frames, fetched]
          exact plain _ rfl
      | some i =>
          have decodes := constants frame callers i frames fetched
          rw [step_of_fetch frames fetched]
          unfold execute
          split
          · exact failsOnly_newArray plain _ _
          · exact failsOnly_storeElement plain stale
          · exact failsOnly_continueWith (failsOnly_loadOperands plain stale _ _)
          · exact failsOnly_call plain _ _
          · exact failsOnly_ret plain
          · exact failsOnly_print plain
          · rename_i opcode
            exact failsOnly_halt plain _ _ (decodes (.inr opcode))
          · exact failsOnly_continueWith
              (Frame.failsOnly_execute plain _ _ _ fun opcode => decodes (.inl opcode))

end State

end Plain

end StackMachine
