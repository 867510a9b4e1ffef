import Mathlib
import StackMachine.Proofs.CallStacks
import StackMachine.Proofs.StackHeights

/-! # Verified code does not go wrong

Along every run that starts in accepted code, each frame stands at a place whose stack height is
that of its operands; a frame that waits for a call is short of the result. So the faults that
verification is there to exclude are never met, whatever compiler is in use and whatever its
code does.
-/

namespace StackMachine

def Fault.isExcluded : Fault → Bool
  | .operandStackUnderflow _ _ _ | .localOutOfRange _ _ | .jumpOutOfBounds _ _
  | .indexOutOfRange _ _ _ | .noActiveFrame | .stackUnderflow | .unsupportedConstant _ _
  | .malformedName _ _ | .malformedDescriptor _ => true
  | _ => false

/-! ## Faults of values and arrays -/

namespace Value

theorem onIntegers_fault {operation : String} {f : FixedInt → FixedInt → Except Fault Value}
    {a b : Value} {fault : Fault} (h : onIntegers operation f a b = .error fault) :
    (∃ detail, fault = .typeMismatch operation detail) ∨ ∃ m n, f m n = .error fault := by
  unfold onIntegers at h
  split at h
  · split at h
    · exact .inr ⟨_, _, h⟩
    · cases h
      exact .inl ⟨_, rfl⟩
  · cases h
    exact .inl ⟨_, rfl⟩

theorem onBooleans_fault {operation : String} {f : Bool → Bool → Bool} {a b : Value}
    {fault : Fault} (h : onBooleans operation f a b = .error fault) :
    ∃ detail, fault = .typeMismatch operation detail := by
  unfold onBooleans at h
  split at h
  · cases h
  · cases h
    exact ⟨_, rfl⟩

theorem orDivisionByZero_fault {n : Option FixedInt} {fault : Fault}
    (h : orDivisionByZero n = .error fault) : fault = .divisionByZero := by
  cases n with
  | some n => cases h
  | none => cases h; rfl

end Value

theorem BinaryOp.apply_fault {op : BinaryOp} {a b : Value} {fault : Fault}
    (h : op.apply a b = .error fault) :
    (∃ operation detail, fault = .typeMismatch operation detail) ∨ fault = .divisionByZero := by
  cases op with
  | div | mod =>
      rcases Value.onIntegers_fault h with ⟨detail, rfl⟩ | ⟨m, n, failed⟩
      · exact .inl ⟨_, detail, rfl⟩
      · exact .inr (Value.orDivisionByZero_fault failed)
  | add | mul | sub | lt | leq =>
      rcases Value.onIntegers_fault h with ⟨detail, rfl⟩ | ⟨m, n, failed⟩
      · exact .inl ⟨_, detail, rfl⟩
      · cases failed
  | lor | land =>
      obtain ⟨detail, rfl⟩ := Value.onBooleans_fault h
      exact .inl ⟨_, detail, rfl⟩
  | eq =>
      simp only [BinaryOp.apply, Value.equals] at h
      split at h
      · cases h
      · cases h
        exact .inl ⟨_, _, rfl⟩

theorem UnaryOp.apply_fault {op : UnaryOp} {a : Value} {fault : Fault}
    (h : op.apply a = .error fault) :
    ∃ operation detail, fault = .typeMismatch operation detail := by
  cases op <;> cases a <;> cases h <;> exact ⟨_, _, rfl⟩

namespace Heap

theorem elementSlot_fault {index : Value} {length : Nat} {fault : Fault}
    (h : elementSlot index length = .error fault) : fault.isExcluded = false := by
  unfold elementSlot at h
  split at h
  · cases h; rfl
  · split at h
    · cases h
    · cases h; rfl

theorem array_fault {heap : Heap} {r : HeapRef} {fault : Fault}
    (h : heap.array r = .error fault) : fault.isExcluded = false := by
  unfold array get at h
  cases found : heap.get? r with
  | none => simp only [found] at h; cases h; rfl
  | some o =>
      simp only [found] at h
      split at h
      · cases h
      · cases h; rfl

theorem loadElement_fault {heap : Heap} {r : HeapRef} {index : Value} {fault : Fault}
    (h : heap.loadElement r index = .error fault) : fault.isExcluded = false := by
  unfold loadElement at h
  split at h
  · rename_i failed
    cases h
    exact array_fault failed
  · split at h
    · rename_i failed
      cases h
      exact elementSlot_fault failed
    · cases h

theorem storeSlot_fault {heap : Heap} {r : HeapRef} {index v : Value} {fault : Fault}
    (h : heap.storeSlot r index v = .error fault) : fault.isExcluded = false := by
  unfold storeSlot at h
  split at h
  · rename_i failed
    cases h
    exact array_fault failed
  · split at h
    · rename_i failed
      cases h
      exact elementSlot_fault failed
    · split at h
      · cases h
      · cases h; rfl

theorem insert_fault {heap : Heap} {o : HeapObject} {fault : Fault}
    (h : (heap.insert o).2 = .error fault) : fault.isExcluded = false := by
  unfold insert at h
  split at h
  · cases h
  · split at h
    · cases h
    · cases h; rfl

theorem place_fault {heap : Heap} {stack : CallStack} {requested : Nat}
    {object : Unit → HeapObject} {fault : Fault}
    (h : (heap.place stack requested object).result = .error fault) :
    fault.isExcluded = false := by
  unfold place at h
  dsimp only at h
  split at h
  · cases h; rfl
  · exact insert_fault h

/-- An array of elements that are not void fails to be allocated for want of room only. -/
theorem allocateArray_fault {heap : Heap} {stack : CallStack} {element : Descriptor}
    {length : Nat} {fault : Fault} (solid : element.isVoid = false)
    (h : (heap.allocateArray stack element length).result = .error fault) :
    fault.isExcluded = false := by
  unfold allocateArray at h
  cases value : element.default? with
  | none => cases element <;> simp_all [Descriptor.default?, Descriptor.isVoid]
  | some v =>
      simp only [value] at h
      split at h
      · exact place_fault h
      · cases h; rfl

end Heap

/-! ## What acceptance says of an instruction -/

theorem Program.operands_of_checkOperands {p : Program} {f : LinkedFunction} {pc : Nat}
    {code : List Instruction} (h : p.checkOperands f pc code = .ok ()) :
    ∀ i ∈ code, p.operandProblem? f i = none := by
  induction code generalizing pc with
  | nil => intro i member; cases member
  | cons i rest ih =>
      simp only [checkOperands] at h
      split at h
      · cases h
      · rename_i fine
        intro j member
        rcases List.mem_cons.mp member with rfl | member
        · exact fine
        · exact ih h j member

theorem Program.operandProblem_of_accepted {p : Program} {f : LinkedFunction}
    (accepted : p.verifyFunction f = .ok ()) {i : Instruction} (member : i ∈ f.code.toList) :
    p.operandProblem? f i = none := by
  unfold verifyFunction at accepted
  split at accepted
  · cases accepted
  · rename_i checked
    exact operands_of_checkOperands checked i member

theorem Program.slot_of_operand {p : Program} {f : LinkedFunction} {i : Instruction}
    (checked : p.operandProblem? f i = none) (opcode : i.opcode = .ldv ∨ i.opcode = .store) :
    i.arg < f.locals := by
  rcases opcode with opcode | opcode <;> simpa [operandProblem?, opcode] using checked

theorem Program.target_of_operand {p : Program} {f : LinkedFunction} {i : Instruction}
    (checked : p.operandProblem? f i = none) (jump : i.opcode.isJump = true) :
    i.arg < f.code.size := by
  cases opcode : i.opcode with
  | jmp | jz | jnz => simpa [operandProblem?, opcode] using checked
  | _ => simp [opcode, Opcode.isJump] at jump

theorem Program.heights_of_accepted {p : Program} {f : LinkedFunction}
    (accepted : p.verifyFunction f = .ok ()) :
    ∃ heights, p.stackHeights f = .ok heights := by
  unfold verifyFunction at accepted
  split at accepted
  · cases accepted
  · split at accepted
    · cases accepted
    · rename_i heights found
      exact ⟨heights, found⟩

/-! ## Operands that are there -/

namespace Frame

theorem pop_of_le (frame : Frame) (operation : String) (enough : 1 ≤ frame.operands.length) :
    ∃ v rest, frame.operands = v :: rest ∧
      frame.pop operation = .ok (v, { frame with operands := rest }) := by
  unfold pop
  cases operands : frame.operands with
  | nil => simp [operands] at enough
  | cons v rest => exact ⟨v, rest, rfl, rfl⟩

theorem pop2_of_le (frame : Frame) (operation : String) (enough : 2 ≤ frame.operands.length) :
    ∃ a b rest, frame.operands = b :: a :: rest ∧
      frame.pop2 operation = .ok (a, b, { frame with operands := rest }) := by
  unfold pop2
  match operands : frame.operands with
  | [] | [_] => simp [operands] at enough
  | b :: a :: rest => exact ⟨a, b, rest, rfl, rfl⟩

theorem pop3_of_le (frame : Frame) (operation : String) (enough : 3 ≤ frame.operands.length) :
    ∃ a b c rest, frame.operands = c :: b :: a :: rest ∧
      frame.pop3 operation = .ok (a, b, c, { frame with operands := rest }) := by
  unfold pop3
  match operands : frame.operands with
  | [] | [_] | [_, _] => simp [operands] at enough
  | c :: b :: a :: rest => exact ⟨a, b, c, rest, rfl, rfl⟩

structure GoesTo (before after : Frame) (pc height : Nat) : Prop where
  function : after.function = before.function
  locals : after.locals.size = before.locals.size
  pc : after.pc = pc
  height : after.operands.length = height

/-- A result that goes on at one of the places with `height` operands, or fails with a fault
that verification does not exclude. -/
def Proceeds (frame : Frame) (places : List Nat) (height : Nat) : Except Fault Frame → Prop
  | .ok after => ∃ pc ∈ places, GoesTo frame after pc height
  | .error fault => fault.isExcluded = false

theorem jump_proceeds (frame : Frame) {target : Nat} (places : List Nat)
    (inside : target < frame.function.code.size) (member : target ∈ places) :
    Proceeds frame places frame.operands.length (frame.jump target) := by
  unfold jump
  rw [if_pos inside]
  exact ⟨target, member, rfl, rfl, rfl, rfl⟩

theorem branch_proceeds {frame : Frame} (operation : String) (onFalsy : Bool) {target : Nat}
    (enough : 1 ≤ frame.operands.length) (inside : target < frame.function.code.size) :
    Proceeds frame [frame.pc, target] (frame.operands.length - 1)
      (frame.branch operation onFalsy target) := by
  obtain ⟨v, rest, operands, popped⟩ := pop_of_le frame operation enough
  unfold branch
  rw [popped]
  simp only [bind, Except.bind]
  split
  · rfl
  · split
    · have jumped := jump_proceeds { frame with operands := rest } [frame.pc, target] inside
        (by simp)
      simp only [Frame.jump, if_pos inside] at jumped ⊢
      obtain ⟨pc, member, goes⟩ := jumped
      exact ⟨pc, member, goes.function, goes.locals, goes.pc, by simp [operands]⟩
    · exact ⟨frame.pc, by simp, rfl, rfl, rfl, by simp [operands]⟩

end Frame

/-- A checked instruction with enough operands goes on to one of its successors. -/
theorem Frame.execute_proceeds {p : Program} {frame : Frame} {i : Instruction} {pc : Nat}
    (isLocal : i.opcode.isLocal = true) (next : frame.pc = pc + 1)
    (slots : frame.locals.size = frame.function.locals)
    (checked : p.operandProblem? frame.function i = none)
    (enough : (p.stackEffect frame.function i).1 ≤ frame.operands.length) :
    Proceeds frame (i.successors pc)
      (frame.operands.length - (p.stackEffect frame.function i).1
        + (p.stackEffect frame.function i).2)
      (frame.execute p i) := by
  unfold Frame.execute
  cases opcode : i.opcode with
  | ldc =>
      simp only [Program.operandProblem?, opcode] at checked
      cases value : p.constantValue i.arg with
      | error fault => simp [value] at checked
      | ok v =>
          refine ⟨pc + 1, by simp [Instruction.successors, opcode], rfl, rfl, next, ?_⟩
          simp [Frame.push, Program.stackEffect, opcode, Opcode.stackEffect?]
  | ldv =>
      have inside : i.arg < frame.locals.size := by
        rw [slots]
        exact Program.slot_of_operand checked (by simp [opcode])
      simp only [Frame.loadLocal, Array.getElem?_eq_getElem inside]
      refine ⟨pc + 1, by simp [Instruction.successors, opcode], rfl, rfl, next, ?_⟩
      simp [Frame.push, Program.stackEffect, opcode, Opcode.stackEffect?]
  | store =>
      have inside : i.arg < frame.locals.size := by
        rw [slots]
        exact Program.slot_of_operand checked (by simp [opcode])
      simp only [Program.stackEffect, opcode, Opcode.stackEffect?, Option.getD_some] at enough ⊢
      obtain ⟨v, rest, operands, popped⟩ := Frame.pop_of_le frame "STORE" enough
      simp only [popped, bind, Except.bind, Frame.storeLocal, if_pos inside]
      exact ⟨pc + 1, by simp [Instruction.successors, opcode], rfl, by simp, next,
        by simp [operands]⟩
  | dup =>
      simp only [Program.stackEffect, opcode, Opcode.stackEffect?, Option.getD_some] at enough ⊢
      cases operands : frame.operands with
      | nil => simp [operands] at enough
      | cons v rest =>
          simp only [Frame.peek, operands, bind, Except.bind]
          exact ⟨pc + 1, by simp [Instruction.successors, opcode], rfl, rfl, next,
            by simp [Frame.push, operands]⟩
  | swap =>
      simp only [Program.stackEffect, opcode, Opcode.stackEffect?, Option.getD_some] at enough ⊢
      obtain ⟨a, b, rest, operands, popped⟩ := Frame.pop2_of_le frame "SWAP" enough
      simp only [popped, bind, Except.bind]
      exact ⟨pc + 1, by simp [Instruction.successors, opcode], rfl, rfl, next,
        by simp [Frame.push, operands]⟩
  | binary op =>
      simp only [Program.stackEffect, opcode, Opcode.stackEffect?, Option.getD_some] at enough ⊢
      obtain ⟨a, b, rest, operands, popped⟩ :=
        Frame.pop2_of_le frame (Opcode.binary op).mnemonic enough
      simp only [popped, bind, Except.bind]
      cases result : op.apply a b with
      | error fault =>
          rcases BinaryOp.apply_fault result with ⟨_, _, rfl⟩ | rfl <;> rfl
      | ok v =>
          exact ⟨pc + 1, by simp [Instruction.successors, opcode], rfl, rfl, next,
            by simp [Frame.push, operands]⟩
  | unary op =>
      simp only [Program.stackEffect, opcode, Opcode.stackEffect?, Option.getD_some] at enough ⊢
      obtain ⟨a, rest, operands, popped⟩ := Frame.pop_of_le frame (Opcode.unary op).mnemonic enough
      simp only [popped, bind, Except.bind]
      cases result : op.apply a with
      | error fault =>
          obtain ⟨_, _, rfl⟩ := UnaryOp.apply_fault result
          rfl
      | ok v =>
          exact ⟨pc + 1, by simp [Instruction.successors, opcode], rfl, rfl, next,
            by simp [Frame.push, operands]⟩
  | jmp =>
      have inside : i.arg < frame.function.code.size :=
        Program.target_of_operand checked (by simp [opcode, Opcode.isJump])
      have jumped := Frame.jump_proceeds frame (i.successors pc) inside
        (by simp [Instruction.successors, opcode])
      simpa [Program.stackEffect, opcode, Opcode.stackEffect?] using jumped
  | jz | jnz =>
      have inside : i.arg < frame.function.code.size :=
        Program.target_of_operand checked (by simp [opcode, Opcode.isJump])
      simp only [Program.stackEffect, opcode, Opcode.stackEffect?, Option.getD_some] at enough ⊢
      have branched := fun operation onFalsy =>
        Frame.branch_proceeds operation onFalsy enough inside
      simpa [Instruction.successors, opcode, next] using branched _ _
  | _ => simp [opcode, Opcode.isLocal] at isLocal

theorem Constant.value_fault {c : Constant} {index : Nat} {fault : Fault}
    (integer : c.tag.isInteger = true) (h : c.value index = .error fault) :
    fault.isExcluded = false := by
  unfold Constant.value at h
  split at h
  · cases h; rfl
  · cases tag : c.tag with
    | int kind => simp [tag] at h
    | string | bool | className => simp [tag, ConstantTag.isInteger] at integer

theorem exitCode_fault {p : Program} {index : Nat} {c : Constant} {fault : Fault}
    (found : p.constant index = .ok c) (integer : c.tag.isInteger = true)
    (h : exitCode p index = .error fault) : fault.isExcluded = false := by
  unfold exitCode Program.constantValue at h
  simp only [found, bind, Except.bind] at h
  cases value : c.value index with
  | error failed =>
      simp only [value] at h
      cases h
      exact Constant.value_fault integer value
  | ok v =>
      simp only [value] at h
      split at h
      · cases h; rfl
      · split at h
        · cases h
        · cases h; rfl

/-! ## Frames at their heights -/

def LinkedFunction.results (f : LinkedFunction) : Nat := if f.returnsValue then 1 else 0

/-- A set of accepted functions that call only each other. -/
structure CallClosed (p : Program) (trusted : LinkedFunction → Prop) : Prop where
  accepted : ∀ f, trusted f → p.verifyFunction f = .ok ()
  callees : ∀ f, trusted f → ∀ i ∈ f.code.toList, i.opcode = .call →
    ∀ g, p.function i.arg = .ok g → trusted g

/-- The place of the frame has the height of its operands and `awaited` more. -/
structure Frame.AtHeight (p : Program) (awaited : Nat) (frame : Frame) : Prop where
  slots : frame.locals.size = frame.function.locals
  height : ∀ heights, p.stackHeights frame.function = .ok heights →
    frame.pc < frame.function.code.size →
    heights[frame.pc]? = some (some (frame.operands.length + awaited))

/-- Every frame runs a trusted function and is at its height; the frames below the innermost one
await the results of the function above them. -/
def CallStack.AtHeights (p : Program) (trusted : LinkedFunction → Prop) :
    Nat → CallStack → Prop
  | _, [] => True
  | awaited, frame :: callers =>
      trusted frame.function ∧ frame.AtHeight p awaited ∧
        CallStack.AtHeights p trusted frame.function.results callers

theorem Frame.AtHeight.enough {p : Program} {frame : Frame} {i : Instruction}
    (here : frame.AtHeight p 0) (accepted : p.verifyFunction frame.function = .ok ())
    (fetched : frame.fetch? = some i) :
    (p.stackEffect frame.function i).1 ≤ frame.operands.length := by
  obtain ⟨heights, found⟩ := Program.heights_of_accepted accepted
  have inside : frame.pc < frame.function.code.size := (Array.getElem?_eq_some_iff.mp fetched).1
  have known := here.height heights found inside
  exact ((Program.heightsFit_of_stackHeights found).settled _ _ _ known fetched).1

/-- A frame that goes on to a successor of its instruction is at its height there. -/
theorem Frame.AtHeight.move {p : Program} {frame after : Frame} {i : Instruction}
    {awaited : Nat} (here : frame.AtHeight p 0) (fetched : frame.fetch? = some i)
    (function : after.function = frame.function)
    (locals : after.locals.size = frame.locals.size) (successor : after.pc ∈ i.successors frame.pc)
    (height : after.operands.length + awaited =
      frame.operands.length - (p.stackEffect frame.function i).1
        + (p.stackEffect frame.function i).2) :
    after.AtHeight p awaited := by
  refine ⟨by rw [locals, function, here.slots], ?_⟩
  intro heights found inside
  rw [function] at found inside
  have fit := Program.heightsFit_of_stackHeights found
  have started : frame.pc < frame.function.code.size := (Array.getElem?_eq_some_iff.mp fetched).1
  have known := here.height heights found started
  rw [height]
  exact (fit.settled _ _ _ known fetched).2 _ successor (by rw [fit.size]; exact inside)

theorem Frame.atHeight_enter {p : Program} {f : LinkedFunction} {args : List Value}
    (arity : args.length = f.arity) : (Frame.enter f args).AtHeight p 0 := by
  refine ⟨by simp [Frame.enter], ?_⟩
  intro heights found inside
  have entry := (Program.heightsFit_of_stackHeights found).entry
    (Nat.lt_of_le_of_lt (Nat.zero_le _) inside)
  simpa [Frame.enter, arity] using entry

/-! ## Single steps -/

def StepResult.Sound (p : Program) (trusted : LinkedFunction → Prop) : StepResult → Prop
  | .next s => CallStack.AtHeights p trusted 0 s.frames
  | .failed fault _ => fault.isExcluded = false
  | .halted _ _ => True
  | .outOfFuel => True

/-- Native code gives a value exactly if the function has a result. -/
theorem State.results_of_tryNative {env : Environment} {fuel : Nat} {s t : State} {index : Nat}
    {f : LinkedFunction} {args : List Value} {value : Option Value}
    (h : s.tryNative env fuel index f args = .returned value t) :
    value.toList.length = f.results := by
  have hands := handsOn_of_tryNative h
  cases value with
  | none =>
      have void : f.result.isVoid = true := hands
      simp [LinkedFunction.results, LinkedFunction.returnsValue, void]
  | some v => simp [LinkedFunction.results, LinkedFunction.returnsValue, hands.1]

section

variable {env : Environment} {trusted : LinkedFunction → Prop} {s : State} {frame : Frame}
  {callers : CallStack} {i : Instruction}

structure Fetched (env : Environment) (trusted : LinkedFunction → Prop) (frame : Frame)
    (callers : CallStack) (i : Instruction) : Prop where
  closed : CallClosed env.program trusted
  trusts : trusted frame.function
  here : frame.AtHeight env.program 0
  callers : CallStack.AtHeights env.program trusted frame.function.results callers
  instruction : frame.fetch? = some i

namespace Fetched

theorem accepted (h : Fetched env trusted frame callers i) :
    env.program.verifyFunction frame.function = .ok () := h.closed.accepted _ h.trusts

theorem member (h : Fetched env trusted frame callers i) : i ∈ frame.function.code.toList := by
  have fetched := h.instruction
  rw [Frame.fetch?, ← Array.getElem?_toList] at fetched
  exact List.mem_of_getElem? fetched

theorem checked (h : Fetched env trusted frame callers i) :
    env.program.operandProblem? frame.function i = none :=
  Program.operandProblem_of_accepted h.accepted h.member

theorem enough (h : Fetched env trusted frame callers i) :
    (env.program.stackEffect frame.function i).1 ≤ frame.operands.length :=
  h.here.enough h.accepted h.instruction

/-- The instruction replaces the innermost frame by one that goes on to a successor. -/
theorem moved (h : Fetched env trusted frame callers i) {after : Frame} {awaited : Nat}
    (function : after.function = frame.function) (locals : after.locals.size = frame.locals.size)
    (successor : after.pc ∈ i.successors frame.pc)
    (height : after.operands.length + awaited =
      frame.operands.length - (env.program.stackEffect frame.function i).1
        + (env.program.stackEffect frame.function i).2) :
    CallStack.AtHeights env.program trusted awaited (after :: callers) := by
  refine ⟨function ▸ h.trusts, ?_, ?_⟩
  · exact h.here.move h.instruction function locals successor height
  · rw [function]
    exact h.callers

theorem sound_continueWith (h : Fetched env trusted frame callers i)
    {result : Except Fault Frame}
    (proceeds : Frame.Proceeds { frame with pc := frame.pc + 1 } (i.successors frame.pc)
      (frame.operands.length - (env.program.stackEffect frame.function i).1
        + (env.program.stackEffect frame.function i).2) result) :
    (s.continueWith { frame with pc := frame.pc + 1 } callers result).Sound env.program
      trusted := by
  cases result with
  | error fault => exact proceeds
  | ok after =>
      obtain ⟨pc, successor, goes⟩ := proceeds
      exact h.moved goes.function goes.locals (by rw [goes.pc]; exact successor)
        (by rw [goes.height]; rfl)

theorem sound_newArray (h : Fetched env trusted frame callers i) (opcode : i.opcode = .newarr) :
    (s.newArray env.program { frame with pc := frame.pc + 1 } callers i.arg).Sound env.program
      trusted := by
  have checked := h.checked
  have enough := h.enough
  simp only [Program.operandProblem?, opcode] at checked
  simp only [Program.stackEffect, opcode, Opcode.stackEffect?, Option.getD_some] at enough
  unfold State.newArray arrayRequest
  cases type : env.program.descriptor i.arg with
  | error fault => simp [type] at checked
  | ok element =>
      have solid : element.isVoid = false := by simpa [type] using checked
      obtain ⟨size, rest, operands, popped⟩ :=
        Frame.pop_of_le { frame with pc := frame.pc + 1 } "NEWARR" enough
      simp only [popped, bind, Except.bind]
      cases size.widen? with
      | none => rfl
      | some n =>
          dsimp only
          by_cases fits : 0 ≤ n ∧ n < (addressSpace : Int)
          · rw [if_pos fits]
            dsimp only [State.allocate]
            cases allocated : (s.heap.allocateArray ({ frame with
                pc := frame.pc + 1, operands := rest } :: callers) element n.toNat).result with
            | error fault => exact Heap.allocateArray_fault solid allocated
            | ok r =>
                refine h.moved rfl rfl (by simp [Frame.push, Instruction.successors, opcode]) ?_
                have length : frame.operands.length = rest.length + 1 := by
                  rw [show frame.operands = size :: rest from operands]
                  rfl
                simp [Frame.push, Program.stackEffect, opcode, Opcode.stackEffect?, length]
          · rw [if_neg fits]
            rfl

theorem sound_storeElement (h : Fetched env trusted frame callers i)
    (opcode : i.opcode = .stelem) :
    (s.storeElement { frame with pc := frame.pc + 1 } callers).Sound env.program trusted := by
  have enough := h.enough
  simp only [Program.stackEffect, opcode, Opcode.stackEffect?, Option.getD_some] at enough
  obtain ⟨array, index, v, rest, operands, popped⟩ :=
    Frame.pop3_of_le { frame with pc := frame.pc + 1 } "STELEM" enough
  unfold State.storeElement storeRequest arrayOperand
  simp only [popped, bind, Except.bind]
  cases array.ref? with
  | none => rfl
  | some r =>
      dsimp only
      cases stored : s.heap.storeSlot r index v with
      | error fault => exact Heap.storeSlot_fault stored
      | ok slot =>
          refine h.moved rfl rfl (by simp [Instruction.successors, opcode]) ?_
          have length : frame.operands.length = rest.length + 3 := by
            rw [show frame.operands = v :: index :: array :: rest from operands]
            rfl
          simp [Program.stackEffect, opcode, Opcode.stackEffect?, length]

theorem proceeds_loadOperands (h : Fetched env trusted frame callers i) (heap : Heap)
    (opcode : i.opcode = .ldelem) :
    Frame.Proceeds { frame with pc := frame.pc + 1 } (i.successors frame.pc)
      (frame.operands.length - (env.program.stackEffect frame.function i).1
        + (env.program.stackEffect frame.function i).2)
      (loadOperands heap { frame with pc := frame.pc + 1 }) := by
  have enough := h.enough
  simp only [Program.stackEffect, opcode, Opcode.stackEffect?, Option.getD_some] at enough ⊢
  obtain ⟨array, index, rest, operands, popped⟩ :=
    Frame.pop2_of_le { frame with pc := frame.pc + 1 } "LDELEM" enough
  unfold loadOperands arrayOperand
  simp only [popped, bind, Except.bind]
  cases array.ref? with
  | none => rfl
  | some r =>
      dsimp only
      cases loaded : heap.loadElement r index with
      | error fault => exact Heap.loadElement_fault loaded
      | ok v =>
          have length : frame.operands.length = rest.length + 2 := by
            rw [show frame.operands = index :: array :: rest from operands]
            rfl
          exact ⟨frame.pc + 1, by simp [Instruction.successors, opcode], rfl, rfl, rfl,
            by simp [Frame.push, length]⟩

theorem sound_print (h : Fetched env trusted frame callers i) (opcode : i.opcode = .print) :
    (s.print { frame with pc := frame.pc + 1 } callers).Sound env.program trusted := by
  have enough := h.enough
  simp only [Program.stackEffect, opcode, Opcode.stackEffect?, Option.getD_some] at enough
  obtain ⟨v, rest, operands, popped⟩ :=
    Frame.pop_of_le { frame with pc := frame.pc + 1 } "PRINT" enough
  unfold State.print
  simp only [popped]
  cases written : s.console.writeFault? v.text with
  | some fault =>
      have io : ∃ reason, fault = .io reason := by
        unfold Console.writeFault? at written
        split at written
        · cases written
        · obtain ⟨reason, _, rfl⟩ := Option.map_eq_some_iff.mp written
          exact ⟨reason, rfl⟩
      obtain ⟨reason, rfl⟩ := io
      rfl
  | none =>
      refine h.moved rfl rfl (by simp [Instruction.successors, opcode]) ?_
      have length : frame.operands.length = rest.length + 1 := by
        rw [show frame.operands = v :: rest from operands]
        rfl
      simp [Program.stackEffect, opcode, Opcode.stackEffect?, length]

theorem sound_halt (h : Fetched env trusted frame callers i) (opcode : i.opcode = .halt) :
    (s.halt env.program { frame with pc := frame.pc + 1 } callers i.arg).Sound env.program
      trusted := by
  have checked := h.checked
  simp only [Program.operandProblem?, opcode] at checked
  unfold State.halt
  cases code : exitCode env.program i.arg with
  | ok n => trivial
  | error fault =>
      cases found : env.program.constant i.arg with
      | error fault => simp [found] at checked
      | ok c => exact exitCode_fault found (by simpa [found] using checked) code

/-- A return pops what the callers await. -/
theorem sound_ret (h : Fetched env trusted frame callers i) (opcode : i.opcode = .ret) :
    (s.ret { frame with pc := frame.pc + 1 } callers).Sound env.program trusted := by
  have enough := h.enough
  simp only [Program.stackEffect, opcode] at enough
  have below := h.callers
  unfold State.ret Frame.returnValue
  by_cases value : frame.function.returnsValue = true
  · simp only [value, if_true] at enough ⊢
    obtain ⟨v, rest, operands, popped⟩ :=
      Frame.pop_of_le { frame with pc := frame.pc + 1 } "RET" enough
    simp only [popped, bind, Except.bind]
    by_cases admitted : frame.function.result.admits v = true
    · rw [if_pos admitted]
      cases callers with
      | nil => trivial
      | cons caller rest =>
          obtain ⟨trusts, at_, others⟩ := below
          refine ⟨trusts, ⟨at_.slots, ?_⟩, others⟩
          intro heights found inside
          have known := at_.height heights found inside
          simpa [Frame.push, LinkedFunction.results, value] using known
    · rw [if_neg admitted]
      rfl
  · have none : frame.function.results = 0 := by simp [LinkedFunction.results, value]
    simp only [value, Bool.false_eq_true, if_false]
    rw [none] at below
    simpa [StepResult.Sound] using below

theorem sound_call (h : Fetched env trusted frame callers i) (fuel : Nat)
    (opcode : i.opcode = .call) :
    (s.call env fuel { frame with pc := frame.pc + 1 } callers i.arg).Sound env.program
      trusted := by
  have checked := h.checked
  have enough := h.enough
  simp only [Program.operandProblem?, opcode] at checked
  unfold State.call
  cases callee : env.program.function i.arg with
  | error fault => simp [callee] at checked
  | ok f =>
      have effect : env.program.stackEffect frame.function i = (f.arity, f.results) := by
        simp [Program.stackEffect, opcode, callee, LinkedFunction.results]
      rw [effect] at enough
      have required : Frame.require { frame with pc := frame.pc + 1 } "CALL" f.arity = .ok () := by
        simp only [Frame.require]
        rw [if_neg (by simpa using enough)]
      have waiting : ∀ results : List Value, results.length ≤ f.results →
          CallStack.AtHeights env.program trusted (f.results - results.length)
            ({ frame with
                pc := frame.pc + 1
                operands := results ++ frame.operands.drop f.arity } :: callers) := by
        intro results few
        refine h.moved rfl rfl (by simp [Instruction.successors, opcode]) ?_
        simp only [effect, List.length_append, List.length_drop]
        omega
      simp only [required]
      split
      · rfl
      · split
        · trivial
        · rename_i returned
          have none := State.results_of_tryNative returned
          have stack := waiting [] (by simp)
          simp only [Option.toList_none, List.length_nil] at none
          simpa [StepResult.Sound, ← none] using stack
        · rename_i v _ returned
          have one := State.results_of_tryNative returned
          simp only [Option.toList_some, List.length_singleton] at one
          have stack := waiting [v] (by simp [← one])
          simpa [StepResult.Sound, State.withFrame, Frame.push, ← one] using stack
        · have stack := waiting [] (by simp)
          refine ⟨h.closed.callees _ h.trusts i h.member opcode f callee, ?_,
            by simpa [Frame.enter] using stack⟩
          apply Frame.atHeight_enter
          rw [List.length_take]
          exact Nat.min_eq_left enough

end Fetched

end

/-- A step from frames at their heights keeps them there, and does not fail with an excluded
fault. -/
theorem State.step_sound {env : Environment} {trusted : LinkedFunction → Prop} {s : State}
    (closed : CallClosed env.program trusted) (fuel : Nat) (active : s.frames ≠ [])
    (heights : CallStack.AtHeights env.program trusted 0 s.frames) :
    (s.step env fuel).Sound env.program trusted := by
  unfold State.step
  cases frames : s.frames with
  | nil => exact absurd frames active
  | cons frame callers =>
      rw [frames] at heights
      obtain ⟨trusts, here, below⟩ := heights
      dsimp only
      cases fetched : frame.fetch? with
      | none => rfl
      | some i =>
          have h : Fetched env trusted frame callers i := ⟨closed, trusts, here, below, fetched⟩
          dsimp only
          unfold State.execute
          cases opcode : i.opcode with
          | newarr => exact h.sound_newArray opcode
          | stelem => exact h.sound_storeElement opcode
          | ldelem => exact h.sound_continueWith (h.proceeds_loadOperands _ opcode)
          | call => exact h.sound_call fuel opcode
          | ret => exact h.sound_ret opcode
          | print => exact h.sound_print opcode
          | halt => exact h.sound_halt opcode
          | _ =>
              refine h.sound_continueWith (Frame.execute_proceeds ?_ rfl here.slots h.checked
                h.enough)
              rw [opcode]
              rfl

/-! ## Whole runs -/

/-- Frames stay at their heights along every chain of steps. -/
theorem CallStack.AtHeights.trusted {p : Program} {trusted : LinkedFunction → Prop}
    {awaited : Nat} {stack : CallStack} (heights : CallStack.AtHeights p trusted awaited stack) :
    ∀ frame ∈ stack, trusted frame.function := by
  induction stack generalizing awaited with
  | nil =>
      intro frame member
      cases member
  | cons top callers ih =>
      obtain ⟨here, _, below⟩ := heights
      intro frame member
      rcases List.mem_cons.mp member with rfl | later
      · exact here
      · exact ih below frame later

theorem Steps.atHeights {env : Environment} {trusted : LinkedFunction → Prop} {n : Nat}
    {s t : State} (closed : CallClosed env.program trusted) (chain : Steps env n s t)
    (heights : CallStack.AtHeights env.program trusted 0 s.frames) :
    CallStack.AtHeights env.program trusted 0 t.frames := by
  have kept : ∀ (s t : State) (fuel : Nat), CallStack.AtHeights env.program trusted 0 s.frames →
      s.step env fuel = .next t → CallStack.AtHeights env.program trusted 0 t.frames := by
    intro s t fuel before step
    have sound := State.step_sound closed fuel (State.frames_ne_nil_of_step step) before
    rw [step] at sound
    exact sound
  exact chain.invariant kept heights

/-- The faults of a run are those of the steps that it can reach, and failures of the console. -/
theorem State.fault_of_run {env : Environment} {fuel : Nat} {s t : State}
    {entry : LinkedFunction} {e : RuntimeError} (run : s.run env fuel entry = some (t, .error e)) :
    (∃ reason, e.fault = .io reason) ∨
      ∃ n u left v, Steps env n { s with frames := [Frame.enter entry []] } u ∧ u.frames ≠ [] ∧
        u.step env left = .failed e.fault v := by
  rcases State.runsTo_of_run run with ⟨reason, _, rfl⟩ | ⟨left, u, v, runs, active, failed, _⟩
  · exact .inl ⟨reason, rfl⟩
  · obtain ⟨n, chain⟩ := runs.steps
    exact .inr ⟨n, u, left, v, chain, active, failed⟩

/-- Neither a reachable step nor a run fails with an excluded fault if the entry is one of a set
of accepted functions that call only each other. -/
theorem CallClosed.no_excluded_fault {env : Environment} {trusted : LinkedFunction → Prop}
    (closed : CallClosed env.program trusted) (s : State) {entry : LinkedFunction}
    (trusts : trusted entry) (parameterless : entry.params = []) :
    (∀ n t fuel fault u, Steps env n { s with frames := [Frame.enter entry []] } t →
      t.frames ≠ [] → t.step env fuel = .failed fault u → fault.isExcluded = false) ∧
    ∀ fuel t e, s.run env fuel entry = some (t, .error e) → e.fault.isExcluded = false := by
  have reachable : ∀ n t fuel fault u, Steps env n { s with frames := [Frame.enter entry []] } t →
      t.frames ≠ [] → t.step env fuel = .failed fault u → fault.isExcluded = false := by
    intro n t fuel fault u chain active step
    have arity : ([] : List Value).length = entry.arity := by
      simp [LinkedFunction.arity, parameterless]
    have heights := chain.atHeights closed ⟨trusts, Frame.atHeight_enter arity, trivial⟩
    have sound := State.step_sound closed fuel active heights
    rw [step] at sound
    exact sound
  refine ⟨reachable, ?_⟩
  intro fuel t e run
  rcases State.fault_of_run run with ⟨reason, io⟩ | ⟨n, u, left, v, chain, active, step⟩
  · rw [io]
    rfl
  · exact reachable n u left _ v chain active step

theorem Program.accepted_of_verifyAll {p : Program} {functions : List LinkedFunction}
    (verified : p.verifyAll functions = .ok ()) : ∀ f ∈ functions, p.verifyFunction f = .ok () := by
  induction functions with
  | nil => intro f member; cases member
  | cons g rest ih =>
      simp only [verifyAll] at verified
      split at verified
      · cases verified
      · rename_i accepted
        intro f member
        rcases List.mem_cons.mp member with rfl | member
        · exact accepted
        · exact ih verified f member

theorem Program.mem_of_function {p : Program} {f : LinkedFunction} {index : Nat}
    (found : p.function index = .ok f) : f ∈ p.functions := by
  unfold function at found
  split at found
  · rename_i at_index
    cases found
    exact Array.mem_of_getElem? at_index
  · cases found

/-- The functions of a program that is verified as a whole. -/
theorem Program.callClosed_of_verified {p : Program} (verified : p.verifyFrom 0 = .ok ()) :
    CallClosed p (· ∈ p.functions) where
  accepted f member := accepted_of_verifyAll verified f (by simpa using member)
  callees f _ i _ _ g found := mem_of_function found

/-- No step that a run of a verified program can reach fails with an excluded fault, and so no
run does, whatever compiler is in use. -/
theorem verified_program_meets_no_excluded_fault (env : Environment) (s : State)
    (entry : LinkedFunction) (verified : env.program.verifyFrom 0 = .ok ())
    (registered : entry ∈ env.program.functions) (parameterless : entry.params = []) :
    (∀ n t fuel fault u, Steps env n { s with frames := [Frame.enter entry []] } t →
      t.frames ≠ [] → t.step env fuel = .failed fault u → fault.isExcluded = false) ∧
    ∀ fuel t e, s.run env fuel entry = some (t, .error e) → e.fault.isExcluded = false :=
  (Program.callClosed_of_verified verified).no_excluded_fault s registered parameterless

namespace Countdown

def main : LinkedFunction :=
  ⟨"Main", ⟨0, 0, 0, 0, 0,
    #[⟨.ldc, some 0⟩, ⟨.call, some 1⟩, ⟨.print, none⟩, ⟨.ret, none⟩]⟩, [], .void⟩

def loop : LinkedFunction :=
  ⟨"Countdown", ⟨0, 0, 0, 0, 1,
    #[⟨.store, some 0⟩, ⟨.ldv, some 0⟩, ⟨.jz, some 8⟩, ⟨.ldv, some 0⟩, ⟨.ldc, some 0⟩,
      ⟨.binary .sub, none⟩, ⟨.store, some 0⟩, ⟨.jmp, some 1⟩, ⟨.ldv, some 0⟩, ⟨.ret, none⟩]⟩,
    [.int .i32], .int .i32⟩

def program : Program :=
  ⟨#[⟨.int .i32, [0, 0, 0, 1]⟩], #[main, loop], #[], ⟨[("Main", 0), ("Countdown", 1)]⟩, .empty⟩

def environment : Environment := ⟨{ jitThreshold := 0 }, some .bundled, program⟩

theorem meets_no_excluded_fault :
    program.verifyFrom 0 = .ok () ∧ main ∈ program.functions ∧
      ∀ fuel t e, (State.start environment.config .working (.empty none)).run environment fuel main
        = some (t, .error e) → e.fault.isExcluded = false := by
  have verified : environment.program.verifyFrom 0 = .ok () := by cbv
  have registered : main ∈ environment.program.functions := by simp [environment, program]
  exact ⟨verified, registered,
    (verified_program_meets_no_excluded_fault environment _ main verified registered rfl).2⟩

end Countdown

end StackMachine
