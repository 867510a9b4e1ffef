import StackMachine.Machine.State

/-! # One step of a run

A step fetches an instruction of the innermost frame, advances the frame's program counter and
executes the instruction. Most instructions change the innermost frame only; the others reach
the heap, the console or the call stack.
-/

namespace StackMachine

/-! ## Instructions on a frame -/

/-- Jumps if the top operand fails, or holds, as a condition. -/
def Frame.branch (frame : Frame) (operation : String) (onFalsy : Bool) (target : Nat) :
    Except Fault Frame := do
  let (condition, frame) ← frame.pop operation
  match condition.falsy? with
  | none =>
      .error (.typeMismatch operation
        s!"condition must be an integer or boolean, got {condition.tagName}")
  | some falsy => if falsy = onFalsy then frame.jump target else .ok frame

/-- Executes an instruction that concerns the innermost frame only. -/
def Frame.execute (p : Program) (frame : Frame) (i : Instruction) : Except Fault Frame :=
  match i.opcode with
  | .ldc => do
      let v ← p.constantValue i.arg
      .ok (frame.push v)
  | .ldv => do
      let v ← frame.loadLocal i.arg
      .ok (frame.push v)
  | .store => do
      let (v, frame) ← frame.pop "STORE"
      frame.storeLocal i.arg v
  | .dup => do
      let v ← frame.peek "DUP"
      .ok (frame.push v)
  | .swap => do
      let (a, b, frame) ← frame.pop2 "SWAP"
      .ok ((frame.push b).push a)
  | .binary op => do
      let (a, b, frame) ← frame.pop2 i.opcode.mnemonic
      let v ← op.apply a b
      .ok (frame.push v)
  | .unary op => do
      let (a, frame) ← frame.pop i.opcode.mnemonic
      let v ← op.apply a
      .ok (frame.push v)
  | .jmp => frame.jump i.arg
  | .jz => frame.branch "JZ" true i.arg
  | .jnz => frame.branch "JNZ" false i.arg
  | _ => .ok frame

/-! ## Results of a step -/

inductive StepResult where
  | next (s : State)
  | halted (code : Int) (s : State)
  | failed (fault : Fault) (s : State)
  /-- Native code was called and did not come to an end. -/
  | outOfFuel

def State.withFrame (s : State) (frame : Frame) (callers : CallStack) : State :=
  { s with frames := frame :: callers }

/-- Goes on with the new innermost frame, or fails with the old one. -/
def State.continueWith (s : State) (frame : Frame) (callers : CallStack) :
    Except Fault Frame → StepResult
  | .ok after => .next (s.withFrame after callers)
  | .error fault => .failed fault (s.withFrame frame callers)

/-! ## Arrays -/

/-- The element type and the length that an allocation asks for, and the frame without the
length. -/
def arrayRequest (p : Program) (frame : Frame) (index : Nat) :
    Except Fault (Descriptor × Nat × Frame) := do
  let element ← p.descriptor index
  let (size, frame) ← frame.pop "NEWARR"
  match size.widen? with
  | none =>
      .error (.typeMismatch "NEWARR" s!"array size must be an integer, got {size.tagName}")
  | some n =>
      if 0 ≤ n ∧ n < (addressSpace : Int) then .ok (element, n.toNat, frame)
      else .error (.invalidArraySize n)

/-- Allocates an array while the given frames are active, and logs the collections made. -/
def State.allocate (s : State) (stack : CallStack) (element : Descriptor) (length : Nat) :
    State × Except Fault HeapRef :=
  match s with
  | ⟨heap, frames, natives, console, log⟩ =>
      let allocation := heap.allocateArray stack element length
      (⟨allocation.heap, frames, natives, console,
          log.noteAll (allocation.collections.map CollectReport.entry)⟩,
        allocation.result)

def State.newArray (p : Program) (s : State) (frame : Frame) (callers : CallStack)
    (index : Nat) : StepResult :=
  match arrayRequest p frame index with
  | .error fault => .failed fault (s.withFrame frame callers)
  | .ok (element, length, frame) =>
      match s.allocate (frame :: callers) element length with
      | (s, .error fault) => .failed fault (s.withFrame frame callers)
      | (s, .ok r) => .next (s.withFrame (frame.push (.ref r)) callers)

def arrayOperand (v : Value) : Except Fault HeapRef :=
  match v.ref? with
  | some r => .ok r
  | none => .error (.notAnArray v.text)

/-- The array, the place in it and the value of a store, and the frame without them. -/
def storeRequest (h : Heap) (frame : Frame) : Except Fault (HeapRef × Nat × Value × Frame) := do
  let (array, index, v, frame) ← frame.pop3 "STELEM"
  let r ← arrayOperand array
  let slot ← h.storeSlot r index v
  .ok (r, slot, v, frame)

def State.storeElement (s : State) (frame : Frame) (callers : CallStack) : StepResult :=
  match storeRequest s.heap frame with
  | .error fault => .failed fault (s.withFrame frame callers)
  | .ok (r, slot, v, frame) =>
      .next ({ s with heap := s.heap.putElement r slot v }.withFrame frame callers)

def loadOperands (h : Heap) (frame : Frame) : Except Fault Frame := do
  let (array, index, frame) ← frame.pop2 "LDELEM"
  let r ← arrayOperand array
  let v ← h.loadElement r index
  .ok (frame.push v)

/-! ## Calls -/

/-- The word for an argument that is exactly what the parameter declares, including the element
type of an array. -/
def nativeArgument (h : Heap) (param : Descriptor) (arg : Value) : Option Int64 :=
  if param.admits arg then
    match param with
    | .array element =>
        match arg.ref?.bind h.get? with
        | some o => if o.element = some element then arg.toLane? else none
        | none => none
    | _ => arg.toLane?
  else none

def nativeArguments (h : Heap) (params : List Descriptor) (args : List Value) :
    Option (List Int64) :=
  (params.zip args).mapM fun (param, arg) => nativeArgument h param arg

/-- Compiles a function, or gives up on its native code. -/
def State.compileNative (env : Environment) (compiler : Compiler) (s : State) (index : Nat)
    (f : LinkedFunction) : State × Option NativeCode :=
  let able := compiler.canCompile env.program f
  let s := s.noteAll able.2
  if able.1 then
    let compiled := compiler.compile env.program f
    let s := s.noteAll compiled.2
    let status := s.natives.get index
    match compiled.1 with
    | .ok code =>
        let s := s.note .debug fun _ =>
          s!"compiled {f.name}{f.signature} after {status.calls} calls"
        (s.setNative index (status.install code), some code)
    | .error e =>
        let s := s.note .debug fun _ => s!"compiling {f.name} failed: {e.message}"
        (s.disableNative index, none)
  else
    let s := s.note .debug fun _ => s!"{f.name} is not compilable, staying interpreted"
    (s.disableNative index, none)

/-- Counts a call and finds the native code for it: none while the function is not called often
enough, and none once it was given up. -/
def State.nativeCode (env : Environment) (s : State) (index : Nat) (f : LinkedFunction) :
    State × Option NativeCode :=
  match env.compiler with
  | none => (s, none)
  | some compiler =>
      let status := s.natives.get index
      if status.disabled then (s, none)
      else
        let status := status.recordCall
        let s := s.setNative index status
        if status.calls ≤ env.config.jitThreshold then (s, none)
        else
          match status.code with
          | some code => (s, some code)
          | none => s.compileNative env compiler index f

/-- What came of an attempt to call native code. -/
inductive NativeCall where
  | returned (value : Option Value) (s : State)
  | unavailable (s : State)
  | outOfFuel

/-- Calls native code; a failure, or a result without a form in the result type, gives it up. -/
def State.invokeNative (fuel : Nat) (s : State) (index : Nat) (f : LinkedFunction)
    (code : NativeCode) (args : List Value) : NativeCall :=
  match nativeArguments s.heap f.params args with
  | none => .unavailable s
  | some words =>
      match code.invoke fuel words s.heap with
      | none => .outOfFuel
      | some (heap, .ok raw) =>
          let s := { s with heap := heap }
          if f.result.isVoid then .returned none s
          else
            match Value.ofLane? raw f.result with
            | some v => .returned (some v) s
            | none =>
                let s := s.note .warn fun _ =>
                  s!"native result of {f.name} has no {f.result.text} form"
                .unavailable (s.disableNative index)
      | some (heap, .error e) =>
          let s := { s with heap := heap }.note .warn fun _ =>
            s!"native call to {f.name} failed ({e.message}), falling back to the interpreter"
          .unavailable (s.disableNative index)

def State.tryNative (env : Environment) (fuel : Nat) (s : State) (index : Nat)
    (f : LinkedFunction) (args : List Value) : NativeCall :=
  match s.nativeCode env index f with
  | (s, none) => .unavailable s
  | (s, some code) => s.invokeNative fuel index f code args

/-- Calls a function with the topmost operands of the innermost frame: natively if possible,
else in a frame of its own. -/
def State.call (env : Environment) (fuel : Nat) (s : State) (frame : Frame)
    (callers : CallStack) (index : Nat) : StepResult :=
  match env.program.function index with
  | .error fault => .failed fault (s.withFrame frame callers)
  | .ok f =>
      match frame.require "CALL" f.arity with
      | .error fault => .failed fault (s.withFrame frame callers)
      | .ok () =>
          let args := frame.operands.take f.arity
          let frame := { frame with operands := frame.operands.drop f.arity }
          let caller := frame :: callers
          if caller.length ≥ env.config.maxCallDepth then
            .failed (.callDepthExceeded env.config.maxCallDepth) { s with frames := caller }
          else
            match s.tryNative env fuel index f args.reverse with
            | .outOfFuel => .outOfFuel
            | .returned none s => .next { s with frames := caller }
            | .returned (some v) s => .next (s.withFrame (frame.push v) callers)
            | .unavailable s => .next { s with frames := Frame.enter f args :: caller }

/-- The value that a return hands on: none from a function without a result. -/
def Frame.returnValue (frame : Frame) : Except Fault (Option Value) :=
  if frame.function.returnsValue then do
    let (v, _) ← frame.pop "RET"
    if frame.function.result.admits v then .ok (some v)
    else
      .error (.returnTypeMismatch frame.function.name frame.function.result.text v.tagName)
  else .ok none

/-- The callers of a frame that returned the value. -/
def CallStack.receive (callers : CallStack) (value : Option Value) : CallStack :=
  match callers, value with
  | caller :: rest, some v => caller.push v :: rest
  | callers, _ => callers

def State.ret (s : State) (frame : Frame) (callers : CallStack) : StepResult :=
  match frame.returnValue with
  | .error fault => .failed fault (s.withFrame frame callers)
  | .ok value => .next { s with frames := CallStack.receive callers value }

/-! ## Output and exit -/

def State.print (s : State) (frame : Frame) (callers : CallStack) : StepResult :=
  match frame.pop "PRINT" with
  | .error fault => .failed fault (s.withFrame frame callers)
  | .ok (v, after) =>
      match s.console.writeFault? v.text with
      | some fault => .failed fault (s.withFrame frame callers)
      | none => .next ({ s with console := s.console.append v.text }.withFrame after callers)

def exitCode (p : Program) (index : Nat) : Except Fault Int := do
  let v ← p.constantValue index
  let mismatch : Fault :=
    .typeMismatch "HALT" s!"exit code must fit in I32, got {v.tagName} {v.text}"
  match v.widen? with
  | none => .error mismatch
  | some n => if IntKind.i32.Contains n then .ok n else .error mismatch

def State.halt (p : Program) (s : State) (frame : Frame) (callers : CallStack) (index : Nat) :
    StepResult :=
  match exitCode p index with
  | .error fault => .failed fault (s.withFrame frame callers)
  | .ok code =>
      let s := s.note .debug fun _ =>
        s!"halt with exit code {code} at depth {callers.length + 1}"
      .halted code { s with frames := [] }

/-! ## The step -/

/-- Executes an instruction in the innermost frame, whose program counter is past it. -/
def State.execute (env : Environment) (fuel : Nat) (s : State) (frame : Frame)
    (callers : CallStack) (i : Instruction) : StepResult :=
  match i.opcode with
  | .newarr => s.newArray env.program frame callers i.arg
  | .stelem => s.storeElement frame callers
  | .ldelem => s.continueWith frame callers (loadOperands s.heap frame)
  | .call => s.call env fuel frame callers i.arg
  | .ret => s.ret frame callers
  | .print => s.print frame callers
  | .halt => s.halt env.program frame callers i.arg
  | _ => s.continueWith frame callers (frame.execute env.program i)

/-- One step. Control must not run past the end of a function. -/
def State.step (env : Environment) (fuel : Nat) (s : State) : StepResult :=
  match s.frames with
  | [] => .failed .noActiveFrame s
  | frame :: callers =>
      match frame.fetch? with
      | none => .failed (.missingReturn frame.function.name) s
      | some i =>
          let s := s.note .trace fun _ => s!"{frame.context}: {i.text}"
          s.execute env fuel { frame with pc := frame.pc + 1 } callers i

end StackMachine
