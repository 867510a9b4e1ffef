import StackMachine.Program.Basic

/-! # Frames and the call stack

A frame is one activation of a function: its program counter, its local slots and its operand
stack. The call stack has the innermost frame first. All values in its frames are roots: what
they refer to stays in the heap.
-/

namespace StackMachine

structure Frame where
  function : LinkedFunction
  pc : Nat
  locals : Array Value
  /-- The top of the operand stack comes first. -/
  operands : List Value
  deriving DecidableEq

namespace Frame

/-- A fresh activation, whose arguments are on the operand stack, the last one on top. -/
def enter (f : LinkedFunction) (operands : List Value) : Frame :=
  ⟨f, 0, Array.replicate f.locals Value.unset, operands⟩

def push (frame : Frame) (v : Value) : Frame :=
  { frame with operands := v :: frame.operands }

def pop (frame : Frame) (operation : String) : Except Fault (Value × Frame) :=
  match frame.operands with
  | v :: rest => .ok (v, { frame with operands := rest })
  | [] => .error (.operandStackUnderflow operation 1 0)

def peek (frame : Frame) (operation : String) : Except Fault Value :=
  match frame.operands with
  | v :: _ => .ok v
  | [] => .error (.operandStackUnderflow operation 1 0)

/-- Fails unless there are `needed` operands. -/
def require (frame : Frame) (operation : String) (needed : Nat) : Except Fault Unit :=
  if frame.operands.length < needed then
    .error (.operandStackUnderflow operation needed frame.operands.length)
  else .ok ()

/-- Takes the two topmost operands off: the lower one and the upper one. -/
def pop2 (frame : Frame) (operation : String) : Except Fault (Value × Value × Frame) :=
  match frame.operands with
  | b :: a :: rest => .ok (a, b, { frame with operands := rest })
  | few => .error (.operandStackUnderflow operation 2 few.length)

/-- Takes the three topmost operands off, and gives them from the lowest up. -/
def pop3 (frame : Frame) (operation : String) :
    Except Fault (Value × Value × Value × Frame) :=
  match frame.operands with
  | c :: b :: a :: rest => .ok (a, b, c, { frame with operands := rest })
  | few => .error (.operandStackUnderflow operation 3 few.length)

def loadLocal (frame : Frame) (index : Nat) : Except Fault Value :=
  match frame.locals[index]? with
  | some v => .ok v
  | none => .error (.localOutOfRange index frame.locals.size)

def storeLocal (frame : Frame) (index : Nat) (v : Value) : Except Fault Frame :=
  if index < frame.locals.size then
    .ok { frame with locals := frame.locals.setIfInBounds index v }
  else .error (.localOutOfRange index frame.locals.size)

def jump (frame : Frame) (target : Nat) : Except Fault Frame :=
  if target < frame.function.code.size then .ok { frame with pc := target }
  else .error (.jumpOutOfBounds target frame.function.code.size)

/-- The instruction at the program counter. -/
def fetch? (frame : Frame) : Option Instruction := frame.function.code[frame.pc]?

/-- Function and place, as backtraces show them. -/
def context (frame : Frame) : String := s!"{frame.function.name}@{frame.pc}"

/-- The values that the frame holds: locals, then operands from the lowest up. -/
def roots (frame : Frame) : List Value := frame.locals.toList ++ frame.operands.reverse

end Frame

/-- The active frames, the innermost first. -/
abbrev CallStack := List Frame

namespace CallStack

def depth (stack : CallStack) : Nat := stack.length

def current (stack : CallStack) : Except Fault Frame :=
  match stack with
  | frame :: _ => .ok frame
  | [] => .error .noActiveFrame

/-- Replaces the innermost frame by what `f` makes of it. -/
def modifyCurrent (stack : CallStack) (f : Frame → Except Fault Frame) :
    Except Fault CallStack :=
  match stack with
  | frame :: callers => (f frame).map (· :: callers)
  | [] => .error .noActiveFrame

def popFrame (stack : CallStack) : Except Fault (Frame × CallStack) :=
  match stack with
  | frame :: callers => .ok (frame, callers)
  | [] => .error .stackUnderflow

/-- Every value held by a frame, the outermost frame first. -/
def roots (stack : CallStack) : List Value := stack.reverse.flatMap Frame.roots

/-- The contexts of the frames, the outermost first. -/
def backtrace (stack : CallStack) : List String := stack.reverse.map Frame.context

end CallStack

end StackMachine
