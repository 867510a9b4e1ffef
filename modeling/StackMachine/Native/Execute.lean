import StackMachine.Native.Step

/-! # Execution of native code

Native code has a stack and locals of words, and reaches the heap only to read and write array
elements. Its stores are held back in a journal until the function returns, so that a call that
fails leaves the heap as it was; its loads see the journal first.
-/

namespace StackMachine

/-! ## Array elements as words -/

namespace Heap

def wordIndex (index : Int64) : Value := .ofInt .i64 index.toInt

def loadWord (h : Heap) (r : HeapRef) (index : Int64) : Except NativeError Int64 :=
  match h.loadElement r (wordIndex index) with
  | .error fault => .error (.fault fault)
  | .ok v =>
      match v.toLane? with
      | some word => .ok word
      | none =>
          .error (.fault (.typeMismatch "LDELEM" s!"{v.tagName} element in native code"))

/-- The place in the array that takes the word at the index, and the value it is there. -/
def storeWordSlot (h : Heap) (r : HeapRef) (index word : Int64) :
    Except NativeError (Nat × Value) :=
  match h.get r with
  | .error fault => .error (.fault fault)
  | .ok o =>
      match o.element with
      | none => .error (.fault (.notAnArray r.text))
      | some element =>
          match Value.ofLane? word element with
          | none =>
              .error (.fault (.typeMismatch "STELEM" s!"{element.text} element in native code"))
          | some v =>
              match h.storeSlot r (wordIndex index) v with
              | .error fault => .error (.fault fault)
              | .ok slot => .ok (slot, v)

def storeWord (h : Heap) (r : HeapRef) (index word : Int64) : Except NativeError Heap :=
  match h.storeWordSlot r index word with
  | .error e => .error e
  | .ok (slot, v) => .ok (h.putElement r slot v)

end Heap

/-! ## The state of a native call -/

/-- A store that is held back. -/
structure HeldStore where
  array : HeapRef
  index : Int64
  word : Int64
  deriving DecidableEq

structure NativeState where
  pc : Nat
  /-- The top of the stack comes first. -/
  stack : List Int64
  locals : Array Int64
  /-- The newest store comes first. -/
  journal : List HeldStore
  deriving DecidableEq

/-- What a step leads to. -/
inductive Flow where
  | next (s : NativeState)
  | returned (word : Int64) (s : NativeState)
  deriving DecidableEq

def wordOfBool (b : Bool) : Int64 := if b then 1 else 0

def BinaryOp.onWords (lane : Lane) : BinaryOp → Int64 → Int64 → Except NativeError Int64
  | .add, a, b => .ok (lane.wrap (a + b))
  | .sub, a, b => .ok (lane.wrap (a - b))
  | .mul, a, b => .ok (lane.wrap (a * b))
  | .div, a, b => if b = 0 then .error .divisionByZero else .ok (lane.wrap (a / b))
  | .mod, a, b => if b = 0 then .error .divisionByZero else .ok (lane.wrap (a % b))
  | .eq, a, b => .ok (wordOfBool (a == b))
  | .lt, a, b => .ok (wordOfBool (decide (a < b)))
  | .leq, a, b => .ok (wordOfBool (decide (a ≤ b)))
  | .lor, a, b => .ok (wordOfBool (a != 0 || b != 0))
  | .land, a, b => .ok (wordOfBool (a != 0 && b != 0))

def UnaryOp.onWord (lane : Lane) : UnaryOp → Int64 → Int64
  | .min, a => lane.wrap (-a)
  | .neg, a => wordOfBool (a == 0)

/-- The array that a word refers to. -/
def refOfWord (word : Int64) : HeapRef := ⟨word.toUInt64.toUInt32⟩

namespace NativeState

def start (args : List Int64) (locals : Nat) : NativeState :=
  ⟨0, args.reverse, Array.replicate locals 0, []⟩

def goOn (s : NativeState) (stack : List Int64) : Flow :=
  .next { s with pc := s.pc + 1, stack := stack }

def jump (s : NativeState) (target : Nat) (stack : List Int64) : Flow :=
  .next { s with pc := target, stack := stack }

/-- The newest word held back for the element, or else the word in the heap. -/
def load (s : NativeState) (h : Heap) (r : HeapRef) (index : Int64) :
    Except NativeError Int64 :=
  match s.journal.find? fun held => held.array == r && held.index == index with
  | some held => .ok held.word
  | none => h.loadWord r index

/-- Holds a store back, if the array has the index. -/
def store (s : NativeState) (h : Heap) (held : HeldStore) : Except NativeError NativeState :=
  match h.arrayLength held.array with
  | .error fault => .error (.fault fault)
  | .ok length =>
      if 0 ≤ held.index.toInt ∧ held.index.toInt < (length : Int) then
        .ok { s with journal := held :: s.journal }
      else .error (.fault (.indexOutOfBounds held.index.toInt length))

/-- Executes one instruction. Instructions that call, allocate, print, halt or load constants
are not native ones. -/
def instruction (lane : Lane) (returnsValue : Bool) (h : Heap) (s : NativeState)
    (i : Instruction) : Except NativeError Flow :=
  match i.opcode, s.stack with
  | .ldv, stack =>
      match s.locals[i.arg]? with
      | some v => .ok (s.goOn (v :: stack))
      | none => .error (.fault (.localOutOfRange i.arg s.locals.size))
  | .store, v :: stack =>
      if i.arg < s.locals.size then
        .ok ({ s with locals := s.locals.setIfInBounds i.arg v }.goOn stack)
      else .error (.fault (.localOutOfRange i.arg s.locals.size))
  | .dup, v :: stack => .ok (s.goOn (v :: v :: stack))
  | .swap, b :: a :: stack => .ok (s.goOn (a :: b :: stack))
  | .binary op, b :: a :: stack =>
      match op.onWords lane a b with
      | .ok v => .ok (s.goOn (v :: stack))
      | .error e => .error e
  | .unary op, a :: stack => .ok (s.goOn (op.onWord lane a :: stack))
  | .jmp, stack => .ok (s.jump i.arg stack)
  | .jz, v :: stack => .ok (if v = 0 then s.jump i.arg stack else s.goOn stack)
  | .jnz, v :: stack => .ok (if v = 0 then s.goOn stack else s.jump i.arg stack)
  | .ldelem, index :: array :: stack =>
      match s.load h (refOfWord array) index with
      | .ok v => .ok (s.goOn (v :: stack))
      | .error e => .error e
  | .stelem, word :: index :: array :: stack =>
      match s.store h ⟨refOfWord array, index, word⟩ with
      | .ok s => .ok (s.goOn stack)
      | .error e => .error e
  | .ret, stack =>
      if returnsValue then
        match stack with
        | v :: stack => .ok (.returned v { s with stack := stack })
        | [] => .error .stackUnderflow
      else .ok (.returned 0 s)
  | .ldc, _ | .call, _ | .newarr, _ | .print, _ | .halt, _ =>
      .error (.unsupported "" i.opcode.mnemonic)
  | _, _ => .error .stackUnderflow

def step (lane : Lane) (returnsValue : Bool) (h : Heap) (s : NativeState) :
    Step → Except NativeError Flow
  | .push v => .ok (s.goOn (v :: s.stack))
  | .op i => s.instruction lane returnsValue h i

end NativeState

/-! ## Native functions -/

structure NativeFunction where
  name : String
  arity : Nat
  locals : Nat
  lane : Lane
  returnsValue : Bool
  code : Array Step
  deriving DecidableEq

namespace NativeFunction

/-- Runs to the return, a failure, or the end of the fuel, which gives nothing. -/
def execute (f : NativeFunction) (h : Heap) :
    Nat → NativeState → Option (Except NativeError (Int64 × List HeldStore))
  | 0, _ => none
  | fuel + 1, s =>
      match f.code[s.pc]? with
      | none => some (.error (.missingReturn f.name))
      | some step =>
          match s.step f.lane f.returnsValue h step with
          | .error e => some (.error e)
          | .ok (.returned v s) => some (.ok (v, s.journal))
          | .ok (.next s) => f.execute h fuel s

/-- Makes the held stores, the oldest first, until one fails. -/
def commit (h : Heap) : List HeldStore → Heap × Except NativeError Unit
  | [] => (h, .ok ())
  | held :: rest =>
      match h.storeWordSlot held.array held.index held.word with
      | .ok (slot, v) => commit (h.putElement held.array slot v) rest
      | .error e => (h, .error e)

/-- Calls the function. The heap changes only if the function returns. -/
def invoke (f : NativeFunction) (fuel : Nat) (args : List Int64) (h : Heap) :
    Option (Heap × Except NativeError Int64) :=
  match f.execute h fuel (.start args f.locals) with
  | none => none
  | some (.error e) => some (h, .error e)
  | some (.ok (v, journal)) =>
      match commit h journal.reverse with
      | (h, .ok ()) => some (h, .ok v)
      | (h, .error e) => some (h, .error e)

end NativeFunction

end StackMachine
