import StackMachine.Frame

/-! # Heap

Objects live in numbered slots and never move. Slot 0 is always empty, so the null reference
names nothing; the other empty slots are on a free list. Each object has a footprint, the bytes
that it is charged for.
-/

namespace StackMachine

structure HeapObject where
  /-- An opening bracket and the element type, or the name of a class. -/
  tag : String
  element : Option Descriptor
  fields : Array Value
  marked : Bool
  generation : Nat
  footprint : Nat
  deriving DecidableEq

namespace HeapObject

def isArrayTag (tag : String) : Bool := tag.toList.head? == some '['

def isArray (o : HeapObject) : Bool := isArrayTag o.tag

def headerBytes : Nat := 88

def slotBytes : Nat := 32

end HeapObject

/-- The bytes charged for an object: header, tag, fields, and the texts of string fields. -/
def footprint (tag : String) (fields : Array Value) : Nat :=
  HeapObject.headerBytes + tag.utf8ByteSize + fields.size * HeapObject.slotBytes
    + fields.toList.foldr (fun v bytes => v.payloadBytes + bytes) 0

/-- The bytes charged for an array of equal elements, computed without building it. -/
def arrayFootprint (tag : String) (v : Value) (length : Nat) : Nat :=
  (HeapObject.slotBytes + v.payloadBytes) * length
    + (HeapObject.headerBytes + tag.utf8ByteSize)

structure Heap where
  slots : Array (Option HeapObject)
  /-- The empty slots other than 0; the first is used next. -/
  free : List Nat
  live : Nat
  usedBytes : Nat
  maxBytes : Nat
  gcEnabled : Bool
  collections : Nat
  deriving DecidableEq

namespace Heap

def empty (maxBytes : Nat) (gcEnabled : Bool) : Heap :=
  ⟨#[none], [], 0, 0, maxBytes, gcEnabled, 0⟩

def get? (h : Heap) (r : HeapRef) : Option HeapObject := h.slots[r.index]?.join

def get (h : Heap) (r : HeapRef) : Except Fault HeapObject :=
  match h.get? r with
  | some o => .ok o
  | none => .error (.invalidHeapRef r.index)

def isLive (h : Heap) (r : HeapRef) : Bool := (h.get? r).isSome

def generation? (h : Heap) (r : HeapRef) : Option Nat := (h.get? r).map (·.generation)

/-- Changes the object that the reference names, if there is one. -/
def modify (h : Heap) (r : HeapRef) (f : HeapObject → HeapObject) : Heap :=
  { h with slots := h.slots.modify r.index (Option.map f) }

/-- Overwrites a field without a check. The object is charged for as before. -/
def setField (h : Heap) (r : HeapRef) (i : Nat) (v : Value) : Heap × Except Fault Unit :=
  match h.get r with
  | .error fault => (h, .error fault)
  | .ok _ => (h.modify r fun o => { o with fields := o.fields.setIfInBounds i v }, .ok ())

/-! ## Array access -/

def array (h : Heap) (r : HeapRef) : Except Fault HeapObject :=
  match h.get r with
  | .error fault => .error fault
  | .ok o => if o.isArray then .ok o else .error (.notAnArray o.tag)

def arrayLength (h : Heap) (r : HeapRef) : Except Fault Nat :=
  match h.array r with
  | .error fault => .error fault
  | .ok o => .ok o.fields.size

/-- The slot that an index value of any integer kind denotes in an array of the length. -/
def elementSlot (index : Value) (length : Nat) : Except Fault Nat :=
  match index.widen? with
  | none =>
      .error (.typeMismatch "array index" s!"expected an integer, got {index.tagName}")
  | some n =>
      if 0 ≤ n ∧ n < (length : Int) then .ok n.toNat else .error (.indexOutOfBounds n length)

def loadElement (h : Heap) (r : HeapRef) (index : Value) : Except Fault Value :=
  match h.array r with
  | .error fault => .error fault
  | .ok o =>
      match elementSlot index o.fields.size with
      | .error fault => .error fault
      | .ok slot => .ok (o.fields.getD slot Value.unset)

/-- Whether an array may hold the value: any value fits where no element type is known. -/
def fits (element : Option Descriptor) (v : Value) : Bool :=
  match element with
  | none => true
  | some d => d.admits v

/-- The place in the array that takes the value at the index. -/
def storeSlot (h : Heap) (r : HeapRef) (index v : Value) : Except Fault Nat :=
  match h.array r with
  | .error fault => .error fault
  | .ok o =>
      match elementSlot index o.fields.size with
      | .error fault => .error fault
      | .ok slot =>
          if fits o.element v then .ok slot
          else .error (.typeMismatch "STELEM" s!"cannot store {v.tagName} into {o.tag}")

/-- The bytes of text in a field of the object, if there is one. -/
def fieldPayload (h : Heap) (r : HeapRef) (slot : Nat) : Nat :=
  match h.get? r with
  | some o => (o.fields.getD slot Value.unset).payloadBytes
  | none => 0

/-- Overwrites a field and charges for the change in text. -/
def putElement (h : Heap) (r : HeapRef) (slot : Nat) (v : Value) : Heap :=
  let before := h.fieldPayload r slot
  let after := v.payloadBytes
  let stored := h.modify r fun o =>
    { o with
      fields := o.fields.setIfInBounds slot v
      footprint := o.footprint + after - before }
  { stored with usedBytes := stored.usedBytes + after - before }

/-- The heap after the store, which may have failed, and its result. -/
def storeElement (h : Heap) (r : HeapRef) (index v : Value) : Heap × Except Fault Unit :=
  match h.storeSlot r index v with
  | .error fault => (h, .error fault)
  | .ok slot => (h.putElement r slot v, .ok ())

end Heap

end StackMachine
