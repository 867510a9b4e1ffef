import StackMachine.Heap.Collection

/-! # Allocation

An object is placed only if the bytes in use and its footprint stay within the limit. If they
do not, and collection is enabled, the youngest generation is collected, and then, if that was
not enough, everything. An object also needs an id: once all ids are in use, the heap is
exhausted as well.
-/

namespace StackMachine

/-- One more than the greatest footprint that can be asked for. -/
def addressSpace : Nat := 0x10000000000000000

/-- How many ids of objects there are, the null reference included. -/
def handleSpace : Nat := 0x100000000

/-- A heap after an allocation that may have failed, and the collections made for it. -/
structure Allocation where
  heap : Heap
  collections : List CollectReport
  result : Except Fault HeapRef

namespace Heap

def exceeds (h : Heap) (requested : Nat) : Bool := decide (h.maxBytes < h.usedBytes + requested)

def exhausted (h : Heap) (requested : Nat) : Fault :=
  .heapExhausted requested h.usedBytes h.maxBytes

/-- Collects as far as the request needs it. -/
def makeRoom (h : Heap) (stack : CallStack) (requested : Nat) : Heap × List CollectReport :=
  if h.exceeds requested && h.gcEnabled then
    let (young, first) := h.collect 0 stack
    if young.exceeds requested then
      let (all, second) := young.collectFull stack
      (all, [first, second])
    else (young, [first])
  else (h, [])

/-- Places the object in the first free slot, or in a new one if there is an id for it. -/
def insert (h : Heap) (o : HeapObject) : Heap × Except Fault HeapRef :=
  match h.free with
  | slot :: free =>
      ({ h with
          slots := h.slots.setIfInBounds slot (some o)
          free := free
          live := h.live + 1
          usedBytes := h.usedBytes + o.footprint },
        .ok ⟨UInt32.ofNat slot⟩)
  | [] =>
      if h.slots.size < handleSpace then
        let r : HeapRef := ⟨UInt32.ofNat h.slots.size⟩
        ({ h with
            slots := h.slots.push (some o)
            live := h.live + 1
            usedBytes := h.usedBytes + o.footprint },
          .ok r)
      else (h, .error (h.exhausted o.footprint))

def place (h : Heap) (stack : CallStack) (requested : Nat) (object : Unit → HeapObject) :
    Allocation :=
  let (roomy, collections) := h.makeRoom stack requested
  if roomy.exceeds requested then ⟨roomy, collections, .error (roomy.exhausted requested)⟩
  else
    let (placed, result) := roomy.insert (object ())
    ⟨placed, collections, result⟩

/-- The element type that the tag of an array spells. -/
def elementOfTag (tag : String) : Option Descriptor :=
  if HeapObject.isArrayTag tag then (Descriptor.parse? tag).bind Descriptor.element? else none

def allocate (h : Heap) (stack : CallStack) (tag : String) (fields : Array Value) :
    Allocation :=
  h.place stack (footprint tag fields) fun _ =>
    ⟨tag, elementOfTag tag, fields, false, 0, footprint tag fields⟩

def allocateArray (h : Heap) (stack : CallStack) (element : Descriptor) (length : Nat) :
    Allocation :=
  let tag := (Descriptor.array element).text
  match element.default? with
  | none => ⟨h, [], .error (.malformedDescriptor tag)⟩
  | some v =>
      let requested := arrayFootprint tag v length
      if requested < addressSpace then
        h.place stack requested fun _ =>
          ⟨tag, some element, Array.replicate length v, false, 0, requested⟩
      else ⟨h, [], .error (h.exhausted (addressSpace - 1))⟩

end Heap

end StackMachine
