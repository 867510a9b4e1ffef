import StackMachine.Heap.Basic

/-! # Collection

Marking follows references from the roots through objects of every generation. Sweeping frees
the unmarked objects of one generation, or of all of them, and moves the marked ones on to the
next generation, up to the last; objects of other generations stay as they are.
-/

namespace StackMachine

/-- Where objects stay once they have survived often enough. -/
def maxGeneration : Nat := 2

/-- What one collection did; a full one has no generation. -/
structure CollectReport where
  generation : Option Nat
  freed : Nat
  promoted : Nat
  bytesBefore : Nat
  bytesAfter : Nat
  deriving DecidableEq, Repr

def CollectReport.entry (r : CollectReport) : LogEntry :=
  let which := match r.generation with
    | some g => s!"generation {g}"
    | none => "full"
  ⟨.debug, s!"gc: {which} freed {r.freed} promoted {r.promoted} ({r.bytesBefore} -> {r.bytesAfter} bytes)"⟩

namespace HeapObject

def references (o : HeapObject) : List HeapRef := o.fields.toList.filterMap Value.ref?

/-- Whether a sweep of the generation, or of all, looks at the object. -/
def inScope (target : Option Nat) (o : HeapObject) : Bool :=
  match target with
  | none => true
  | some g => o.generation == g

def isFreed (target : Option Nat) (o : HeapObject) : Bool := o.inScope target && !o.marked

def isPromoted (target : Option Nat) (o : HeapObject) : Bool :=
  o.inScope target && o.marked && decide (o.generation < maxGeneration)

/-- The object after a sweep: gone, or unmarked and perhaps promoted. -/
def swept (target : Option Nat) (o : HeapObject) : Option HeapObject :=
  if o.isFreed target then none
  else if o.isPromoted target then
    some { o with marked := false, generation := o.generation + 1 }
  else some { o with marked := false }

end HeapObject

namespace Heap

/-! ## Marking -/

def clearMarks (slots : Array (Option HeapObject)) : Array (Option HeapObject) :=
  slots.map (Option.map fun o => { o with marked := false })

def isUnmarked : Option HeapObject → Bool
  | some o => !o.marked
  | none => false

/-- Marking an object leaves one fewer to be marked. -/
theorem countP_set_marked {slots : Array (Option HeapObject)} {i : Nat} {o : HeapObject}
    (h : i < slots.size) (here : slots[i] = some o) (unseen : ¬ o.marked = true) :
    (slots.set i (some { o with marked := true }) h).countP isUnmarked
      < slots.countP isUnmarked := by
  have before : isUnmarked slots[i] = true := by
    rw [here]
    simpa [isUnmarked] using unseen
  have after : isUnmarked (some { o with marked := true }) = false := rfl
  have counted : 0 < slots.countP isUnmarked :=
    Array.countP_pos_iff.mpr ⟨slots[i], Array.getElem_mem h, before⟩
  rw [Array.countP_set h, before, after]
  simp only [if_true, Bool.false_eq_true, if_false]
  omega

/-- Marks what the references lead to. References to nothing are skipped. -/
def markFrom (slots : Array (Option HeapObject)) (pending : List HeapRef) :
    Array (Option HeapObject) :=
  match pending with
  | [] => slots
  | r :: rest =>
      if h : r.index < slots.size then
        match _slot : slots[r.index] with
        | some o =>
            if _seen : o.marked then markFrom slots rest
            else
              markFrom (slots.set r.index (some { o with marked := true }))
                (o.references ++ rest)
        | none => markFrom slots rest
      else markFrom slots rest
termination_by (slots.countP isUnmarked, pending.length)
decreasing_by
  · exact Prod.Lex.right _ (by simp)
  · exact Prod.Lex.left _ _ (countP_set_marked h ‹_› ‹_›)
  · exact Prod.Lex.right _ (by simp)
  · exact Prod.Lex.right _ (by simp)

def mark (h : Heap) (stack : CallStack) : Heap :=
  { h with slots := markFrom (clearMarks h.slots) (stack.roots.filterMap Value.ref?) }

/-! ## Sweeping -/

/-- The numbers of the slots that a sweep empties, the greatest first. -/
def freedSlots (target : Option Nat) (slots : Array (Option HeapObject)) : List Nat :=
  slots.toList.zipIdx.foldl
    (fun freed (slot, i) => if slot.any (·.isFreed target) then i :: freed else freed) []

/-- The bytes that a sweep gives back. -/
def freedBytes (target : Option Nat) (slots : Array (Option HeapObject)) : Nat :=
  slots.toList.foldl
    (fun bytes slot =>
      match slot with
      | some o => if o.isFreed target then bytes + o.footprint else bytes
      | none => bytes)
    0

def sweep (h : Heap) (target : Option Nat) : Heap × CollectReport :=
  let freed := freedSlots target h.slots
  let promoted := h.slots.countP fun slot => slot.any (·.isPromoted target)
  let bytes := freedBytes target h.slots
  let swept : Heap :=
    { h with
      slots := h.slots.map (·.bind (·.swept target))
      free := freed ++ h.free
      live := h.live - freed.length
      usedBytes := h.usedBytes - bytes
      collections := h.collections + 1 }
  (swept, ⟨target, freed.length, promoted, h.usedBytes, swept.usedBytes⟩)

/-- Collects one generation. -/
def collect (h : Heap) (generation : Nat) (stack : CallStack) : Heap × CollectReport :=
  (h.mark stack).sweep (some generation)

/-- Collects all generations at once. -/
def collectFull (h : Heap) (stack : CallStack) : Heap × CollectReport :=
  (h.mark stack).sweep none

end Heap

end StackMachine
