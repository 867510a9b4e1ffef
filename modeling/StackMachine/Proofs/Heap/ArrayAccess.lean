import Mathlib
import StackMachine.Proofs.HeapLimit

/-! # Access to arrays

When a load or a store succeeds, and what a store leaves as it was. Indices are compared by the
numbers that they denote, whatever their kinds.
-/

namespace StackMachine

/-! ## Indices -/

namespace Value

variable {v : Value} {m n : Int}

/-- The value is an integer, of whatever kind, and its number is `n`. -/
def Denotes (v : Value) (n : Int) : Prop := ∃ a : FixedInt, v = .int a ∧ a.val = n

theorem Denotes.unique (first : v.Denotes m) (second : v.Denotes n) : m = n := by
  obtain ⟨a, rfl, rfl⟩ := first
  obtain ⟨b, same, rfl⟩ := second
  cases same
  rfl

theorem widen?_eq_some_iff : v.widen? = some n ↔ v.Denotes n ∧ n < 2 ^ 127 := by
  have bound : IntKind.i128.bound = 2 ^ 127 := rfl
  cases v with
  | int a =>
      simp only [widen?, bound, Option.ite_none_right_eq_some, Option.some.injEq]
      constructor
      · rintro ⟨small, rfl⟩
        exact ⟨⟨a, rfl, rfl⟩, small⟩
      · rintro ⟨⟨b, same, rfl⟩, small⟩
        cases same
        exact ⟨small, rfl⟩
  | _ => simp [widen?, Denotes]

end Value

namespace Heap

variable {h h' : Heap} {r : HeapRef} {o : HeapObject} {index v : Value} {place : Nat}

theorem elementSlot_eq_ok_iff {length : Nat} :
    elementSlot index length = .ok place
      ↔ index.Denotes place ∧ (place : Int) < 2 ^ 127 ∧ place < length := by
  have widens := Value.widen?_eq_some_iff (v := index) (n := place)
  unfold elementSlot
  cases widened : index.widen? with
  | none =>
      rw [widened] at widens
      have no : ¬ (index.Denotes place ∧ (place : Int) < 2 ^ 127) := fun both => by
        cases widens.mpr both
      constructor
      · intro found
        cases found
      · rintro ⟨denoted, small, _⟩
        exact absurd ⟨denoted, small⟩ no
  | some n =>
      rw [widened, Option.some.injEq] at widens
      rw [← and_assoc, ← widens]
      by_cases inside : 0 ≤ n ∧ n < (length : Int)
      · simp only [if_pos inside, Except.ok.injEq]
        omega
      · simp only [if_neg inside, reduceCtorEq, false_iff]
        omega

theorem fits_iff {element : Option Descriptor} :
    fits element v = true ↔ ∀ d, element = some d → d.admits v = true := by
  cases element <;> simp [fits]

/-! ## What access needs -/

/-- The reference names an array, and the index, as a signed number of 128 bits, a place in it. -/
structure Addresses (h : Heap) (r : HeapRef) (index : Value) (o : HeapObject) (place : Nat) :
    Prop where
  live : h.get? r = some o
  isArray : o.isArray = true
  denoted : index.Denotes place
  widens : (place : Int) < 2 ^ 127
  inside : place < o.fields.size

theorem array_eq_ok_iff : h.array r = .ok o ↔ h.get? r = some o ∧ o.isArray = true := by
  unfold array get
  cases h.get? r with
  | none => simp
  | some o' =>
      by_cases isArray : o'.isArray = true
      · simp only [isArray, if_true, Except.ok.injEq, Option.some.injEq]
        exact ⟨fun same => ⟨same, same ▸ isArray⟩, And.left⟩
      · simp only [isArray, Bool.false_eq_true, if_false, reduceCtorEq, Option.some.injEq,
          false_iff]
        rintro ⟨rfl, array⟩
        exact isArray array

theorem addresses_iff :
    h.Addresses r index o place
      ↔ h.array r = .ok o ∧ elementSlot index o.fields.size = .ok place := by
  rw [array_eq_ok_iff, elementSlot_eq_ok_iff]
  exact ⟨fun a => ⟨⟨a.live, a.isArray⟩, a.denoted, a.widens, a.inside⟩,
    fun a => ⟨a.1.1, a.1.2, a.2.1, a.2.2.1, a.2.2.2⟩⟩

theorem loadElement_eq_ok_iff {x : Value} :
    h.loadElement r index = .ok x
      ↔ ∃ o place, h.Addresses r index o place ∧ o.fields.getD place Value.unset = x := by
  simp only [addresses_iff]
  unfold loadElement
  cases h.array r with
  | error fault => simp
  | ok o =>
      cases found : elementSlot index o.fields.size with
      | error fault => simp [found]
      | ok place => simp [found]

theorem storeElement_eq_ok_iff :
    h.storeElement r index v = (h', .ok ())
      ↔ ∃ o place, h.Addresses r index o place
          ∧ (∀ d, o.element = some d → d.admits v = true) ∧ h.putElement r place v = h' := by
  simp only [addresses_iff, ← fits_iff]
  unfold storeElement storeSlot
  cases h.array r with
  | error fault => simp
  | ok o =>
      cases found : elementSlot index o.fields.size with
      | error fault => simp [found]
      | ok place =>
          by_cases fit : fits o.element v = true
          · simp [found, fit]
          · simp [found, fit]

theorem storeElement_of_error {fault : Fault}
    (failed : h.storeElement r index v = (h', .error fault)) : h' = h := by
  unfold storeElement at failed
  cases slot : h.storeSlot r index v with
  | error fault' =>
      rw [slot] at failed
      cases failed
      rfl
  | ok place =>
      rw [slot] at failed
      cases failed

/-! ## What a store does -/

/-- The second heap is the first with the value at the place that the index denotes: the place is
loaded with every index of the same number and no other place is, all but the fields and the charge
of the array is as it was, and the charge follows the text in the place. -/
structure Stores (h : Heap) (r : HeapRef) (index v : Value) (h' : Heap) : Prop where
  stored : ∀ j n, index.Denotes n → j.Denotes n → h'.loadElement r j = .ok v
  kept : ∀ j, (∀ n, index.Denotes n → ¬ j.Denotes n) → h'.loadElement r j = h.loadElement r j
  others : ∀ r', r' ≠ r → h'.get? r' = h.get? r'
  charged : ∃ old o fields footprint, h.loadElement r index = .ok old ∧ h.get? r = some o
    ∧ h'.get? r = some { o with fields := fields, footprint := footprint }
    ∧ fields.size = o.fields.size
    ∧ footprint + old.payloadBytes = o.footprint + v.payloadBytes
    ∧ h'.usedBytes + old.payloadBytes = h.usedBytes + v.payloadBytes
  slots : h'.slots.size = h.slots.size
  counters : h' = { h with slots := h'.slots, usedBytes := h'.usedBytes }
  represented : h'.Represented

theorem loadElement_of_live (live : h.get? r = some o) (isArray : o.isArray = true)
    (index : Value) :
    h.loadElement r index
      = (elementSlot index o.fields.size).map (o.fields.getD · Value.unset) := by
  rw [loadElement, array_eq_ok_iff.mpr ⟨live, isArray⟩]
  dsimp only
  cases elementSlot index o.fields.size <;> rfl

theorem get?_putElement_self (live : h.get? r = some o) (place : Nat) (v : Value) :
    (h.putElement r place v).get? r = some (refill place v (h.fieldPayload r place) o) := by
  rw [get?_putElement, if_pos rfl, live]
  rfl

/-- A load after a store, through the place that its index denotes. -/
theorem loadElement_putElement (live : h.get? r = some o) (isArray : o.isArray = true)
    (place : Nat) (v j : Value) :
    (h.putElement r place v).loadElement r j
      = (elementSlot j o.fields.size).map fun place' =>
          (o.fields.setIfInBounds place v).getD place' Value.unset := by
  have shape : (refill place v (h.fieldPayload r place) o).fields.size = o.fields.size :=
    Array.size_setIfInBounds
  rw [loadElement_of_live (get?_putElement_self live place v) isArray, shape]
  rfl

namespace Addresses

variable (addresses : h.Addresses r index o place)
include addresses

theorem load_same {j : Value} {n : Int} (denoted : index.Denotes n) (same : j.Denotes n) :
    (h.putElement r place v).loadElement r j = .ok v := by
  obtain rfl := denoted.unique addresses.denoted
  have found : elementSlot j o.fields.size = .ok place :=
    elementSlot_eq_ok_iff.mpr ⟨same, addresses.widens, addresses.inside⟩
  rw [loadElement_putElement addresses.live addresses.isArray, found, Except.map,
    Array.getD_eq_getD_getElem?, Array.getElem?_setIfInBounds_self_of_lt addresses.inside,
    Option.getD_some]

theorem load_other {j : Value} (other : ∀ n, index.Denotes n → ¬ j.Denotes n) :
    (h.putElement r place v).loadElement r j = h.loadElement r j := by
  rw [loadElement_putElement addresses.live addresses.isArray,
    loadElement_of_live addresses.live addresses.isArray]
  cases found : elementSlot j o.fields.size with
  | error fault => rfl
  | ok place' =>
      have apart : place ≠ place' := by
        rintro rfl
        exact other place addresses.denoted (elementSlot_eq_ok_iff.mp found).1
      simp only [Except.map, Array.getD_eq_getD_getElem?, Array.getElem?_setIfInBounds_ne apart]

theorem stores (represented : h.Represented) :
    h.Stores r index v (h.putElement r place v) where
  stored := fun _ _ => addresses.load_same
  kept := fun _ => addresses.load_other
  others := fun r' other => by rw [get?_putElement, if_neg other]
  charged := by
    have text : h.fieldPayload r place = (o.fields.getD place Value.unset).payloadBytes := by
      rw [fieldPayload, addresses.live]
    obtain ⟨small, within⟩ := represented.solvent.text r o place addresses.live addresses.inside
    refine ⟨o.fields.getD place Value.unset, o, _, _,
      loadElement_eq_ok_iff.mpr ⟨o, place, addresses, rfl⟩, addresses.live,
      get?_putElement_self addresses.live place v, Array.size_setIfInBounds, ?_, ?_⟩
    · rw [← text]
      omega
    · rw [← text]
      show h.usedBytes + v.payloadBytes - h.fieldPayload r place + h.fieldPayload r place = _
      omega
  slots := Array.size_modify
  counters := rfl
  represented := represented.putElement addresses.live addresses.inside v

end Addresses

end Heap

/-! ## Access in a machine -/

namespace State

variable {env : Environment} {fuel : Nat} {s t : State} {frame : Frame} {callers : CallStack}
  {i : Instruction}

theorem heap_of_load (opcode : i.opcode = .ldelem)
    (left : (s.execute env fuel frame callers i).state? = some t) : t.heap = s.heap := by
  refine heap_of_execute ?_ ?_ ?_ left <;> rw [opcode] <;> decide

theorem heap_of_failed_store {fault : Fault} (opcode : i.opcode = .stelem)
    (failed : s.execute env fuel frame callers i = .failed fault t) : t.heap = s.heap := by
  simp only [execute, opcode, storeElement] at failed
  cases request : storeRequest s.heap frame with
  | error fault' =>
      rw [request] at failed
      cases failed
      rfl
  | ok stored =>
      rw [request] at failed
      cases failed

end State

/-- A store succeeds exactly if the reference names an array, the index a place in it, and the value
is of the element type where one is known; it changes what indices of the same number load and the
charge for text, and nothing else. A store that fails changes nothing. A load succeeds exactly
if reference and index allow it. In a machine, loads and failing stores leave the heap as it is. -/
theorem array_access_is_by_number (h : Heap) (represented : h.Represented) (r : HeapRef)
    (index v : Value) :
    ((∃ h', h.storeElement r index v = (h', .ok ()))
        ↔ ∃ o place, h.Addresses r index o place ∧ ∀ d, o.element = some d → d.admits v = true)
      ∧ (∀ h', h.storeElement r index v = (h', .ok ()) → h.Stores r index v h')
      ∧ (∀ h' fault, h.storeElement r index v = (h', .error fault) → h' = h)
      ∧ ((∃ x, h.loadElement r index = .ok x) ↔ ∃ o place, h.Addresses r index o place)
      ∧ ∀ (env : Environment) (fuel : Nat) (s t : State) (frame : Frame) (callers : CallStack)
          (i : Instruction), s.heap = h →
          (i.opcode = .ldelem → (s.execute env fuel frame callers i).state? = some t → t.heap = h)
          ∧ ∀ fault, i.opcode = .stelem → s.execute env fuel frame callers i = .failed fault t →
              t.heap = h := by
  refine ⟨?_, ?_, ?_, ?_, ?_⟩
  · simp only [Heap.storeElement_eq_ok_iff]
    constructor
    · rintro ⟨h', o, place, addresses, admits, _⟩
      exact ⟨o, place, addresses, admits⟩
    · rintro ⟨o, place, addresses, admits⟩
      exact ⟨_, o, place, addresses, admits, rfl⟩
  · intro h' done
    obtain ⟨o, place, addresses, _, rfl⟩ := Heap.storeElement_eq_ok_iff.mp done
    exact addresses.stores represented
  · exact fun h' fault failed => Heap.storeElement_of_error failed
  · simp only [Heap.loadElement_eq_ok_iff]
    constructor
    · rintro ⟨x, o, place, addresses, _⟩
      exact ⟨o, place, addresses⟩
    · rintro ⟨o, place, addresses⟩
      exact ⟨_, o, place, addresses, rfl⟩
  · rintro env fuel s t frame callers i rfl
    exact ⟨State.heap_of_load, fun _ => State.heap_of_failed_store⟩

/-! An array of two texts: a store with an index of eight bits is seen with one of 64, and an index
below zero names no place. -/

namespace TwoTexts

def heap : Heap :=
  (Heap.empty 400 true).performAll [.allocate [] "[String;" #[.str "heap", .str ""]]

theorem represented : heap.Represented :=
  (Heap.represented_empty 400 true).performAll (by simp [Heap.Operation.isCharged])

def filled : Heap := heap.putElement ⟨1⟩ 1 (.str "slots")

def environment : Environment := ⟨{}, none, .empty⟩

def state : State := ⟨heap, [], #[], .working, .empty none⟩

def frame (operands : List Value) : Frame :=
  ⟨⟨"Main", ⟨0, 1, 2, 0, 0, #[]⟩, [], .void⟩, 0, #[], operands⟩

theorem accessed_by_number :
    heap.Represented
      ∧ heap.storeElement ⟨1⟩ (.ofInt .u8 1) (.str "slots") = (filled, .ok ())
      ∧ heap.Stores ⟨1⟩ (.ofInt .u8 1) (.str "slots") filled
      ∧ filled.loadElement ⟨1⟩ (.ofInt .i64 1) = .ok (.str "slots")
      ∧ (heap.storeElement ⟨1⟩ (.ofInt .i8 (-1)) (.str "x")).2 = .error (.indexOutOfBounds (-1) 2)
      ∧ (heap.storeElement ⟨1⟩ (.ofInt .i8 (-1)) (.str "x")).1 = heap
      ∧ (∃ t, (state.execute environment 0 (frame [.ofInt .u8 0, .ref ⟨1⟩]) []
          ⟨.ldelem, none⟩).state? = some t ∧ t.heap = heap)
      ∧ ∃ fault t, state.execute environment 0 (frame [.str "x", .ofInt .i8 2, .ref ⟨1⟩]) []
          ⟨.stelem, none⟩ = .failed fault t ∧ t.heap = heap := by
  have done : heap.storeElement ⟨1⟩ (.ofInt .u8 1) (.str "slots") = (filled, .ok ()) := by cbv
  have refused : (heap.storeElement ⟨1⟩ (.ofInt .i8 (-1)) (.str "x")).2
      = .error (.indexOutOfBounds (-1) 2) := by cbv
  obtain ⟨_, stores, _, _, machine⟩ :=
    array_access_is_by_number heap represented ⟨1⟩ (.ofInt .u8 1) (.str "slots")
  obtain ⟨_, _, unchanged, _, _⟩ :=
    array_access_is_by_number heap represented ⟨1⟩ (.ofInt .i8 (-1)) (.str "x")
  have seen := (stores filled done).stored (.ofInt .i64 1) 1 ⟨_, rfl, rfl⟩ ⟨_, rfl, rfl⟩
  refine ⟨represented, done, stores filled done, seen, refused,
    unchanged _ _ (Prod.ext rfl refused), ?_, ?_⟩
  · have loaded : (state.execute environment 0 (frame [.ofInt .u8 0, .ref ⟨1⟩]) []
        ⟨.ldelem, none⟩).state? = some (state.withFrame (frame [.str "heap"]) []) := by cbv
    exact ⟨_, loaded, (machine environment 0 state _ _ [] _ rfl).1 rfl loaded⟩
  · have failed : state.execute environment 0 (frame [.str "x", .ofInt .i8 2, .ref ⟨1⟩]) []
        ⟨.stelem, none⟩ = .failed (.indexOutOfBounds 2 2)
          (state.withFrame (frame [.str "x", .ofInt .i8 2, .ref ⟨1⟩]) []) := by cbv
    exact ⟨_, _, failed, (machine environment 0 state _ _ [] _ rfl).2 _ rfl failed⟩

end TwoTexts

end StackMachine
