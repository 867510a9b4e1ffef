import Mathlib
import StackMachine.Proofs.Heap.ExactCollection
import StackMachine.Proofs.Heap.Operations

/-! # The books of a heap stay right

Allocations, stores and collections, whether they succeed or fail, keep the counters of a heap, its
free list and what its objects are charged for. So a new object gets an id that names nothing, a
new slot is made only if all others are in use, and no counter is ever taken below zero.
-/

namespace StackMachine

namespace Heap

/-! ## Objects, slot by slot -/

theorem forall_slots_iff {slots : Array (Option HeapObject)} {holds : HeapObject → Prop} :
    (∀ slot ∈ slots, ∀ o ∈ slot, holds o)
      ↔ ∀ (i : Nat) (o : HeapObject), slots[i]?.join = some o → holds o := by
  constructor
  · intro all i o there
    exact all (some o) (Array.mem_of_getElem? (Option.join_eq_some_iff.mp there)) o rfl
  · intro all slot member o held
    obtain ⟨i, bound, at_i⟩ := Array.getElem_of_mem member
    refine all i o ?_
    rw [Array.getElem?_eq_getElem bound, at_i]
    exact held

/-- The objects can be counted as bytes are, one for each. -/
theorem countP_isSome (slots : Array (Option HeapObject)) :
    slots.countP Option.isSome = total (fun _ => 1) slots := by
  rw [← Array.countP_toList, total]
  induction slots.toList with
  | nil => rfl
  | cons slot rest ih =>
      rw [List.countP_cons, List.foldr_cons, ih]
      cases slot with
      | none => simp
      | some o => simp; omega

theorem total_push (measure : HeapObject → Nat) (slots : Array (Option HeapObject))
    (slot : Option HeapObject) :
    total measure (slots.push slot) = total measure slots + slot.elim 0 measure := by
  rw [total, total, Array.toList_push, List.foldr_append, List.foldr_cons, List.foldr_nil]
  induction slots.toList with
  | nil => simp
  | cons first rest ih =>
      rw [List.foldr_cons, List.foldr_cons, ih]
      omega

theorem le_total (measure : HeapObject → Nat) {slots : Array (Option HeapObject)} {i : Nat}
    {o : HeapObject} (there : slots[i]?.join = some o) : measure o ≤ total measure slots := by
  obtain ⟨bound, at_i⟩ := Array.getElem?_eq_some_iff.mp (Option.join_eq_some_iff.mp there)
  have removed := total_set measure bound none
  rw [at_i, Option.elim_some, Option.elim_none] at removed
  omega

/-! ## Collections -/

section Collecting

variable {h : Heap}

theorem map_slots_mark {α : Type} {g : HeapObject → α}
    (blind : ∀ o m, g { o with marked := m } = g o) (h : Heap) (stack : CallStack) (i : Nat) :
    (h.mark stack).slots[i]?.join.map g = h.slots[i]?.join.map g := by
  simp only [mark, map_markFrom blind, map_clearMarks blind]

/-- What does not look at marks is said of the same objects after marking. -/
theorem forall_slots_mark {holds : HeapObject → Prop}
    (blind : ∀ o m, holds { o with marked := m } = holds o) (stack : CallStack)
    (all : ∀ slot ∈ h.slots, ∀ o ∈ slot, holds o) :
    ∀ slot ∈ (h.mark stack).slots, ∀ o ∈ slot, holds o := by
  rw [forall_slots_iff] at all ⊢
  intro i o there
  have same := map_slots_mark blind h stack i
  rw [there, Option.map_some] at same
  obtain ⟨o', before, eq⟩ := Option.map_eq_some_iff.mp same.symm
  rw [← eq]
  exact all i o' before

theorem size_mark (h : Heap) (stack : CallStack) : (h.mark stack).slots.size = h.slots.size := by
  rw [mark, size_markFrom, clearMarks, Array.size_map]

theorem Represented.mark (represented : h.Represented) (stack : CallStack) :
    (h.mark stack).Represented where
  toSound := represented.toSound.mark stack
  recycled := by
    intro i positive vacant
    refine represented.recycled i positive ⟨size_mark h stack ▸ vacant.1, ?_⟩
    have same := map_slots_mark (g := HeapObject.content) (fun _ _ => rfl) h stack i
    rw [vacant.2, Option.map_none] at same
    exact Option.map_eq_none_iff.mp same.symm
  live := by
    have blind : ∀ (o : HeapObject) (m : Bool), (fun _ : HeapObject => 1) { o with marked := m }
        = (fun _ => 1) o := fun _ _ => rfl
    have same : total (fun _ => 1) (h.mark stack).slots = total (fun _ => 1) h.slots :=
      (total_markFrom blind _ _).trans (total_clearMarks blind _)
    rw [countP_isSome, same, ← countP_isSome]
    exact represented.live
  used := by
    rw [total_mark]
    exact represented.used
  charged := forall_slots_mark (fun _ _ => rfl) stack represented.charged
  aged := forall_slots_mark (fun _ _ => rfl) stack represented.aged

theorem slot_sweep (h : Heap) (target : Option Nat) (i : Nat) :
    (h.sweep target).1.slots[i]?.join = h.slots[i]?.join.bind (·.swept target) := by
  simp only [sweep, Array.getElem?_map]
  rcases h.slots[i]? with _ | _ | o <;> rfl

theorem size_sweep (h : Heap) (target : Option Nat) :
    (h.sweep target).1.slots.size = h.slots.size := Array.size_map

/-- Every object that was there is either freed or left. -/
theorem length_freedSlots_add (h : Heap) (target : Option Nat) :
    (freedSlots target h.slots).length + (h.sweep target).1.slots.countP Option.isSome
      = h.slots.countP Option.isSome := by
  simp only [length_freedSlots, sweep, ← Array.countP_toList, Array.toList_map, List.countP_map]
  induction h.slots.toList with
  | nil => rfl
  | cons slot rest ih =>
      rw [List.countP_cons, List.countP_cons, List.countP_cons]
      cases slot with
      | none => simpa using ih
      | some o =>
          by_cases freed : o.isFreed target = true
          · have gone : o.swept target = none := swept_eq_none_iff.mpr freed
            simp only [Option.any_some, freed, Function.comp_apply, Option.bind_some, gone,
              Option.isSome_none, Option.isSome_some, if_true, Bool.false_eq_true, if_false]
            omega
          · have left : (o.swept target).isSome = true := by
              rw [Option.isSome_iff_ne_none]
              exact fun gone => freed (swept_eq_none_iff.mp gone)
            simp only [Option.any_some, freed, Function.comp_apply, Option.bind_some, left,
              Option.isSome_some, if_true, Bool.false_eq_true, if_false]
            omega

/-- What a sweep leaves of an object has the same charge, and is not too old. -/
theorem swept_keeps {target : Option Nat} {o o' : HeapObject} (left : o.swept target = some o') :
    o'.content = o.content ∧ o'.footprint = o.footprint
      ∧ (o.generation ≤ maxGeneration → o'.generation ≤ maxGeneration) := by
  unfold HeapObject.swept at left
  split at left
  · cases left
  · split at left
    · rename_i promoted
      cases left
      refine ⟨rfl, rfl, fun _ => ?_⟩
      simp only [HeapObject.isPromoted, Bool.and_eq_true, decide_eq_true_eq] at promoted
      exact promoted.2
    · cases left
      exact ⟨rfl, rfl, id⟩

theorem Represented.sweep (represented : h.Represented) (target : Option Nat) :
    (h.sweep target).1.Represented where
  toSound := represented.toSound.sweep target
  recycled := by
    intro i positive vacant
    have bound : i < h.slots.size := size_sweep h target ▸ vacant.1
    show i ∈ freedSlots target h.slots ++ h.free
    rw [List.mem_append]
    cases there : h.slots[i]?.join with
    | none => exact .inr (represented.recycled i positive ⟨bound, there⟩)
    | some o =>
        have gone := vacant.2
        rw [slot_sweep, there, Option.bind_some] at gone
        exact .inl (mem_freedSlots.mpr
          ⟨o, Option.join_eq_some_iff.mp there, swept_eq_none_iff.mp gone⟩)
  live := by
    have counted := length_freedSlots_add h target
    have live := represented.live
    show h.live - (freedSlots target h.slots).length = _
    omega
  used := by
    have counted := freedBytes_add_total h target
    have used := represented.used
    show h.usedBytes - freedBytes target h.slots = _
    omega
  charged := by
    rw [forall_slots_iff]
    intro i o' left
    rw [slot_sweep] at left
    obtain ⟨o, there, survives⟩ := Option.bind_eq_some_iff.mp left
    obtain ⟨content, footprint, _⟩ := swept_keeps survives
    have tag : o'.tag = o.tag := congrArg Content.tag content
    have fields : o'.fields = o.fields := congrArg Content.fields content
    rw [footprint, tag, fields]
    exact forall_slots_iff.mp represented.charged i o there
  aged := by
    rw [forall_slots_iff]
    intro i o' left
    rw [slot_sweep] at left
    obtain ⟨o, there, survives⟩ := Option.bind_eq_some_iff.mp left
    exact (swept_keeps survives).2.2 (forall_slots_iff.mp represented.aged i o there)

theorem Represented.makeRoom (represented : h.Represented) (stack : CallStack)
    (requested : Nat) : (h.makeRoom stack requested).1.Represented := by
  have young : (h.collect 0 stack).1.Represented := (represented.mark stack).sweep (some 0)
  simp only [Heap.makeRoom]
  split
  · split
    · exact (young.mark stack).sweep none
    · exact young
  · exact represented

theorem size_makeRoom (h : Heap) (stack : CallStack) (requested : Nat) :
    (h.makeRoom stack requested).1.slots.size = h.slots.size := by
  simp only [Heap.makeRoom]
  split
  · split
    · simp only [collect, collectFull, size_sweep, size_mark]
    · simp only [collect, size_sweep, size_mark]
  · rfl

theorem makeRoom_of_no_collection {stack : CallStack} {requested : Nat}
    (none : (h.makeRoom stack requested).2 = []) : (h.makeRoom stack requested).1 = h := by
  simp only [Heap.makeRoom] at none ⊢
  split
  · rename_i full
    rw [if_pos full] at none
    split at none <;> cases none
  · rfl

end Collecting

/-! ## Allocation -/

/-- The charge for an array that is computed without building it is the one it would have. -/
theorem arrayFootprint_eq (tag : String) (v : Value) (length : Nat) :
    arrayFootprint tag v length = StackMachine.footprint tag (Array.replicate length v) := by
  have texts : (List.replicate length v).foldr (fun v bytes => v.payloadBytes + bytes) 0
      = v.payloadBytes * length := by
    induction length with
    | zero => rfl
    | succ length ih =>
        rw [List.replicate_succ, List.foldr_cons, ih, Nat.mul_succ]
        omega
  simp only [arrayFootprint, StackMachine.footprint, Array.size_replicate,
    Array.toList_replicate, texts, Nat.add_mul]
  rw [Nat.mul_comm HeapObject.slotBytes length]
  omega

section Allocating

variable {h : Heap} {o : HeapObject}

/-- What is said of all objects and of the new one is said of all objects after it is placed. -/
theorem forall_slots_insert {holds : HeapObject → Prop} (new : holds o)
    (all : ∀ slot ∈ h.slots, ∀ o ∈ slot, holds o) :
    ∀ slot ∈ (h.insert o).1.slots, ∀ o' ∈ slot, holds o' := by
  intro slot member o' held
  have origin : slot ∈ h.slots ∨ slot = some o := by
    unfold Heap.insert at member
    split at member
    · exact Array.mem_or_eq_of_mem_setIfInBounds member
    · split at member
      · exact Array.mem_push.mp member
      · exact .inl member
  rcases origin with old | rfl
  · exact all slot old o' held
  · cases held
    exact new

theorem Represented.insert (represented : h.Represented)
    (charged : o.footprint = StackMachine.footprint o.tag o.fields)
    (aged : o.generation ≤ maxGeneration) : (h.insert o).1.Represented := by
  have sound := (represented.toSound.insert o).1
  have charged' := forall_slots_insert charged represented.charged
  have aged' := forall_slots_insert aged represented.aged
  have live := represented.live
  have used := represented.used
  rw [countP_isSome] at live
  unfold Heap.insert at sound charged' aged' ⊢
  cases free : h.free with
  | nil =>
      rw [free] at sound charged' aged'
      by_cases room : h.slots.size < handleSpace
      · simp only [room, if_true] at sound charged' aged' ⊢
        refine ⟨sound, ?_, ?_, ?_, charged', aged'⟩
        · intro i positive vacant
          have bound : i < h.slots.size + 1 := by simpa using vacant.1
          have empty := vacant.2
          rw [Array.getElem?_push] at empty
          split at empty
          · cases empty
          · have listed := represented.recycled i positive ⟨by omega, empty⟩
            rw [free] at listed
            exact listed
        · rw [countP_isSome, total_push, ← live]
          rfl
        · rw [total_push, ← used]
          rfl
      · rw [if_neg room]
        exact represented
  | cons i rest =>
      rw [free] at sound charged' aged'
      dsimp only at sound charged' aged' ⊢
      obtain ⟨positive, bound, empty⟩ := represented.free i (free ▸ List.mem_cons_self ..)
      have vacated : h.slots[i] = none := by
        rw [Array.getElem?_eq_getElem bound] at empty
        exact empty
      have placed : h.slots.setIfInBounds i (some o) = h.slots.set i (some o) bound := by
        simp only [Array.setIfInBounds, bound, dif_pos]
      have bytes := total_set HeapObject.footprint bound (some o)
      have count := total_set (fun _ => 1) bound (some o)
      rw [vacated, Option.elim_none, Option.elim_some, ← placed] at bytes count
      refine ⟨sound, ?_, ?_, ?_, charged', aged'⟩
      · intro j positive' vacant
        obtain ⟨bound', empty'⟩ := vacant
        rw [Array.getElem?_setIfInBounds] at empty'
        split at empty'
        · rename_i same
          subst same
          simp at empty'
        · rename_i other
          have listed := represented.recycled j positive' ⟨by simpa using bound', empty'⟩
          rw [free] at listed
          rcases List.mem_cons.mp listed with same | later
          · exact absurd same.symm other
          · exact later
      · show h.live + 1 = (h.slots.setIfInBounds i (some o)).countP Option.isSome
        rw [countP_isSome]
        omega
      · show h.usedBytes + o.footprint
          = total HeapObject.footprint (h.slots.setIfInBounds i (some o))
        omega

theorem Represented.place (represented : h.Represented) (stack : CallStack)
    {object : Unit → HeapObject} {requested : Nat}
    (charged : (object ()).footprint = StackMachine.footprint (object ()).tag (object ()).fields)
    (aged : (object ()).generation ≤ maxGeneration) :
    (h.place stack requested object).heap.Represented := by
  have roomy := represented.makeRoom stack requested
  simp only [Heap.place]
  split
  · exact roomy
  · exact roomy.insert charged aged

theorem Represented.allocate (represented : h.Represented) (stack : CallStack) (tag : String)
    (fields : Array Value) : (h.allocate stack tag fields).heap.Represented :=
  represented.place stack rfl (Nat.zero_le _)

theorem Represented.allocateArray (represented : h.Represented) (stack : CallStack)
    (element : Descriptor) (length : Nat) :
    (h.allocateArray stack element length).heap.Represented := by
  simp only [Heap.allocateArray]
  split
  · exact represented
  · split
    · exact represented.place stack (arrayFootprint_eq _ _ _) (Nat.zero_le _)
    · exact represented

end Allocating

/-! ## Stores -/

section Storing

variable {h : Heap} {r : HeapRef} {o : HeapObject} {slot : Nat}

theorem payload_le_footprint (tag : String) {fields : Array Value} (bound : slot < fields.size) :
    (fields.getD slot Value.unset).payloadBytes ≤ StackMachine.footprint tag fields := by
  have removed := foldr_add_set Value.payloadBytes fields.toList slot Value.unset
    (by simpa using bound)
  rw [Array.getElem_toList] at removed
  rw [Array.getD, dif_pos bound, StackMachine.footprint]
  change _ + fields[slot].payloadBytes = _ + 0 at removed
  show fields[slot].payloadBytes ≤ _
  omega

/-- A new value in a field changes the charge by the change in text. -/
theorem footprint_set (tag : String) {fields : Array Value} (bound : slot < fields.size)
    (v : Value) :
    StackMachine.footprint tag (fields.setIfInBounds slot v)
        + (fields.getD slot Value.unset).payloadBytes
      = StackMachine.footprint tag fields + v.payloadBytes := by
  have changed := foldr_add_set Value.payloadBytes fields.toList slot v
    (by simpa using bound)
  rw [Array.getElem_toList] at changed
  simp only [StackMachine.footprint, Array.getD, dif_pos bound, Array.size_setIfInBounds,
    Array.toList_setIfInBounds]
  show _ + fields[slot].payloadBytes = _
  omega

theorem total_modify (measure : HeapObject → Nat) {slots : Array (Option HeapObject)} {i : Nat}
    (there : slots[i]?.join = some o) (f : HeapObject → HeapObject) :
    total measure (slots.modify i (Option.map f)) + measure o
      = total measure slots + measure (f o) := by
  obtain ⟨bound, at_i⟩ := Array.getElem?_eq_some_iff.mp (Option.join_eq_some_iff.mp there)
  have modified : slots.modify i (Option.map f) = slots.set i (some (f o)) bound := by
    apply Array.ext
    · simp
    · intro j _ _
      rw [Array.getElem_modify, Array.getElem_set]
      split
      · rename_i same
        subst same
        rw [at_i, Option.map_some]
      · rfl
  have changed := total_set measure bound (some (f o))
  rw [at_i, Option.elim_some, Option.elim_some] at changed
  rw [modified]
  exact changed

def refill (slot : Nat) (v : Value) (before : Nat) (o : HeapObject) : HeapObject :=
  { o with
    fields := o.fields.setIfInBounds slot v
    footprint := o.footprint + v.payloadBytes - before }

theorem slots_putElement (h : Heap) (r : HeapRef) (slot : Nat) (v : Value) :
    (h.putElement r slot v).slots
      = h.slots.modify r.index (Option.map (refill slot v (h.fieldPayload r slot))) := rfl

theorem slot_putElement (h : Heap) (r : HeapRef) (slot : Nat) (v : Value) (i : Nat) :
    (h.putElement r slot v).slots[i]?.join
      = if r.index = i then h.slots[i]?.join.map (refill slot v (h.fieldPayload r slot))
        else h.slots[i]?.join := by
  rw [slots_putElement, Array.getElem?_modify]
  split
  · rcases h.slots[i]? with _ | _ | o <;> rfl
  · rfl

/-- A store in a field is charged to the object and to the heap alike. -/
theorem Represented.putElement (represented : h.Represented) (live : h.get? r = some o)
    (bound : slot < o.fields.size) (v : Value) : (h.putElement r slot v).Represented := by
  have charged := forall_slots_iff.mp represented.charged r.index o live
  have before : h.fieldPayload r slot = (o.fields.getD slot Value.unset).payloadBytes := by
    rw [fieldPayload, live]
  have enough := payload_le_footprint o.tag bound
  refine ⟨represented.toSound.putElement r slot v, ?_, ?_, ?_, ?_, ?_⟩
  · intro i positive vacant
    have size : (h.putElement r slot v).slots.size = h.slots.size := Array.size_modify
    refine represented.recycled i positive ⟨size ▸ vacant.1, ?_⟩
    have empty := vacant.2
    rw [slot_putElement] at empty
    split at empty
    · exact Option.map_eq_none_iff.mp empty
    · exact empty
  · have counted := represented.live
    have same := total_modify (fun _ => 1) live (refill slot v (h.fieldPayload r slot))
    rw [countP_isSome] at counted
    rw [countP_isSome, slots_putElement]
    show h.live = _
    omega
  · have used := represented.used
    have within := le_total HeapObject.footprint live
    have changed := total_modify HeapObject.footprint live
      (refill slot v (h.fieldPayload r slot))
    rw [slots_putElement]
    show h.usedBytes + v.payloadBytes - h.fieldPayload r slot = _
    simp only [refill] at changed
    omega
  · rw [forall_slots_iff]
    intro i o' there
    rw [slot_putElement] at there
    split at there
    · rename_i same
      subst same
      obtain ⟨o'', live', rfl⟩ := Option.map_eq_some_iff.mp there
      obtain rfl : o'' = o := Option.some.inj (live'.symm.trans live)
      have changed := footprint_set o''.tag bound v
      simp only [refill]
      omega
    · exact forall_slots_iff.mp represented.charged i o' there
  · rw [forall_slots_iff]
    intro i o' there
    rw [slot_putElement] at there
    split at there
    · obtain ⟨o'', live', rfl⟩ := Option.map_eq_some_iff.mp there
      exact forall_slots_iff.mp represented.aged i o'' live'
    · exact forall_slots_iff.mp represented.aged i o' there

/-- A store is possible only in a field that the array has. -/
theorem bound_of_storeSlot {index v : Value} (stored : h.storeSlot r index v = .ok slot) :
    ∃ o, h.get? r = some o ∧ slot < o.fields.size := by
  simp only [storeSlot, array, get] at stored
  cases live : h.get? r with
  | none => simp [live] at stored
  | some o =>
      refine ⟨o, rfl, ?_⟩
      simp only [live] at stored
      by_cases isArray : o.isArray = true
      · simp only [isArray, if_true, elementSlot] at stored
        cases widened : index.widen? with
        | none => simp [widened] at stored
        | some n =>
            simp only [widened] at stored
            by_cases inside : 0 ≤ n ∧ n < (o.fields.size : Int)
            · simp only [inside, and_self, if_true] at stored
              split at stored
              · cases stored
                omega
              · cases stored
            · simp [inside] at stored
      · simp [isArray] at stored

end Storing

/-! ## Sequences of operations -/

theorem represented_empty (maxBytes : Nat) (gcEnabled : Bool) :
    (empty maxBytes gcEnabled).Represented where
  toSound := Sound.empty maxBytes gcEnabled
  recycled := by
    intro i positive vacant
    have bound : i < 1 := vacant.1
    omega
  live := rfl
  used := rfl
  charged := by simp [empty]
  aged := by simp [empty]

def Operation.isCharged : Operation → Bool
  | .setField _ _ _ => false
  | _ => true

section Operations

variable {h : Heap}

theorem Represented.perform (represented : h.Represented) {op : Operation}
    (charged : op.isCharged = true) : (h.perform op).Represented := by
  cases op with
  | allocate stack tag fields => exact represented.allocate stack tag fields
  | allocateArray stack element length => exact represented.allocateArray stack element length
  | storeElement array index value =>
      cases stored : h.storeSlot array index value with
      | error fault =>
          simp only [Heap.perform, Heap.storeElement, stored]
          exact represented
      | ok slot =>
          obtain ⟨o, live, bound⟩ := bound_of_storeSlot stored
          simp only [Heap.perform, Heap.storeElement, stored]
          exact represented.putElement live bound value
  | setField object field value => cases charged
  | collect generation stack => exact (represented.mark stack).sweep (some generation)
  | collectFull stack => exact (represented.mark stack).sweep none

theorem Represented.performAll (represented : h.Represented) {operations : List Operation}
    (charged : ∀ op ∈ operations, op.isCharged = true) :
    (h.performAll operations).Represented := by
  induction operations generalizing h with
  | nil => exact represented
  | cons op rest ih =>
      have first := represented.perform (charged op (List.mem_cons_self ..))
      exact ih first fun op' later => charged op' (List.mem_cons_of_mem op later)

/-! ## What follows for ids and counters -/

structure Issues (h : Heap) (stack : CallStack) (a : Allocation) (r : HeapRef) (o : HeapObject) :
    Prop where
  /-- The reference is not null and named nothing when it was given out, and no other reference
  names something else now. -/
  adds : (h.makeRoom stack o.footprint).1.Adds o r a.heap
  /-- What it named before the allocation was out of reach, and was collected for it. -/
  recycles : ∀ o', h.get? r = some o' → a.collections ≠ [] ∧ ¬ h.Reaches stack r
  /-- A slot is added only if no other was empty. -/
  grows : a.heap.slots.size = h.slots.size
    ∨ (a.heap.slots.size = h.slots.size + 1
      ∧ ∀ i, i ≠ 0 → ¬ (h.makeRoom stack o.footprint).1.Vacant i)

theorem size_insert (represented : h.Represented) (o : HeapObject) :
    (h.insert o).1.slots.size = h.slots.size
      ∨ ((h.insert o).1.slots.size = h.slots.size + 1 ∧ ∀ i, i ≠ 0 → ¬ h.Vacant i) := by
  unfold Heap.insert
  cases free : h.free with
  | nil =>
      dsimp only
      split
      · refine .inr ⟨Array.size_push .., ?_⟩
        intro i positive vacant
        have listed := represented.recycled i positive vacant
        rw [free] at listed
        cases listed
      · exact .inl rfl
  | cons i rest => exact .inl Array.size_setIfInBounds

theorem Represented.issues (represented : h.Represented) {stack : CallStack} {requested : Nat}
    {object : Unit → HeapObject} {r : HeapRef} (bytes : (object ()).footprint = requested)
    (placed : (h.place stack requested object).result = .ok r) :
    h.Issues stack (h.place stack requested object) r (object ()) := by
  have roomy := represented.makeRoom stack requested
  have retains := retains_makeRoom h stack requested
  have size := size_insert roomy (object ())
  rw [size_makeRoom] at size
  simp only [Heap.place] at placed ⊢
  by_cases full : (h.makeRoom stack requested).1.exceeds requested = true
  · rw [if_pos full] at placed
    cases placed
  · rw [if_neg full] at placed ⊢
    obtain ⟨_, ⟨_, failed⟩ | ⟨r', ok, adds⟩⟩ := roomy.toSound.insert (object ())
    · exact absurd (failed.symm.trans placed) (by simp)
    · obtain rfl : r' = r := Except.ok.inj (ok.symm.trans placed)
      rw [← bytes] at adds retains size ⊢
      refine ⟨adds, ?_, size⟩
      intro o' live
      constructor
      · intro none
        have same := makeRoom_of_no_collection none
        have fresh := adds.fresh
        rw [same, live] at fresh
        cases fresh
      · intro reached
        obtain ⟨o'', kept, _⟩ := retains r' o' reached live
        rw [adds.fresh] at kept
        cases kept

theorem Represented.issues_array (represented : h.Represented) {stack : CallStack}
    {element : Descriptor} {length : Nat} {r : HeapRef}
    (placed : (h.allocateArray stack element length).result = .ok r) :
    ∃ o, h.Issues stack (h.allocateArray stack element length) r o := by
  simp only [Heap.allocateArray] at placed ⊢
  cases default : element.default? with
  | none =>
      rw [default] at placed
      cases placed
  | some v =>
      rw [default] at placed
      dsimp only at placed ⊢
      by_cases addressable :
          arrayFootprint (Descriptor.array element).text v length < addressSpace
      · rw [if_pos addressable] at placed ⊢
        exact ⟨_, represented.issues rfl placed⟩
      · rw [if_neg addressable] at placed
        cases placed

/-- No counter of the heap would be taken below zero, whatever is done next: what a sweep would
give back is there, and so is the text that a store would replace. -/
structure Solvent (h : Heap) : Prop where
  objects : ∀ target stack, (freedSlots target (h.mark stack).slots).length ≤ h.live
  bytes : ∀ target stack, freedBytes target (h.mark stack).slots ≤ h.usedBytes
  text : ∀ r o slot, h.get? r = some o → slot < o.fields.size →
    h.fieldPayload r slot ≤ o.footprint ∧ o.footprint ≤ h.usedBytes

theorem Represented.solvent (represented : h.Represented) : h.Solvent where
  objects := by
    intro target stack
    have counted := length_freedSlots_add (h.mark stack) target
    have live : h.live = _ := (represented.mark stack).live
    omega
  bytes := by
    intro target stack
    have counted := freedBytes_add_total (h.mark stack) target
    have used : h.usedBytes = _ := (represented.mark stack).used
    omega
  text := by
    intro r o slot live bound
    have charged := forall_slots_iff.mp represented.charged r.index o live
    have used := represented.used
    rw [fieldPayload, live, charged, used, ← charged]
    refine ⟨?_, le_total HeapObject.footprint live⟩
    rw [charged]
    exact payload_le_footprint o.tag bound

end Operations

/-- After any operations on an empty heap, with success or without, but for field updates that are
not charged for, the books are right: the counters are those of the slots in use, every object is
charged for what it holds, and the free list has every empty slot but the first, once. So every
id that is given out is new, slots are added only where none is free, and no counter is taken
below zero by what is done next, the collections that an allocation makes included. -/
theorem operations_keep_the_books (maxBytes : Nat) (gcEnabled : Bool)
    (operations : List Operation) (charged : ∀ op ∈ operations, op.isCharged = true) (h : Heap)
    (built : h = (empty maxBytes gcEnabled).performAll operations) :
    h.Represented ∧ h.Solvent
      ∧ (∀ stack tag fields r, (h.allocate stack tag fields).result = .ok r →
          ∃ o, h.Issues stack (h.allocate stack tag fields) r o)
      ∧ ∀ stack element length r, (h.allocateArray stack element length).result = .ok r →
          ∃ o, h.Issues stack (h.allocateArray stack element length) r o := by
  have represented : h.Represented := by
    rw [built]
    exact (represented_empty maxBytes gcEnabled).performAll charged
  refine ⟨represented, represented.solvent, ?_, ?_⟩
  · intro stack tag fields r placed
    unfold Heap.allocate at placed ⊢
    exact ⟨_, represented.issues rfl placed⟩
  · intro stack element length r placed
    exact represented.issues_array placed

/-! A text is stored in an array, another store is refused, and a collection finds nothing in its
generation. No frame refers to the array, so the next allocation collects it and has its id. -/

namespace Reissued

def operations : List Operation :=
  [.allocate [] "[String;" #[.str "heap", .str ""],
    .storeElement ⟨1⟩ (.ofInt .u8 1) (.str "slots"),
    .storeElement ⟨1⟩ (.ofInt .i64 2) (.str "bytes"),
    .collect 1 []]

def heap : Heap := (empty 400 true).performAll operations

theorem evaluated :
    heap.isLive ⟨1⟩ = true ∧ heap.usedBytes = 169
      ∧ (heap.allocateArray [] (.int .i32) 5).result = .ok ⟨1⟩ := by
  have all : (heap.isLive ⟨1⟩, heap.usedBytes, (heap.allocateArray [] (.int .i32) 5).result)
      = (true, 169, .ok ⟨1⟩) := by cbv
  simpa only [Prod.mk.injEq] using all

theorem books_are_kept :
    (∀ op ∈ operations, op.isCharged = true) ∧ heap.isLive ⟨1⟩ = true
      ∧ (heap.allocateArray [] (.int .i32) 5).result = .ok ⟨1⟩
      ∧ heap.Represented ∧ heap.Solvent
      ∧ ∃ o, heap.Issues [] (heap.allocateArray [] (.int .i32) 5) ⟨1⟩ o := by
  have charged : ∀ op ∈ operations, op.isCharged = true := by
    simp [operations, Operation.isCharged]
  have books := operations_keep_the_books 400 true operations charged heap rfl
  exact ⟨charged, evaluated.1, evaluated.2.2, books.1, books.2.1,
    books.2.2.2 [] (.int .i32) 5 ⟨1⟩ evaluated.2.2⟩

end Reissued

end Heap

end StackMachine
