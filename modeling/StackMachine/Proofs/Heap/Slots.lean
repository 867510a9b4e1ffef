import StackMachine.Proofs.Heap.Reachability

/-! # Slots

The numbers on the free list are those of empty slots, each once and never 0, and there is an id
for every slot. So a new object gets a reference that names nothing yet and is not null.
-/

namespace StackMachine.Heap

def Vacant (h : Heap) (i : Nat) : Prop := i < h.slots.size ∧ h.slots[i]?.join = none

structure Sound (h : Heap) : Prop where
  null : h.Vacant 0
  ids : h.slots.size ≤ handleSpace
  free : ∀ i ∈ h.free, i ≠ 0 ∧ h.Vacant i
  distinct : h.free.Nodup

theorem Sound.empty (maxBytes : Nat) (gcEnabled : Bool) :
    (Heap.empty maxBytes gcEnabled).Sound where
  null := ⟨Nat.zero_lt_one, rfl⟩
  ids := by
    show 1 ≤ handleSpace
    decide
  free := by
    intro i held
    cases held
  distinct := List.nodup_nil

theorem Sound.get?_null {h : Heap} (sound : h.Sound) : h.get? .null = none := sound.null.2

/-- A change that fills no empty slot and takes none off the free list. -/
theorem Sound.of_empty {h h' : Heap} (sound : h.Sound) (size : h'.slots.size = h.slots.size)
    (free : h'.free = h.free)
    (empty : ∀ i : Nat, h.slots[i]?.join = none → h'.slots[i]?.join = none) : h'.Sound := by
  have vacant : ∀ i, h.Vacant i → h'.Vacant i := by
    intro i before
    exact ⟨size ▸ before.1, empty i before.2⟩
  refine ⟨vacant 0 sound.null, size ▸ sound.ids, ?_, free ▸ sound.distinct⟩
  intro i held
  obtain ⟨positive, before⟩ := sound.free i (free ▸ held)
  exact ⟨positive, vacant i before⟩

theorem Sound.putElement {h : Heap} (sound : h.Sound) (r : HeapRef) (slot : Nat) (v : Value) :
    (h.putElement r slot v).Sound := by
  refine sound.of_empty Array.size_modify rfl ?_
  intro i empty
  simp only [Heap.putElement, modify, Array.getElem?_modify]
  split
  · cases at_i : h.slots[i]? with
    | none => rfl
    | some o =>
        rw [at_i] at empty
        cases empty
        rfl
  · exact empty

/-! ## Collections -/

theorem size_markFrom (slots : Array (Option HeapObject)) (pending : List HeapRef) :
    (markFrom slots pending).size = slots.size := by
  fun_induction markFrom slots pending with
  | case1 => rfl
  | case2 _ _ _ _ _ _ _ ih => exact ih
  | case3 slots r rest bound o here unseen ih => rw [ih, Array.size_set]
  | case4 _ _ _ _ _ ih => exact ih
  | case5 _ _ _ _ ih => exact ih

theorem Sound.mark {h : Heap} (sound : h.Sound) (stack : CallStack) : (h.mark stack).Sound := by
  refine sound.of_empty ?_ rfl ?_
  · show (markFrom _ _).size = _
    rw [size_markFrom, clearMarks, Array.size_map]
  · intro i empty
    have same := map_markFrom (g := HeapObject.content) (fun _ _ => rfl) (clearMarks h.slots)
      (stack.roots.filterMap Value.ref?) i
    rw [map_clearMarks (fun _ _ => rfl), empty, Option.map_none] at same
    exact Option.map_eq_none_iff.mp same

theorem foldl_cons_if {α β : Type} (p : α → Bool) (f : α → β) (l : List α) (start : List β) :
    l.foldl (fun found x => if p x then f x :: found else found) start
      = ((l.filter p).map f).reverse ++ start := by
  induction l generalizing start with
  | nil => rfl
  | cons x l ih =>
      rw [List.foldl_cons, ih]
      by_cases holds : p x = true
      · simp [holds]
      · simp [holds]

theorem freedSlots_eq (target : Option Nat) (slots : Array (Option HeapObject)) :
    freedSlots target slots
      = ((slots.toList.zipIdx.filter fun entry => entry.1.any (·.isFreed target)).map
          Prod.snd).reverse := by
  have folded := foldl_cons_if
    (fun entry : Option HeapObject × Nat => entry.1.any (·.isFreed target)) Prod.snd
    slots.toList.zipIdx []
  rw [List.append_nil] at folded
  exact folded

theorem mem_freedSlots {target : Option Nat} {slots : Array (Option HeapObject)} {i : Nat} :
    i ∈ freedSlots target slots ↔ ∃ o, slots[i]? = some (some o) ∧ o.isFreed target = true := by
  rw [freedSlots_eq, List.mem_reverse, List.mem_map]
  constructor
  · rintro ⟨⟨slot, _⟩, held, rfl⟩
    obtain ⟨entry, freed⟩ := List.mem_filter.mp held
    have at_i : slots.toList[_]? = some slot := List.mem_zipIdx_iff_getElem?.mp entry
    rw [Array.getElem?_toList] at at_i
    obtain ⟨o, rfl, isFreed⟩ := (Option.any_eq_true _ _).mp freed
    exact ⟨o, at_i, isFreed⟩
  · rintro ⟨o, at_i, isFreed⟩
    refine ⟨(some o, i), List.mem_filter.mpr ⟨?_, isFreed⟩, rfl⟩
    refine List.mem_zipIdx_iff_getElem?.mpr ?_
    rw [Array.getElem?_toList]
    exact at_i

theorem nodup_freedSlots (target : Option Nat) (slots : Array (Option HeapObject)) :
    (freedSlots target slots).Nodup := by
  have numbers : (slots.toList.zipIdx.map Prod.snd).Nodup := by
    rw [List.zipIdx_map_snd]
    exact List.nodup_range'
  have freed := numbers.sublist ((List.filter_sublist (p := fun entry => entry.1.any
    (·.isFreed target))).map Prod.snd)
  rw [freedSlots_eq]
  exact List.pairwise_reverse.mpr (freed.imp Ne.symm)

theorem Sound.sweep {h : Heap} (sound : h.Sound) (target : Option Nat) :
    (h.sweep target).1.Sound := by
  have size : (h.sweep target).1.slots.size = h.slots.size := Array.size_map
  have emptied : ∀ i : Nat, (h.sweep target).1.slots[i]?.join
      = h.slots[i]?.join.bind (·.swept target) := by
    intro i
    simp only [Heap.sweep, Array.getElem?_map]
    rcases h.slots[i]? with _ | _ | o <;> rfl
  have vacant : ∀ i, h.Vacant i → (h.sweep target).1.Vacant i := by
    rintro i ⟨bound, empty⟩
    exact ⟨size ▸ bound, by rw [emptied, empty, Option.bind_none]⟩
  refine ⟨vacant 0 sound.null, size ▸ sound.ids, ?_, ?_⟩
  · intro i held
    rcases List.mem_append.mp held with freed | free
    · obtain ⟨o, at_i, isFreed⟩ := mem_freedSlots.mp freed
      have bound : i < h.slots.size := (Array.getElem?_eq_some_iff.mp at_i).1
      constructor
      · intro zero
        have empty := sound.null.2
        rw [← zero, at_i] at empty
        cases empty
      · refine ⟨size ▸ bound, ?_⟩
        rw [emptied, at_i]
        simp [HeapObject.swept, isFreed]
    · obtain ⟨positive, empty⟩ := sound.free i free
      exact ⟨positive, vacant i empty⟩
  · refine List.nodup_append.mpr ⟨nodup_freedSlots _ _, sound.distinct, ?_⟩
    intro i freed j free same
    subst same
    obtain ⟨o, at_i, _⟩ := mem_freedSlots.mp freed
    have empty := (sound.free i free).2.2
    rw [at_i] at empty
    cases empty

theorem Sound.makeRoom {h : Heap} (sound : h.Sound) (stack : CallStack) (requested : Nat) :
    (h.makeRoom stack requested).1.Sound := by
  have young : (h.collect 0 stack).1.Sound := (sound.mark stack).sweep (some 0)
  simp only [Heap.makeRoom]
  split
  · split
    · exact (young.mark stack).sweep none
    · exact young
  · exact sound

/-! ## Allocation -/

/-- The second heap has one more object than the first, under a new reference. -/
structure Adds (h : Heap) (o : HeapObject) (r : HeapRef) (h' : Heap) : Prop where
  fresh : h.get? r = none
  nonnull : r ≠ .null
  get? : ∀ r', h'.get? r' = if r' = r then some o else h.get? r'

theorem index_ofNat {i : Nat} (bound : i < handleSpace) :
    (HeapRef.mk (UInt32.ofNat i)).index = i :=
  UInt32.toNat_ofNat_of_lt bound

theorem ne_null_of_index {r : HeapRef} (positive : r.index ≠ 0) : r ≠ .null := by
  intro null
  rw [null] at positive
  exact positive rfl

/-- What the two ways of placing an object have in common. -/
theorem adds_of_slots {h h' : Heap} {o : HeapObject} {i : Nat} (positive : i ≠ 0)
    (id : i < handleSpace) (empty : h.slots[i]?.join = none)
    (slots : ∀ j : Nat, h'.slots[j]? = if j = i then some (some o) else h.slots[j]?) :
    h.Adds o ⟨UInt32.ofNat i⟩ h' := by
  have index : (HeapRef.mk (UInt32.ofNat i)).index = i := index_ofNat id
  have nonzero : (HeapRef.mk (UInt32.ofNat i)).index ≠ 0 := by omega
  refine ⟨?_, ne_null_of_index nonzero, ?_⟩
  · rw [get?, index]
    exact empty
  · intro r'
    rw [get?, slots]
    by_cases same : r'.index = i
    · rw [if_pos same, if_pos (HeapRef.eq_of_index (same.trans index.symm))]
      rfl
    · rw [if_neg same, if_neg]
      · rfl
      · intro eq
        rw [eq] at same
        exact same index

theorem Sound.insert {h : Heap} (sound : h.Sound) (o : HeapObject) :
    (h.insert o).1.Sound ∧
      (((h.insert o).1 = h ∧ (h.insert o).2 = .error (h.exhausted o.footprint))
        ∨ ∃ r, (h.insert o).2 = .ok r ∧ h.Adds o r (h.insert o).1) := by
  obtain ⟨null, ids, free, distinct⟩ := sound
  unfold Heap.insert
  cases list : h.free with
  | nil =>
      by_cases room : h.slots.size < handleSpace
      · simp only [room, if_true]
        have slots : ∀ j : Nat, (h.slots.push (some o))[j]?
            = if j = h.slots.size then some (some o) else h.slots[j]? := by
          intro j
          rw [Array.getElem?_push]
        have outside : h.slots[h.slots.size]?.join = none := by simp
        have positive : h.slots.size ≠ 0 := by
          have := null.1
          omega
        refine ⟨⟨?_, ?_, ?_, ?_⟩, .inr ⟨_, rfl, adds_of_slots positive room outside slots⟩⟩
        · refine ⟨by simp, ?_⟩
          rw [slots, if_neg positive.symm]
          exact null.2
        · show (h.slots.push (some o)).size ≤ handleSpace
          rw [Array.size_push]
          omega
        · intro i held
          cases held
        · exact List.nodup_nil
      · rw [if_neg room]
        exact ⟨⟨null, ids, free, distinct⟩, .inl ⟨rfl, rfl⟩⟩
  | cons i rest =>
      dsimp only
      rw [list] at free distinct
      obtain ⟨positive, bound, empty⟩ := free i (List.mem_cons_self ..)
      have slots : ∀ j : Nat, (h.slots.setIfInBounds i (some o))[j]?
          = if j = i then some (some o) else h.slots[j]? := by
        intro j
        rw [Array.getElem?_setIfInBounds]
        by_cases same : i = j
        · subst same
          simp [bound]
        · rw [if_neg same, if_neg (Ne.symm same)]
      have id : i < handleSpace := by omega
      obtain ⟨unlisted, distinct'⟩ := List.nodup_cons.mp distinct
      refine ⟨⟨?_, ?_, ?_, distinct'⟩, .inr ⟨_, rfl, adds_of_slots positive id empty slots⟩⟩
      · refine ⟨by simpa using null.1, ?_⟩
        rw [slots, if_neg positive.symm]
        exact null.2
      · show (h.slots.setIfInBounds i (some o)).size ≤ handleSpace
        rw [Array.size_setIfInBounds]
        exact ids
      · intro j held
        obtain ⟨positive', bound', empty'⟩ := free j (List.mem_cons_of_mem i held)
        have other : j ≠ i := by
          intro same
          exact unlisted (same ▸ held)
        refine ⟨positive', by simpa using bound', ?_⟩
        rw [slots, if_neg other]
        exact empty'

inductive Allocates (h : Heap) (stack : CallStack) (element : Descriptor) (length : Nat)
    (a : Allocation) : Prop where
  | untyped (default : element.default? = none) (retains : h.Retains stack a.heap)
      (result : a.result = .error (.malformedDescriptor (Descriptor.array element).text))
  | exhausted (requested used limit : Nat) (retains : h.Retains stack a.heap)
      (result : a.result = .error (.heapExhausted requested used limit))
  | placed {roomy : Heap} {v : Value} {r : HeapRef} {bytes : Nat}
      (default : element.default? = some v) (retains : h.Retains stack roomy)
      (adds : roomy.Adds ⟨(Descriptor.array element).text, some element,
        Array.replicate length v, false, 0, bytes⟩ r a.heap)
      (result : a.result = .ok r)

theorem Sound.allocateArray {h : Heap} (sound : h.Sound) (stack : CallStack)
    (element : Descriptor) (length : Nat) :
    (h.allocateArray stack element length).heap.Sound
      ∧ h.Allocates stack element length (h.allocateArray stack element length) := by
  simp only [Heap.allocateArray]
  cases default : element.default? with
  | none => exact ⟨sound, .untyped default (.refl h stack) rfl⟩
  | some v =>
      dsimp only
      by_cases addressable :
          arrayFootprint (Descriptor.array element).text v length < addressSpace
      · rw [if_pos addressable]
        generalize arrayFootprint (Descriptor.array element).text v length = requested
        have roomy := sound.makeRoom stack requested
        simp only [Heap.place]
        by_cases full : (h.makeRoom stack requested).1.exceeds requested = true
        · rw [if_pos full]
          exact ⟨roomy, .exhausted _ _ _ (retains_makeRoom h stack requested) rfl⟩
        · rw [if_neg full]
          have retains := retains_makeRoom h stack requested
          obtain ⟨after, ⟨same, failed⟩ | ⟨r, ok, adds⟩⟩ := roomy.insert
            ⟨(Descriptor.array element).text, some element, Array.replicate length v, false, 0,
              requested⟩
          · exact ⟨after, .exhausted _ _ _ (same.symm ▸ retains) failed⟩
          · exact ⟨after, .placed default retains adds ok⟩
      · rw [if_neg addressable]
        exact ⟨sound, .exhausted _ _ _ (.refl h stack) rfl⟩

end StackMachine.Heap
