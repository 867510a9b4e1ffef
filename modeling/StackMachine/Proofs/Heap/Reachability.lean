import StackMachine.Proofs.TypedHeap

/-! # What can be reached survives

Marking gets to every object that the frames lead to, of whatever generation. A collection keeps
these objects with their contents, and the frames lead to the same objects after it.
-/

namespace StackMachine

theorem HeapObject.mem_references {o : HeapObject} {r : HeapRef} :
    r ∈ o.references ↔ Value.ref r ∈ o.fields := by
  simp only [references, List.mem_filterMap, Array.mem_toList_iff]
  constructor
  · rintro ⟨v, held, ref⟩
    cases v with
    | ref r' =>
        cases ref
        exact held
    | _ => cases ref
  · intro held
    exact ⟨_, held, rfl⟩

namespace Heap

/-- The frames lead to the reference: one of them holds it, or an object to which they lead. -/
inductive Reaches (h : Heap) (stack : CallStack) : HeapRef → Prop where
  | root {r : HeapRef} (held : .ref r ∈ stack.roots) : Reaches h stack r
  | field {r r' : HeapRef} {o : HeapObject} (reached : Reaches h stack r)
      (there : h.get? r = some o) (held : .ref r' ∈ o.fields) : Reaches h stack r'

/-! ## Marking -/

section Marking

variable {slots : Array (Option HeapObject)} {pending : List HeapRef} {r r' : HeapRef}

def Settled (slots : Array (Option HeapObject)) (r : HeapRef) : Prop :=
  ∀ o : HeapObject, slots[r.index]?.join = some o → o.marked = true

/-- What the marked objects refer to is settled or still pending. -/
def Tracked (slots : Array (Option HeapObject)) (pending : List HeapRef) : Prop :=
  ∀ (r : HeapRef) (o : HeapObject), slots[r.index]?.join = some o → o.marked = true →
    ∀ r' ∈ o.references, Settled slots r' ∨ r' ∈ pending

theorem settled_of_outside (outside : ¬ r.index < slots.size) : Settled slots r := by
  intro o there
  rw [Array.getElem?_eq_none (by omega)] at there
  cases there

theorem settled_of_slot (bound : r.index < slots.size)
    (marked : ∀ o : HeapObject, slots[r.index] = some o → o.marked = true) : Settled slots r := by
  intro o there
  rw [Array.getElem?_eq_getElem bound] at there
  exact marked o there

/-- Marking one object. -/
theorem getElem?_set_marked (bound : r.index < slots.size) {o : HeapObject} :
    (slots.set r.index (some { o with marked := true }) bound)[r'.index]?.join
      = if r' = r then some { o with marked := true } else slots[r'.index]?.join := by
  by_cases same : r' = r
  · subst same
    simp [bound]
  · have other : r.index ≠ r'.index := fun index => same (HeapRef.eq_of_index index.symm)
    rw [if_neg same, Array.getElem?_set_ne bound other]

theorem Settled.set_marked (settled : Settled slots r') (bound : r.index < slots.size)
    {o : HeapObject} :
    Settled (slots.set r.index (some { o with marked := true }) bound) r' := by
  intro o' there
  rw [getElem?_set_marked] at there
  split at there
  · cases there
    rfl
  · exact settled o' there

theorem Settled.markFrom (settled : Settled slots r) : Settled (markFrom slots pending) r := by
  fun_induction Heap.markFrom slots pending with
  | case1 => exact settled
  | case2 _ _ _ _ _ _ _ ih => exact ih settled
  | case3 slots r' rest bound o here unseen ih => exact ih (settled.set_marked bound)
  | case4 _ _ _ _ _ ih => exact ih settled
  | case5 _ _ _ _ ih => exact ih settled

theorem settled_of_pending (held : r ∈ pending) : Settled (Heap.markFrom slots pending) r := by
  fun_induction Heap.markFrom slots pending with
  | case1 => cases held
  | case2 slots r' rest bound o here seen ih =>
      rcases List.mem_cons.mp held with rfl | later
      · refine (settled_of_slot bound ?_).markFrom
        intro o' there
        rw [here] at there
        cases there
        exact seen
      · exact ih later
  | case3 slots r' rest bound o here unseen ih =>
      rcases List.mem_cons.mp held with rfl | later
      · refine Settled.markFrom ?_
        intro o' there
        rw [getElem?_set_marked, if_pos rfl] at there
        cases there
        rfl
      · exact ih (List.mem_append_right _ later)
  | case4 slots r' rest bound here ih =>
      rcases List.mem_cons.mp held with rfl | later
      · refine (settled_of_slot bound ?_).markFrom
        intro o' there
        rw [here] at there
        cases there
      · exact ih later
  | case5 slots r' rest outside ih =>
      rcases List.mem_cons.mp held with rfl | later
      · exact (settled_of_outside outside).markFrom
      · exact ih later

/-- A pending reference that is settled need not be followed. -/
theorem Tracked.drop (tracked : Tracked slots (r :: pending)) (settled : Settled slots r) :
    Tracked slots pending := by
  intro r' o there marked r'' held
  rcases tracked r' o there marked r'' held with done | later
  · exact .inl done
  · rcases List.mem_cons.mp later with rfl | later
    · exact .inl settled
    · exact .inr later

/-- Marking an object makes what it refers to pending. -/
theorem Tracked.set_marked (tracked : Tracked slots (r :: pending)) (bound : r.index < slots.size)
    {o : HeapObject} :
    Tracked (slots.set r.index (some { o with marked := true }) bound)
      (o.references ++ pending) := by
  intro r' o' there marked r'' held
  rw [getElem?_set_marked] at there
  split at there
  · cases there
    exact .inr (List.mem_append_left _ held)
  · rcases tracked r' o' there marked r'' held with done | later
    · exact .inl (done.set_marked bound)
    · rcases List.mem_cons.mp later with rfl | later
      · refine .inl ?_
        intro o'' there
        rw [getElem?_set_marked, if_pos rfl] at there
        cases there
        rfl
      · exact .inr (List.mem_append_right _ later)

theorem Tracked.markFrom (tracked : Tracked slots pending) :
    Tracked (markFrom slots pending) [] := by
  fun_induction Heap.markFrom slots pending with
  | case1 => exact tracked
  | case2 slots r rest bound o here seen ih =>
      refine ih (tracked.drop (settled_of_slot bound ?_))
      intro o' there
      rw [here] at there
      cases there
      exact seen
  | case3 slots r rest bound o here unseen ih => exact ih (tracked.set_marked bound)
  | case4 slots r rest bound here ih =>
      refine ih (tracked.drop (settled_of_slot bound ?_))
      intro o' there
      rw [here] at there
      cases there
  | case5 slots r rest outside ih => exact ih (tracked.drop (settled_of_outside outside))

theorem tracked_clearMarks : Tracked (clearMarks slots) pending := by
  intro r o there marked
  rw [clearMarks, Array.getElem?_map] at there
  rcases slot : slots[r.index]? with _ | _ | o' <;> rw [slot] at there <;> cases there
  cases marked

end Marking

theorem references_of_content {o o' : HeapObject} (same : o'.content = o.content) :
    o'.references = o.references := by
  have fields : o'.fields = o.fields := congrArg Content.fields same
  rw [HeapObject.references, HeapObject.references, fields]

section Collecting

variable {h : Heap} {stack : CallStack} {r : HeapRef}

theorem settled_of_reaches (reached : h.Reaches stack r) : Settled (h.mark stack).slots r := by
  induction reached with
  | root held =>
      exact settled_of_pending (List.mem_filterMap.mpr ⟨_, held, rfl⟩)
  | @field r r' o reached there held settled =>
      have same := content_mark h stack r
      rw [there, Option.map_some] at same
      obtain ⟨o', there', content⟩ := Option.map_eq_some_iff.mp same
      have tracked : Tracked (h.mark stack).slots [] := tracked_clearMarks.markFrom
      have held' : r' ∈ o'.references := by
        rw [references_of_content content]
        exact HeapObject.mem_references.mpr held
      rcases tracked r o' there' (settled o' there') r' held' with done | later
      · exact done
      · cases later

theorem swept_of_marked {o : HeapObject} (target : Option Nat) (marked : o.marked = true) :
    ∃ o', o.swept target = some o' ∧ o'.content = o.content := by
  have kept : o.isFreed target = false := by simp [HeapObject.isFreed, marked]
  simp only [HeapObject.swept, kept, Bool.false_eq_true, if_false]
  split <;> exact ⟨_, rfl, rfl⟩

/-- The second heap has all objects of the first to which the frames lead. -/
def Retains (h : Heap) (stack : CallStack) (h' : Heap) : Prop :=
  ∀ (r : HeapRef) (o : HeapObject), h.Reaches stack r → h.get? r = some o →
    ∃ o', h'.get? r = some o' ∧ o'.content = o.content

theorem Retains.refl (h : Heap) (stack : CallStack) : h.Retains stack h := by
  intro r o _ there
  exact ⟨o, there, rfl⟩

theorem Retains.reaches {h' : Heap} (retains : h.Retains stack h') (reached : h.Reaches stack r) :
    h'.Reaches stack r := by
  induction reached with
  | root held => exact .root held
  | field reached there held ih =>
      obtain ⟨o', there', content⟩ := retains _ _ reached there
      have fields : o'.fields = _ := congrArg Content.fields content
      exact .field ih there' (fields ▸ held)

theorem Retains.trans {h' h'' : Heap} (first : h.Retains stack h')
    (second : h'.Retains stack h'') : h.Retains stack h'' := by
  intro r o reached there
  obtain ⟨o', there', content⟩ := first r o reached there
  obtain ⟨o'', there'', content'⟩ := second r o' (first.reaches reached) there'
  exact ⟨o'', there'', content'.trans content⟩

/-- A collection retains what can be reached. -/
theorem retains_collection (h : Heap) (stack : CallStack) (target : Option Nat) :
    h.Retains stack ((h.mark stack).sweep target).1 := by
  intro r o reached there
  have same := content_mark h stack r
  rw [there, Option.map_some] at same
  obtain ⟨marked, there', content⟩ := Option.map_eq_some_iff.mp same
  have isMarked : marked.marked = true := settled_of_reaches reached marked there'
  obtain ⟨o', kept, content'⟩ := swept_of_marked target isMarked
  refine ⟨o', ?_, content'.trans content⟩
  rw [get?_sweep, there']
  exact kept

theorem retains_makeRoom (h : Heap) (stack : CallStack) (requested : Nat) :
    h.Retains stack (h.makeRoom stack requested).1 := by
  simp only [makeRoom]
  split
  · split
    · exact (retains_collection h stack (some 0)).trans (retains_collection _ stack none)
    · exact retains_collection h stack (some 0)
  · exact .refl h stack

end Collecting

end Heap

end StackMachine
