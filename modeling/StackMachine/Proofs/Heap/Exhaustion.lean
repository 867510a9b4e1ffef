import Mathlib
import StackMachine.Proofs.Heap.Bookkeeping

/-! # When the heap is exhausted

With collection enabled, an allocation fails if and only if the objects to which the frames lead
and the new one do not fit together, though it may collect twice, once or not at all before it
fails or succeeds. Without collection, all objects count. What the frames lead to survives either
way, and a success adds one object.
-/

namespace StackMachine

namespace Heap

/-! ## Bytes by reference -/

noncomputable def reachableBytes (h : Heap) (stack : CallStack) : Nat :=
  ∑ᶠ r ∈ {r : HeapRef | h.Reaches stack r}, (h.get? r).elim 0 HeapObject.footprint

/-- What only references below a bound weigh can be added up by their numbers. -/
theorem finsum_eq_sum_range {size : Nat} (ids : size ≤ handleSpace) {weight : HeapRef → Nat}
    (outside : ∀ r : HeapRef, size ≤ r.index → weight r = 0) :
    ∑ᶠ r, weight r = ∑ i ∈ Finset.range size, weight ⟨UInt32.ofNat i⟩ := by
  have below : Function.support weight
      ⊆ ((Finset.range size).image fun i => HeapRef.mk (UInt32.ofNat i) : Finset HeapRef) := by
    intro r heavy
    have bound : r.index < size := Nat.lt_of_not_le fun far => heavy (outside r far)
    rw [Finset.coe_image]
    exact ⟨r.index, by simpa using bound, congrArg HeapRef.mk UInt32.ofNat_toNat⟩
  rw [finsum_eq_sum_of_support_subset weight below, Finset.sum_image]
  intro i low j low' same
  rw [Finset.mem_coe, Finset.mem_range] at low low'
  have indices := congrArg HeapRef.index same
  rwa [index_ofNat (by omega), index_ofNat (by omega)] at indices

theorem total_eq_sum_range (measure : HeapObject → Nat) (slots : Array (Option HeapObject)) :
    total measure slots
      = ∑ i ∈ Finset.range slots.size, (slots[i]?.join).elim 0 measure := by
  obtain ⟨slots⟩ := slots
  simp only [total, List.size_toArray, List.getElem?_toArray]
  induction slots with
  | nil => rfl
  | cons slot rest ih =>
      rw [List.foldr_cons, List.length_cons, Finset.sum_range_succ', ih]
      simp only [List.getElem?_cons_succ, List.getElem?_cons_zero, Option.join_some]
      omega

/-- The objects can be added up by slots or by references. -/
theorem total_eq_finsum {h : Heap} (ids : h.slots.size ≤ handleSpace)
    (measure : HeapObject → Nat) :
    total measure h.slots = ∑ᶠ r, (h.get? r).elim 0 measure := by
  rw [total_eq_sum_range, finsum_eq_sum_range ids]
  · refine Finset.sum_congr rfl ?_
    intro i inside
    rw [Finset.mem_range] at inside
    rw [get?, index_ofNat (by omega)]
  · intro r far
    rw [get?, Array.getElem?_eq_none far]
    rfl

section Reachable

variable {h : Heap} {stack : CallStack}

theorem Represented.reachableBytes_le (represented : h.Represented) :
    h.reachableBytes stack ≤ h.usedBytes := by
  have ids := represented.ids
  have outside : ∀ r : HeapRef, h.slots.size ≤ r.index → h.get? r = none := by
    intro r far
    rw [get?, Array.getElem?_eq_none far]
    rfl
  rw [represented.used, total_eq_finsum ids, reachableBytes, finsum_mem_def,
    finsum_eq_sum_range ids, finsum_eq_sum_range ids]
  · exact Finset.sum_le_sum fun i _ => Set.indicator_le_self _ _ _
  · intro r far
    rw [outside r far]
    rfl
  · intro r far
    simp [outside r far]

section Collected

variable {scope : Nat → Prop} {after : Heap} {report : CollectReport}

theorem Collects.retains (collects : h.Collects stack scope after report) :
    h.Retains stack after := by
  intro r o reached there
  cases left : after.get? r with
  | none => exact absurd reached ((collects.freed r o there).mp left).2
  | some o' =>
      obtain ⟨o'', there', content, _⟩ := collects.kept r o' left
      rw [there] at there'
      cases there'
      exact ⟨o', rfl, content⟩

/-- The frames lead to the same objects after a collection. -/
theorem Collects.reaches_iff (collects : h.Collects stack scope after report) {r : HeapRef} :
    after.Reaches stack r ↔ h.Reaches stack r := by
  constructor
  · intro reached
    induction reached with
    | root held => exact .root held
    | field reached there held ih =>
        obtain ⟨o, there', content, _⟩ := collects.kept _ _ there
        have fields : _ = o.fields := congrArg Content.fields content
        exact .field ih there' (fields ▸ held)
  · exact collects.retains.reaches

/-- What an object to which the frames lead is charged for stays the same. -/
theorem Collects.footprint_eq (collects : h.Collects stack scope after report) {r : HeapRef}
    (reached : h.Reaches stack r) :
    (after.get? r).elim 0 HeapObject.footprint = (h.get? r).elim 0 HeapObject.footprint := by
  cases left : after.get? r with
  | none =>
      cases there : h.get? r with
      | none => rfl
      | some o => exact absurd reached ((collects.freed r o there).mp left).2
  | some o' =>
      obtain ⟨o, there, _, footprint⟩ := collects.kept r o' left
      rw [there]
      exact footprint

theorem Collects.reachableBytes_eq (collects : h.Collects stack scope after report) :
    after.reachableBytes stack = h.reachableBytes stack := by
  have same : {r : HeapRef | after.Reaches stack r} = {r : HeapRef | h.Reaches stack r} := by
    ext r
    exact collects.reaches_iff
  rw [reachableBytes, reachableBytes, same]
  exact finsum_mem_congr rfl fun r reached => collects.footprint_eq reached

/-- After everything is collected, only what the frames lead to is charged for. -/
theorem Collects.usedBytes_eq (collects : h.Collects stack (fun _ => True) after report)
    (represented : after.Represented) : after.usedBytes = h.reachableBytes stack := by
  rw [represented.used, total_eq_finsum represented.ids, reachableBytes, finsum_mem_def]
  refine finsum_congr fun r => ?_
  by_cases reached : h.Reaches stack r
  · rw [Set.indicator_of_mem (by exact reached)]
    exact collects.footprint_eq reached
  · rw [Set.indicator_of_notMem (by exact reached)]
    cases left : after.get? r with
    | none => rfl
    | some o' =>
        obtain ⟨o, there, _⟩ := collects.kept r o' left
        rw [(collects.freed r o there).mpr ⟨trivial, reached⟩] at left
        cases left

end Collected

end Reachable

/-! ## Making room -/

/-- The second heap has objects of the first only, and all of those to which the frames lead. -/
structure Keeps (h : Heap) (stack : CallStack) (kept : Heap) : Prop where
  retained : h.Retains stack kept
  old : ∀ (r : HeapRef) (o' : HeapObject), kept.get? r = some o' →
    ∃ o, h.get? r = some o ∧ o'.content = o.content

section Room

variable {h : Heap} {stack : CallStack} {requested : Nat}

theorem Keeps.refl (h : Heap) (stack : CallStack) : h.Keeps stack h :=
  ⟨.refl h stack, fun _ o there => ⟨o, there, rfl⟩⟩

theorem Keeps.trans {h' h'' : Heap} (first : h.Keeps stack h') (second : h'.Keeps stack h'') :
    h.Keeps stack h'' where
  retained := first.retained.trans second.retained
  old r o'' left := by
    obtain ⟨o', there', content'⟩ := second.old r o'' left
    obtain ⟨o, there, content⟩ := first.old r o' there'
    exact ⟨o, there, content'.trans content⟩

theorem Collects.keeps {scope : Nat → Prop} {after : Heap} {report : CollectReport}
    (collects : h.Collects stack scope after report) : h.Keeps stack after where
  retained := collects.retains
  old r o' left := by
    obtain ⟨o, there, content, _⟩ := collects.kept r o' left
    exact ⟨o, there, content⟩

theorem maxBytes_makeRoom (h : Heap) (stack : CallStack) (requested : Nat) :
    (h.makeRoom stack requested).1.maxBytes = h.maxBytes := by
  simp only [Heap.makeRoom]
  split
  · split <;> rfl
  · rfl

theorem makeRoom_of_disabled (disabled : h.gcEnabled = false) (stack : CallStack)
    (requested : Nat) : h.makeRoom stack requested = (h, []) := by
  simp only [Heap.makeRoom, disabled, Bool.and_false, Bool.false_eq_true, if_false]

theorem Represented.keeps_makeRoom (represented : h.Represented) (stack : CallStack)
    (requested : Nat) : h.Keeps stack (h.makeRoom stack requested).1 := by
  have young := (collection_is_exact represented stack).1 0
  have all := (collection_is_exact ((represented.mark stack).sweep (some 0)) stack).2.1
  simp only [Heap.makeRoom]
  split
  · split
    · exact young.keeps.trans all.keeps
    · exact young.keeps
  · exact .refl h stack

/-- Collecting the youngest generation first, and all only if that is not enough, decides as the
objects to which the frames lead would. -/
theorem Represented.exceeds_makeRoom (represented : h.Represented) (enabled : h.gcEnabled = true) :
    (h.makeRoom stack requested).1.exceeds requested = true
      ↔ h.maxBytes < h.reachableBytes stack + requested := by
  have youngBooks : (h.collect 0 stack).1.Represented := (represented.mark stack).sweep (some 0)
  have allBooks : ((h.collect 0 stack).1.collectFull stack).1.Represented :=
    (youngBooks.mark stack).sweep none
  have young := (collection_is_exact represented stack).1 0
  have all := (collection_is_exact youngBooks stack).2.1
  have limit := maxBytes_makeRoom h stack requested
  have before : h.reachableBytes stack ≤ h.usedBytes := represented.reachableBytes_le
  have between : h.reachableBytes stack ≤ (h.collect 0 stack).1.usedBytes := by
    rw [← young.reachableBytes_eq]
    exact youngBooks.reachableBytes_le
  have after : ((h.collect 0 stack).1.collectFull stack).1.usedBytes = h.reachableBytes stack := by
    rw [all.usedBytes_eq allBooks, young.reachableBytes_eq]
  simp only [exceeds, decide_eq_true_eq, limit]
  simp only [Heap.makeRoom, enabled, Bool.and_true]
  by_cases full : h.exceeds requested = true
  · rw [if_pos full]
    by_cases still : (h.collect 0 stack).1.exceeds requested = true
    · rw [if_pos still, after]
    · rw [if_neg still]
      dsimp only
      have same : (h.collect 0 stack).1.maxBytes = h.maxBytes := rfl
      have fits : ¬ h.maxBytes < (h.collect 0 stack).1.usedBytes + requested := by
        rw [exceeds, decide_eq_true_eq, same] at still
        exact still
      constructor <;> intro tight <;> omega
  · rw [if_neg full]
    dsimp only
    have fits : ¬ h.maxBytes < h.usedBytes + requested := by simpa [exceeds] using full
    constructor <;> intro tight <;> omega

def HasIdLeft (h : Heap) : Prop := h.free ≠ [] ∨ h.slots.size < handleSpace

theorem HasIdLeft.makeRoom (left : h.HasIdLeft) (stack : CallStack) (requested : Nat) :
    (h.makeRoom stack requested).1.HasIdLeft := by
  have swept : ∀ (k : Heap) (target : Option Nat), k.HasIdLeft →
      ((k.mark stack).sweep target).1.HasIdLeft := by
    intro k target kept
    rcases kept with free | room
    · refine .inl ?_
      show freedSlots target (k.mark stack).slots ++ k.free ≠ []
      simp [free]
    · refine .inr ?_
      rw [size_sweep, size_mark]
      exact room
  simp only [Heap.makeRoom]
  split
  · split
    · exact swept _ none (swept h (some 0) left)
    · exact swept h (some 0) left
  · exact left

theorem HasIdLeft.insert (left : h.HasIdLeft) (sound : h.Sound) (o : HeapObject) :
    ∃ r, (h.insert o).2 = .ok r ∧ h.Adds o r (h.insert o).1
      ∧ (h.insert o).1.usedBytes = h.usedBytes + o.footprint := by
  have bytes : (h.insert o).1.usedBytes = h.usedBytes + o.footprint
      ∧ ∃ r, (h.insert o).2 = .ok r := by
    unfold Heap.insert
    cases free : h.free with
    | cons slot rest => exact ⟨rfl, _, rfl⟩
    | nil =>
        have room : h.slots.size < handleSpace := left.resolve_left (by simp [free])
        dsimp only
        rw [if_pos room]
        exact ⟨rfl, _, rfl⟩
  obtain ⟨used, r, ok⟩ := bytes
  obtain ⟨_, ⟨_, failed⟩ | ⟨r', ok', adds⟩⟩ := sound.insert o
  · rw [ok] at failed
    cases failed
  · exact ⟨r', ok', adds, used⟩

end Room

end Heap

/-! ## Allocations -/

def Allocation.IsExhausted (a : Allocation) : Prop :=
  ∃ requested used limit, a.result = .error (.heapExhausted requested used limit)

namespace Heap

/-- How an allocation ends on the heap that its collections have left: there is no room and nothing
is added, or one object is added, with the tag and the fields, and the heap is within its limit. -/
inductive Concludes (kept : Heap) (tag : String) (fields : Array Value) (a : Allocation) :
    Prop where
  | exhausted (failed : a.IsExhausted) (same : a.heap = kept)
  | placed {r : HeapRef} {o : HeapObject} (ok : a.result = .ok r) (adds : kept.Adds o r a.heap)
      (tag_eq : o.tag = tag) (fields_eq : o.fields = fields)
      (within : a.heap.usedBytes ≤ kept.maxBytes)

structure Allots (h : Heap) (stack : CallStack) (tag : String) (fields : Array Value)
    (a : Allocation) : Prop where
  collecting : h.gcEnabled = true →
    (a.IsExhausted ↔ h.maxBytes < h.reachableBytes stack + StackMachine.footprint tag fields)
  disabled : h.gcEnabled = false → a.collections = []
    ∧ (a.IsExhausted ↔ h.maxBytes < h.usedBytes + StackMachine.footprint tag fields)
  concludes : ∃ kept, h.Keeps stack kept ∧ kept.maxBytes = h.maxBytes
    ∧ (h.gcEnabled = false → kept = h) ∧ kept.Concludes tag fields a
  survives : h.Retains stack a.heap

section Allocating

variable {h : Heap} {stack : CallStack}

theorem Concludes.retains {kept : Heap} {tag : String} {fields : Array Value} {a : Allocation}
    (concludes : kept.Concludes tag fields a) (keeps : h.Keeps stack kept) :
    h.Retains stack a.heap := by
  cases concludes with
  | exhausted _ same => exact same ▸ keeps.retained
  | placed _ adds =>
      intro r o reached there
      obtain ⟨o', there', content⟩ := keeps.retained r o reached there
      refine ⟨o', ?_, content⟩
      rw [adds.get?, if_neg, there']
      rintro rfl
      rw [adds.fresh] at there'
      cases there'

theorem Represented.concludes_place (represented : h.Represented) (left : h.HasIdLeft)
    (stack : CallStack) {object : Unit → HeapObject} {requested : Nat}
    (bytes : (object ()).footprint = requested) :
    (h.makeRoom stack requested).1.Concludes (object ()).tag (object ()).fields
        (h.place stack requested object)
      ∧ ((h.place stack requested object).IsExhausted
        ↔ (h.makeRoom stack requested).1.exceeds requested = true) := by
  have books := represented.makeRoom stack requested
  have room := left.makeRoom stack requested
  simp only [Heap.place]
  by_cases full : (h.makeRoom stack requested).1.exceeds requested = true
  · rw [if_pos full]
    have failed : Allocation.IsExhausted
        ⟨(h.makeRoom stack requested).1, (h.makeRoom stack requested).2,
          .error ((h.makeRoom stack requested).1.exhausted requested)⟩ := ⟨_, _, _, rfl⟩
    exact ⟨.exhausted failed rfl, fun _ => full, fun _ => failed⟩
  · rw [if_neg full]
    obtain ⟨r, ok, adds, used⟩ := room.insert books.toSound (object ())
    have fits : ¬ (h.makeRoom stack requested).1.maxBytes
        < (h.makeRoom stack requested).1.usedBytes + requested := by simpa [exceeds] using full
    refine ⟨.placed ok adds rfl rfl ?_, ?_, fun tight => absurd tight full⟩
    · dsimp only
      omega
    · rintro ⟨_, _, _, failed⟩
      rw [ok] at failed
      cases failed

theorem Represented.allots_place (represented : h.Represented) (left : h.HasIdLeft)
    (object : Unit → HeapObject) {requested : Nat} (bytes : (object ()).footprint = requested)
    (charged : requested = StackMachine.footprint (object ()).tag (object ()).fields) :
    h.Allots stack (object ()).tag (object ()).fields (h.place stack requested object) := by
  obtain ⟨concludes, exhausted⟩ := represented.concludes_place left stack bytes
  have keeps := represented.keeps_makeRoom stack requested
  refine ⟨?_, ?_, ?_, concludes.retains keeps⟩
  · intro enabled
    rw [exhausted, represented.exceeds_makeRoom enabled, charged]
  · intro disabled
    have still := makeRoom_of_disabled disabled stack requested
    rw [exhausted, still, ← charged]
    constructor
    · simp only [Heap.place, still]
      split <;> rfl
    · simp [exceeds]
  · refine ⟨_, keeps, maxBytes_makeRoom h stack requested, ?_, concludes⟩
    intro disabled
    rw [makeRoom_of_disabled disabled]

/-- An array that has more bytes than can be asked for fits no heap, whatever is live. -/
theorem allots_beyond {tag : String} {fields : Array Value} (limit : h.maxBytes < addressSpace)
    (beyond : addressSpace ≤ StackMachine.footprint tag fields) (fault : Fault)
    (exhausted : ∃ requested used limit, fault = .heapExhausted requested used limit) :
    h.Allots stack tag fields ⟨h, [], .error fault⟩ := by
  obtain ⟨requested, used, most, rfl⟩ := exhausted
  have failed : Allocation.IsExhausted ⟨h, [], .error (.heapExhausted requested used most)⟩ :=
    ⟨_, _, _, rfl⟩
  refine ⟨?_, ?_, ⟨h, .refl h stack, rfl, fun _ => rfl, .exhausted failed rfl⟩, .refl h stack⟩
  · intro _
    exact ⟨fun _ => by omega, fun _ => failed⟩
  · intro _
    exact ⟨rfl, fun _ => by omega, fun _ => failed⟩

theorem Represented.allots_array (represented : h.Represented) (left : h.HasIdLeft)
    (limit : h.maxBytes < addressSpace) {element : Descriptor} {v : Value}
    (default : element.default? = some v) (length : Nat) :
    h.Allots stack (Descriptor.array element).text (Array.replicate length v)
      (h.allocateArray stack element length) := by
  have charged := arrayFootprint_eq (Descriptor.array element).text v length
  simp only [Heap.allocateArray, default]
  by_cases addressable : arrayFootprint (Descriptor.array element).text v length < addressSpace
  · rw [if_pos addressable]
    exact represented.allots_place left (fun _ => ⟨(Descriptor.array element).text, some element,
      Array.replicate length v, false, 0, _⟩) rfl charged
  · rw [if_neg addressable]
    exact allots_beyond limit (by omega) _ ⟨_, _, _, rfl⟩

/-- On a heap whose books are right, with an id left and a limit that is a number of bytes, every
allocation of an object, and of an array of elements that are not void, fails if and only if there
is no room for it beside what the frames lead to; without collection, beside all objects, and then
nothing is collected. What the frames lead to survives in every case. A success adds one object to
what the collections left, with the tag and the fields asked for, and keeps within the limit; a
failure adds none. -/
theorem allocation_fails_iff_live_data_does_not_fit (represented : h.Represented)
    (left : h.HasIdLeft) (limit : h.maxBytes < addressSpace) (stack : CallStack) :
    (∀ tag fields, h.Allots stack tag fields (h.allocate stack tag fields))
      ∧ ∀ element length, element ≠ .void → ∃ v, element.default? = some v
          ∧ h.Allots stack (Descriptor.array element).text (Array.replicate length v)
              (h.allocateArray stack element length) := by
  constructor
  · intro tag fields
    exact represented.allots_place left (fun _ => ⟨tag, elementOfTag tag, fields, false, 0,
      StackMachine.footprint tag fields⟩) rfl rfl
  · intro element length solid
    have default : ∃ v, element.default? = some v := by
      cases element with
      | void => exact absurd rfl solid
      | _ => exact ⟨_, rfl⟩
    obtain ⟨v, default⟩ := default
    exact ⟨v, default, represented.allots_array left limit default length⟩

end Allocating

/-! Of the three tangled objects, the one to which nothing leads makes room for an array of 18
integers; for 19 of them there is no room. -/

namespace Tangled

theorem makes_room_for_eighteen :
    heap.Represented ∧ heap.HasIdLeft ∧ heap.maxBytes < addressSpace
      ∧ (heap.allocateArray stack (.int .i32) 18).result = .ok ⟨3⟩
      ∧ ¬ 1000 < heap.reachableBytes stack + 669 ∧ 1000 < heap.reachableBytes stack + 701
      ∧ (heap.allocateArray stack (.int .i32) 19).IsExhausted := by
  have left : heap.HasIdLeft := .inl (by simp [heap])
  have limit : heap.maxBytes < addressSpace := by decide
  have results : ((heap.allocateArray stack (.int .i32) 18).result,
      (heap.allocateArray stack (.int .i32) 19).result)
      = (.ok ⟨3⟩, .error (.heapExhausted 701 316 1000)) := by cbv
  obtain ⟨placed, failed⟩ := Prod.mk.inj results
  have exhausted : (heap.allocateArray stack (.int .i32) 19).IsExhausted := ⟨_, _, _, failed⟩
  obtain ⟨v, default, eighteen⟩ := (allocation_fails_iff_live_data_does_not_fit represented left
    limit stack).2 (.int .i32) 18 (by simp)
  obtain ⟨w, default', nineteen⟩ := (allocation_fails_iff_live_data_does_not_fit represented left
    limit stack).2 (.int .i32) 19 (by simp)
  cases default
  cases default'
  refine ⟨represented, left, limit, placed, ?_, (nineteen.collecting rfl).mp exhausted, exhausted⟩
  intro tight
  obtain ⟨_, _, _, refused⟩ := (eighteen.collecting rfl).mpr tight
  rw [placed] at refused
  cases refused

end Tangled

end Heap

end StackMachine
