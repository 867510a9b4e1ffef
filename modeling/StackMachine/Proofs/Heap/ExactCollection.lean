import Mathlib
import StackMachine.Proofs.Heap.Slots
import StackMachine.Sums

/-! # What a collection does, exactly

Marking ends, and marks the objects to which the frames lead and no others. So a collection frees
exactly the objects of its generation to which nothing leads, promotes exactly those of its
generation that are left and not yet of the last one, and changes nothing else. Its report counts
both, and has the bytes of all objects before and after.
-/

namespace StackMachine

namespace Heap

/-! ## The books of a heap -/

def total (measure : HeapObject → Nat) (slots : Array (Option HeapObject)) : Nat :=
  slots.toList.foldr (fun slot sum => slot.elim 0 measure + sum) 0

/-- The books of the heap are right: its counters, its free list and what objects are charged
for. Nothing is said of marks and of what fields refer to. -/
structure Represented (h : Heap) : Prop extends h.Sound where
  recycled : ∀ i, i ≠ 0 → h.Vacant i → i ∈ h.free
  live : h.live = h.slots.countP Option.isSome
  used : h.usedBytes = total HeapObject.footprint h.slots
  charged : ∀ slot ∈ h.slots, ∀ o ∈ slot, o.footprint = StackMachine.footprint o.tag o.fields
  aged : ∀ slot ∈ h.slots, ∀ o ∈ slot, o.generation ≤ maxGeneration

/-! ## Marking ends -/

def markRound : Array (Option HeapObject) × List HeapRef → Array (Option HeapObject) × List HeapRef
  | (slots, []) => (slots, [])
  | (slots, r :: rest) =>
      match slots[r.index]?.join with
      | none => (slots, rest)
      | some o =>
          if o.marked then (slots, rest)
          else
            (slots.setIfInBounds r.index (some { o with marked := true }), o.references ++ rest)

def unfollowed (slots : Array (Option HeapObject)) : Nat :=
  total (fun o => if o.marked then 0 else o.references.length) slots

theorem total_set (measure : HeapObject → Nat) {slots : Array (Option HeapObject)} {i : Nat}
    (bound : i < slots.size) (slot : Option HeapObject) :
    total measure (slots.set i slot bound) + slots[i].elim 0 measure
      = total measure slots + slot.elim 0 measure := by
  have added := foldr_add_set (fun slot : Option HeapObject => slot.elim 0 measure)
    slots.toList i slot (by simpa using bound)
  rw [Array.getElem_toList] at added
  simpa [total] using added

section Marking

variable {slots : Array (Option HeapObject)} {pending : List HeapRef} {r : HeapRef}

/-- Marking an object leaves its references to be followed. -/
theorem unfollowed_set_marked (bound : r.index < slots.size) {o : HeapObject}
    (here : slots[r.index] = some o) (unseen : ¬ o.marked = true) :
    unfollowed (slots.set r.index (some { o with marked := true }) bound) + o.references.length
      = unfollowed slots := by
  have added := total_set (fun o => if o.marked then 0 else o.references.length) bound
    (some { o with marked := true })
  simp only [here, Option.elim_some, unseen, if_true, Bool.false_eq_true, if_false] at added
  simpa [unfollowed] using added

theorem markRound_of_none (empty : slots[r.index]?.join = none) :
    markRound (slots, r :: pending) = (slots, pending) := by
  simp only [markRound, empty]

theorem markRound_of_seen {o : HeapObject} (there : slots[r.index]?.join = some o)
    (seen : o.marked = true) : markRound (slots, r :: pending) = (slots, pending) := by
  simp only [markRound, there, seen, if_true]

theorem markRound_of_unseen {o : HeapObject} (bound : r.index < slots.size)
    (there : slots[r.index]?.join = some o) (unseen : ¬ o.marked = true) :
    markRound (slots, r :: pending)
      = (slots.set r.index (some { o with marked := true }) bound, o.references ++ pending) := by
  simp only [markRound, there, unseen, Bool.false_eq_true, if_false, Array.setIfInBounds,
    bound, dif_pos]

variable (slots pending) in
/-- Marking is done after a round for each reference that is pending or held by an object: every
object's references become pending once at most. -/
theorem iterate_markRound :
    ∃ rounds ≤ pending.length + unfollowed slots,
      markRound^[rounds] (slots, pending) = (markFrom slots pending, []) := by
  fun_induction markFrom slots pending with
  | case1 slots => exact ⟨0, Nat.zero_le _, rfl⟩
  | case2 slots r rest bound o here seen ih =>
      obtain ⟨rounds, few, done⟩ := ih
      refine ⟨rounds + 1, by simp only [List.length_cons]; omega, ?_⟩
      have there : slots[r.index]?.join = some o := by simp [bound, here]
      rw [Function.iterate_succ_apply, markRound_of_seen there seen, done]
  | case3 slots r rest bound o here unseen ih =>
      obtain ⟨rounds, few, done⟩ := ih
      have left := unfollowed_set_marked bound here unseen
      refine ⟨rounds + 1, ?_, ?_⟩
      · simp only [List.length_cons, List.length_append] at few ⊢
        omega
      · have there : slots[r.index]?.join = some o := by simp [bound, here]
        rw [Function.iterate_succ_apply, markRound_of_unseen bound there unseen, done]
  | case4 slots r rest bound here ih =>
      obtain ⟨rounds, few, done⟩ := ih
      refine ⟨rounds + 1, by simp only [List.length_cons]; omega, ?_⟩
      have empty : slots[r.index]?.join = none := by simp [bound, here]
      rw [Function.iterate_succ_apply, markRound_of_none empty, done]
  | case5 slots r rest outside ih =>
      obtain ⟨rounds, few, done⟩ := ih
      refine ⟨rounds + 1, by simp only [List.length_cons]; omega, ?_⟩
      have empty : slots[r.index]?.join = none := by
        rw [Array.getElem?_eq_none (by omega)]
        rfl
      rw [Function.iterate_succ_apply, markRound_of_none empty, done]

/-! ## Only what can be reached is marked -/

/-- The property holds of what is pending and of what is marked, and goes on from objects to what
they refer to. -/
structure Spreads (holds : HeapRef → Prop) (slots : Array (Option HeapObject))
    (pending : List HeapRef) : Prop where
  pending : ∀ r ∈ pending, holds r
  marked : ∀ (r : HeapRef) (o : HeapObject), slots[r.index]?.join = some o → o.marked = true →
    holds r
  closed : ∀ (r : HeapRef) (o : HeapObject), slots[r.index]?.join = some o → holds r →
    ∀ r' ∈ o.references, holds r'

variable {holds : HeapRef → Prop}

theorem Spreads.drop (spreads : Spreads holds slots (r :: pending)) :
    Spreads holds slots pending where
  pending r' held := spreads.pending r' (List.mem_cons_of_mem r held)
  marked := spreads.marked
  closed := spreads.closed

theorem Spreads.set_marked (spreads : Spreads holds slots (r :: pending))
    (bound : r.index < slots.size) {o : HeapObject} (there : slots[r.index]?.join = some o) :
    Spreads holds (slots.set r.index (some { o with marked := true }) bound)
      (o.references ++ pending) := by
  have here : holds r := spreads.pending r (List.mem_cons_self ..)
  refine ⟨?_, ?_, ?_⟩
  · intro r' held
    rcases List.mem_append.mp held with now | later
    · exact spreads.closed r o there here r' now
    · exact spreads.pending r' (List.mem_cons_of_mem r later)
  · intro r' o' there' marked
    rw [getElem?_set_marked] at there'
    split at there'
    · rename_i same
      exact same ▸ here
    · exact spreads.marked r' o' there' marked
  · intro r' o' there' reached
    rw [getElem?_set_marked] at there'
    split at there'
    · rename_i same
      subst same
      cases there'
      exact spreads.closed r' o there reached
    · exact spreads.closed r' o' there' reached

theorem Spreads.markFrom (spreads : Spreads holds slots pending) :
    Spreads holds (markFrom slots pending) [] := by
  fun_induction Heap.markFrom slots pending with
  | case1 => exact spreads
  | case2 _ _ _ _ _ _ _ ih => exact ih spreads.drop
  | case3 slots r rest bound o here unseen ih =>
      have there : slots[r.index]?.join = some o := by simp [bound, here]
      exact ih (spreads.set_marked bound there)
  | case4 _ _ _ _ _ ih => exact ih spreads.drop
  | case5 _ _ _ _ ih => exact ih spreads.drop

end Marking

section Collecting

variable {h : Heap} {stack : CallStack} {target : Option Nat} {r : HeapRef}

/-- At first nothing is marked, and the roots are pending. -/
theorem spreads_reaches (h : Heap) (stack : CallStack) :
    Spreads (h.Reaches stack) (clearMarks h.slots) (stack.roots.filterMap Value.ref?) := by
  have before : ∀ (r : HeapRef) (o : HeapObject), (clearMarks h.slots)[r.index]?.join = some o →
      o.marked = false ∧ ∃ o', h.get? r = some o' ∧ o.references = o'.references := by
    intro r o there
    rw [clearMarks, Array.getElem?_map] at there
    rcases slot : h.slots[r.index]? with _ | _ | o' <;> rw [slot] at there <;> cases there
    exact ⟨rfl, o', by rw [get?, slot]; rfl, rfl⟩
  refine ⟨?_, ?_, ?_⟩
  · intro r held
    obtain ⟨v, root, ref⟩ := List.mem_filterMap.mp held
    cases v with
    | ref r' =>
        cases ref
        exact .root root
    | _ => cases ref
  · intro r o there marked
    rw [(before r o there).1] at marked
    cases marked
  · intro r o there reached r' held
    obtain ⟨_, o', there', same⟩ := before r o there
    exact .field reached there' (HeapObject.mem_references.mp (same ▸ held))

open Classical in
/-- Marking marks what can be reached, and changes nothing else. -/
theorem get?_mark (h : Heap) (stack : CallStack) (r : HeapRef) :
    (h.mark stack).get? r
      = (h.get? r).map fun o => { o with marked := decide (h.Reaches stack r) } := by
  have same := map_mark (g := fun o => { o with marked := false }) (fun _ _ => rfl) h stack r
  have spreads := (spreads_reaches h stack).markFrom
  cases there : h.get? r with
  | none =>
      rw [there] at same
      exact Option.map_eq_none_iff.mp same
  | some o =>
      rw [there, Option.map_some] at same
      obtain ⟨o', there', unmarked⟩ := Option.map_eq_some_iff.mp same
      have mark : o'.marked = decide (h.Reaches stack r) := by
        rw [Bool.eq_iff_iff, decide_eq_true_eq]
        exact ⟨spreads.marked r o' there', fun reached => settled_of_reaches reached o' there'⟩
      rw [there', Option.map_some, ← mark]
      obtain ⟨tag, element, fields, marked, generation, bytes⟩ := o'
      cases unmarked
      rfl

/-! ## What a collection leaves -/

def Promotes (h : Heap) (stack : CallStack) (scope : Nat → Prop) (r : HeapRef) (o : HeapObject) :
    Prop :=
  h.Reaches stack r ∧ scope o.generation ∧ o.generation < maxGeneration

theorem swept_eq_none_iff {o : HeapObject} :
    o.swept target = none ↔ o.isFreed target = true := by
  unfold HeapObject.swept
  split
  · rename_i freed
    simp [freed]
  · rename_i kept
    split <;> simp [kept]

theorem isLive_mark (h : Heap) (stack : CallStack) (r : HeapRef) :
    (h.mark stack).isLive r = h.isLive r := by
  have same := content_mark h stack r
  rw [isLive, isLive, ← Option.isSome_map, same, Option.isSome_map]

section Scope

variable {scope : Nat → Prop}
  (agrees : ∀ o : HeapObject, o.inScope target = true ↔ scope o.generation)
include agrees

open Classical in
theorem isFreed_iff (o : HeapObject) :
    ({ o with marked := decide (h.Reaches stack r) }).isFreed target = true
      ↔ scope o.generation ∧ ¬ h.Reaches stack r := by
  rw [HeapObject.isFreed, Bool.and_eq_true, agrees, Bool.not_eq_true', decide_eq_false_iff_not]

open Classical in
theorem isPromoted_iff (o : HeapObject) :
    ({ o with marked := decide (h.Reaches stack r) }).isPromoted target = true
      ↔ h.Promotes stack scope r o := by
  rw [HeapObject.isPromoted, Bool.and_eq_true, Bool.and_eq_true, agrees, decide_eq_true_eq,
    decide_eq_true_eq, Promotes]
  tauto

open Classical in
theorem get?_collection :
    ((h.mark stack).sweep target).1.get? r
      = (h.get? r).bind fun o =>
          if scope o.generation ∧ ¬ h.Reaches stack r then none
          else if h.Promotes stack scope r o then
            some { o with marked := false, generation := o.generation + 1 }
          else some { o with marked := false } := by
  rw [get?_sweep, get?_mark, Option.bind_map]
  congr 1
  funext o
  simp only [Function.comp_apply, HeapObject.swept, isFreed_iff agrees, isPromoted_iff agrees]

end Scope

/-! ## Counting objects -/

/-- There is an id for every slot, so objects can be counted by slots or by references. -/
theorem ncard_eq_countP {slots : Array (Option HeapObject)} (ids : slots.size ≤ handleSpace)
    (p : HeapObject → Bool) :
    {r : HeapRef | ∃ o, slots[r.index]?.join = some o ∧ p o = true}.ncard
      = slots.countP (·.any p) := by
  let places := slots.toList.zipIdx.filter fun entry => entry.1.any p
  let refs : List HeapRef := places.map fun entry => ⟨UInt32.ofNat entry.2⟩
  have place : ∀ entry ∈ places, slots[entry.2]? = some entry.1 ∧ entry.1.any p = true := by
    intro entry held
    obtain ⟨listed, holds⟩ := List.mem_filter.mp held
    rw [← Array.getElem?_toList]
    exact ⟨List.mem_zipIdx_iff_getElem?.mp listed, holds⟩
  have index : ∀ entry ∈ places, (HeapRef.mk (UInt32.ofNat entry.2)).index = entry.2 := by
    intro entry held
    have bound := (Array.getElem?_eq_some_iff.mp (place entry held).1).1
    exact index_ofNat (by omega)
  have members : {r : HeapRef | ∃ o, slots[r.index]?.join = some o ∧ p o = true}
      = (refs.toFinset : Set HeapRef) := by
    ext r
    rw [Set.mem_ofPred_eq, List.coe_toFinset, Set.mem_ofPred_eq, List.mem_map]
    constructor
    · rintro ⟨o, there, holds⟩
      have slot : slots[r.index]? = some (some o) := Option.join_eq_some_iff.mp there
      refine ⟨(some o, r.index), List.mem_filter.mpr ⟨?_, holds⟩, ?_⟩
      · rw [List.mem_zipIdx_iff_getElem?, Array.getElem?_toList]
        exact slot
      · exact congrArg HeapRef.mk UInt32.ofNat_toNat
    · rintro ⟨entry, held, rfl⟩
      obtain ⟨slot, holds⟩ := place entry held
      obtain ⟨o, present, holds⟩ := (Option.any_eq_true _ _).mp holds
      rw [index entry held, slot, present]
      exact ⟨o, rfl, holds⟩
  have distinct : refs.Nodup := by
    have numbers : (places.map Prod.snd).Nodup := by
      have all : (slots.toList.zipIdx.map Prod.snd).Nodup := by
        rw [List.zipIdx_map_snd]
        exact List.nodup_range'
      exact all.sublist (List.filter_sublist.map Prod.snd)
    have indices : refs.map HeapRef.index = places.map Prod.snd := by
      rw [List.map_map]
      exact List.map_congr_left index
    exact List.Nodup.of_map HeapRef.index (indices ▸ numbers)
  rw [members, Set.ncard_coe_finset, List.toFinset_card_of_nodup distinct, List.length_map,
    ← List.countP_eq_length_filter, ← Array.countP_toList]
  conv_rhs => rw [← List.zipIdx_map_fst 0 slots.toList, List.countP_map]
  rfl

theorem length_freedSlots (target : Option Nat) (slots : Array (Option HeapObject)) :
    (freedSlots target slots).length = slots.countP (·.any (·.isFreed target)) := by
  rw [freedSlots_eq, List.length_reverse, List.length_map, ← List.countP_eq_length_filter,
    ← Array.countP_toList]
  conv_rhs => rw [← List.zipIdx_map_fst 0 slots.toList, List.countP_map]
  rfl

/-! ## Counting bytes -/

theorem total_clearMarks {measure : HeapObject → Nat}
    (blind : ∀ o m, measure { o with marked := m } = measure o)
    (slots : Array (Option HeapObject)) :
    total measure (clearMarks slots) = total measure slots := by
  have slot : ∀ slot : Option HeapObject,
      (slot.map fun o => { o with marked := false }).elim 0 measure = slot.elim 0 measure := by
    intro slot
    cases slot with
    | none => rfl
    | some o => exact blind o false
  simp only [total, clearMarks, Array.toList_map, List.foldr_map, slot]

theorem total_markFrom {measure : HeapObject → Nat}
    (blind : ∀ o m, measure { o with marked := m } = measure o)
    (slots : Array (Option HeapObject)) (pending : List HeapRef) :
    total measure (markFrom slots pending) = total measure slots := by
  fun_induction markFrom slots pending with
  | case1 => rfl
  | case2 _ _ _ _ _ _ _ ih => exact ih
  | case3 slots r rest bound o here unseen ih =>
      have added := total_set measure bound (some { o with marked := true })
      have same : measure { o with marked := true } = measure o := blind o true
      rw [here, Option.elim_some, Option.elim_some] at added
      omega
  | case4 _ _ _ _ _ ih => exact ih
  | case5 _ _ _ _ ih => exact ih

theorem total_mark (h : Heap) (stack : CallStack) :
    total HeapObject.footprint (h.mark stack).slots = total HeapObject.footprint h.slots := by
  have blind : ∀ (o : HeapObject) (m : Bool), ({ o with marked := m }).footprint = o.footprint :=
    fun _ _ => rfl
  exact (total_markFrom blind _ _).trans (total_clearMarks blind _)

theorem foldl_freedBytes (target : Option Nat) (slots : List (Option HeapObject)) (start : Nat) :
    slots.foldl (fun bytes slot =>
        match slot with
        | some o => if o.isFreed target then bytes + o.footprint else bytes
        | none => bytes) start
      + slots.foldr
          (fun slot sum => (slot.bind (·.swept target)).elim 0 HeapObject.footprint + sum) 0
      = start + slots.foldr (fun slot sum => slot.elim 0 HeapObject.footprint + sum) 0 := by
  induction slots generalizing start with
  | nil => rfl
  | cons slot slots ih =>
      rw [List.foldl_cons, List.foldr_cons, List.foldr_cons]
      cases slot with
      | none =>
          have rest := ih start
          simp only [Option.bind_none, Option.elim_none]
          omega
      | some o =>
          have footprint : (o.swept target).elim 0 HeapObject.footprint
              = if o.isFreed target then 0 else o.footprint := by
            unfold HeapObject.swept
            split
            · rfl
            · split <;> rfl
          rw [Option.bind_some, footprint]
          by_cases freed : o.isFreed target = true
          · have rest := ih (start + o.footprint)
            simp only [freed, if_true, Option.elim_some]
            omega
          · have rest := ih start
            simp only [freed, Bool.false_eq_true, if_false, Option.elim_some]
            omega

/-- The bytes that a sweep gives back, and those of what it leaves. -/
theorem freedBytes_add_total (h : Heap) (target : Option Nat) :
    freedBytes target h.slots + total HeapObject.footprint (h.sweep target).1.slots
      = total HeapObject.footprint h.slots := by
  have folded := foldl_freedBytes target h.slots.toList 0
  rw [Nat.zero_add] at folded
  rw [freedBytes, total, total, sweep, Array.toList_map, List.foldr_map]
  exact folded

/-! ## Collections -/

/-- What a collection of the generations in scope has to do, and to report. -/
structure Collects (h : Heap) (stack : CallStack) (scope : Nat → Prop) (after : Heap)
    (report : CollectReport) : Prop where
  freed : ∀ (r : HeapRef) (o : HeapObject), h.get? r = some o →
    (after.get? r = none ↔ scope o.generation ∧ ¬ h.Reaches stack r)
  kept : ∀ (r : HeapRef) (o' : HeapObject), after.get? r = some o' →
    ∃ o, h.get? r = some o ∧ o'.content = o.content ∧ o'.footprint = o.footprint
  promoted : ∀ (r : HeapRef) (o o' : HeapObject), h.get? r = some o → after.get? r = some o' →
    (h.Promotes stack scope r o ∧ o'.generation = o.generation + 1)
      ∨ (¬ h.Promotes stack scope r o ∧ o'.generation = o.generation)
  unmarked : ∀ (r : HeapRef) (o' : HeapObject), after.get? r = some o' → o'.marked = false
  freedCount : report.freed = {r | h.isLive r = true ∧ after.isLive r = false}.ncard
  promotedCount : report.promoted
    = {r | ∃ o, h.get? r = some o ∧ h.Promotes stack scope r o}.ncard
  bytesBefore : report.bytesBefore = total HeapObject.footprint h.slots
  bytesAfter : report.bytesAfter = total HeapObject.footprint after.slots

open Classical in
/-- A sweep after marking is a collection of what it looks at. -/
theorem Represented.collects (represented : h.Represented) (stack : CallStack)
    {target : Option Nat} {scope : Nat → Prop}
    (agrees : ∀ o : HeapObject, o.inScope target = true ↔ scope o.generation) :
    h.Collects stack scope ((h.mark stack).sweep target).1 ((h.mark stack).sweep target).2 := by
  have ids : (h.mark stack).slots.size ≤ handleSpace := (represented.toSound.mark stack).ids
  have bytes := freedBytes_add_total (h.mark stack) target
  have marked := total_mark h stack
  have used := represented.used
  refine ⟨?_, ?_, ?_, ?_, ?_, ?_, used, ?_⟩
  · intro r o there
    rw [get?_collection agrees, there, Option.bind_some]
    split
    · rename_i gone
      exact ⟨fun _ => gone, fun _ => rfl⟩
    · rename_i stays
      split <;> simp [stays]
  · intro r o' left
    rw [get?_collection agrees] at left
    obtain ⟨o, there, survives⟩ := Option.bind_eq_some_iff.mp left
    split at survives
    · cases survives
    · split at survives <;> cases survives <;> exact ⟨o, there, rfl, rfl⟩
  · intro r o o' there left
    rw [get?_collection agrees, there, Option.bind_some] at left
    split at left
    · cases left
    · split at left
      · rename_i moves
        cases left
        exact .inl ⟨moves, rfl⟩
      · rename_i stays
        cases left
        exact .inr ⟨stays, rfl⟩
  · intro r o' left
    rw [get?_collection agrees] at left
    obtain ⟨o, there, survives⟩ := Option.bind_eq_some_iff.mp left
    split at survives
    · cases survives
    · split at survives <;> cases survives <;> rfl
  · refine (length_freedSlots target _).trans ((ncard_eq_countP ids _).symm.trans ?_)
    congr 1
    ext r
    rw [Set.mem_ofPred_eq, Set.mem_ofPred_eq, ← isLive_mark h stack, isLive, isLive, get?_sweep]
    change (∃ o, (h.mark stack).get? r = some o ∧ _) ↔ _
    cases (h.mark stack).get? r with
    | none => simp
    | some o => simp [swept_eq_none_iff]
  · refine (ncard_eq_countP ids (·.isPromoted target)).symm.trans ?_
    congr 1
    ext r
    change (∃ o, (h.mark stack).get? r = some o ∧ _) ↔ _
    rw [get?_mark]
    cases there : h.get? r with
    | none => simp [there]
    | some o => simp [there, isPromoted_iff agrees]
  · show (h.mark stack).usedBytes - freedBytes target (h.mark stack).slots = _
    have same : (h.mark stack).usedBytes = h.usedBytes := rfl
    omega

/-- After all marks are cleared, every reference is still to be followed. -/
theorem unfollowed_clearMarks (slots : Array (Option HeapObject)) :
    unfollowed (clearMarks slots) = total (·.references.length) slots := by
  have slot : ∀ slot : Option HeapObject,
      (slot.map fun o => { o with marked := false }).elim 0
          (fun o => if o.marked then 0 else o.references.length)
        = slot.elim 0 (·.references.length) := by
    intro slot
    cases slot <;> rfl
  simp only [unfollowed, total, clearMarks, Array.toList_map, List.foldr_map, slot]

/-- A collection of one generation, or of all at once, frees exactly the objects in its scope to
which the frames do not lead, whatever marks, cycles and dangling references there are, moves the
others in its scope on by one generation up to the last, changes nothing else, and reports exact
counts and bytes. Marking is done after one round for each reference that a frame or an object
holds, at most. -/
theorem collection_is_exact (represented : h.Represented) (stack : CallStack) :
    (∀ g, h.Collects stack (· = g) (h.collect g stack).1 (h.collect g stack).2)
      ∧ h.Collects stack (fun _ => True) (h.collectFull stack).1 (h.collectFull stack).2
      ∧ ∃ rounds ≤ (stack.roots.filterMap Value.ref?).length
          + total (·.references.length) h.slots,
          markRound^[rounds] (clearMarks h.slots, stack.roots.filterMap Value.ref?)
            = ((h.mark stack).slots, []) := by
  refine ⟨?_, ?_, ?_⟩
  · intro g
    exact represented.collects stack fun o => beq_iff_eq
  · exact represented.collects stack fun o => iff_of_true rfl trivial
  · have ends := iterate_markRound (clearMarks h.slots) (stack.roots.filterMap Value.ref?)
    rw [unfollowed_clearMarks] at ends
    exact ends

end Collecting

/-! The frame leads to two objects that refer to each other, one of them also to nothing. A third
one, which is marked, refers to itself and to the first. -/

namespace Tangled

def object (tag : String) (element : Descriptor) (fields : Array Value) (generation : Nat) :
    HeapObject :=
  ⟨tag, some element, fields, true, generation, StackMachine.footprint tag fields⟩

def heap : Heap where
  slots := #[none,
    some (object "[[I32;" (.array (.int .i32)) #[.ref ⟨2⟩, .ref ⟨9⟩] 0),
    some (object "[[I32;" (.array (.int .i32)) #[.ref ⟨1⟩, .ref .null] 1),
    some (object "[[I32;" (.array (.int .i32)) #[.ref ⟨3⟩, .ref ⟨1⟩] 0),
    none]
  free := [4]
  live := 3
  usedBytes := 474
  maxBytes := 1000
  gcEnabled := true
  collections := 0

def stack : CallStack :=
  [⟨⟨"Main", ⟨0, 0, 0, 0, 1, #[⟨.ret, none⟩]⟩, [], .void⟩, 0, #[.ref ⟨1⟩], []⟩]

theorem represented : heap.Represented where
  null := ⟨by decide, rfl⟩
  ids := by decide
  free := by
    intro i held
    obtain rfl := List.mem_singleton.mp held
    exact ⟨by decide, by decide, rfl⟩
  distinct := by decide
  recycled := by
    rintro (_ | _ | _ | _ | _ | i) positive ⟨bound, empty⟩
    · exact absurd rfl positive
    · cases empty
    · cases empty
    · cases empty
    · exact List.mem_singleton_self 4
    · exact absurd bound (by simp [heap])
  live := by decide
  used := by decide +kernel
  charged := by decide +kernel
  aged := by decide +kernel

theorem collected_exactly :
    heap.Represented ∧ (heap.collect 0 stack).2 = ⟨some 0, 1, 1, 474, 316⟩
      ∧ heap.Collects stack (· = 0) (heap.collect 0 stack).1 (heap.collect 0 stack).2
      ∧ heap.Collects stack (fun _ => True) (heap.collectFull stack).1 (heap.collectFull stack).2 :=
  ⟨represented, by cbv, (collection_is_exact represented stack).1 0,
    (collection_is_exact represented stack).2.1⟩

end Tangled

end Heap

end StackMachine
