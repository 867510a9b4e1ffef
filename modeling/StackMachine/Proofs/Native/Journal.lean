import StackMachine.Proofs.Native.Words

/-! # Stores that are held back

Native code holds its stores back, and its loads see them first. If all of them can be made, the
heap that they leave is that of the same stores made at once: each load gives what that heap holds,
and each store goes where it would go there. Where the stores are of integers of the lane, the
arrays keep their types, and a load gives the word for an integer.
-/

namespace StackMachine

/-! ## Indexes -/

/-- Words and integers of the lane denote the same places. -/
theorem widen_of_lane {lane : Lane} {n : FixedInt} (kind : n.kind = lane.kind) :
    (Value.int n).widen? = some n.val := by
  have range := n.inRange
  rw [kind] at range
  have small := Lane.contains_i64 range
  simp only [IntKind.Contains, IntKind.least, IntKind.bound, Width.half, if_true] at small
  simp only [Value.widen?, IntKind.bound, Width.half, if_true]
  rw [if_pos (by omega)]

theorem widen_wordIndex (index : Int64) : (Heap.wordIndex index).widen? = some index.toInt := by
  have contains : IntKind.i64.Contains index.toInt := by
    have lower := Int64.le_toInt index
    have upper := Int64.toInt_lt index
    simp only [IntKind.Contains, IntKind.least, IntKind.bound, Width.half, if_true]
    omega
  have range : (FixedInt.ofInt .i64 index.toInt).val = index.toInt :=
    IntKind.wrap_of_contains contains
  have widened := @widen_of_lane .i64 (.ofInt .i64 index.toInt) rfl
  rw [range] at widened
  exact widened

/-- The slot of an index that the array has. -/
theorem elementSlot_of_bounds {v : Value} {n : Int} {length : Nat} (widened : v.widen? = some n)
    (bounds : 0 ≤ n ∧ n < (length : Int)) : Heap.elementSlot v length = .ok n.toNat := by
  simp only [Heap.elementSlot, widened, if_pos bounds]

/-! ## Single stores -/

namespace Heap

variable {h : Heap} {r r' : HeapRef} {index index' word : Int64} {slot : Nat} {v : Value}

/-- What the place of a value says about the array. -/
theorem array_of_storeSlot {i x : Value} (placed : h.storeSlot r i x = .ok slot) :
    ∃ o, h.array r = .ok o ∧ elementSlot i o.fields.size = .ok slot := by
  unfold storeSlot at placed
  split at placed
  · cases placed
  · rename_i o isArray
    split at placed
    · cases placed
    · rename_i found
      split at placed
      · cases placed
        exact ⟨o, isArray, found⟩
      · cases placed

/-- An index matters only as the number that it denotes. -/
theorem storeSlot_congr {i i' x : Value} {n : Int} (widened : i.widen? = some n)
    (widened' : i'.widen? = some n) : h.storeSlot r i x = h.storeSlot r i' x := by
  simp only [storeSlot, elementSlot, widened, widened']

theorem storeSlot_of_storeWordSlot (placed : h.storeWordSlot r index word = .ok (slot, v)) :
    h.storeSlot r (wordIndex index) v = .ok slot := by
  unfold storeWordSlot at placed
  split at placed
  · cases placed
  · split at placed
    · cases placed
    · split at placed
      · cases placed
      · split at placed
        · cases placed
        · cases placed
          assumption

theorem slot_of_elementSlot {length : Nat}
    (found : elementSlot (wordIndex index) length = .ok slot) :
    index.toInt = (slot : Int) ∧ slot < length := by
  simp only [elementSlot, widen_wordIndex] at found
  split at found
  · cases found
    omega
  · cases found

/-- A store changes one array, and there only the fields and the charge. -/
theorem array_putElement (h : Heap) (r r' : HeapRef) (slot : Nat) (v : Value) :
    (h.putElement r slot v).array r' =
      if r' = r then
        (h.array r').map fun o =>
          { o with
            fields := o.fields.setIfInBounds slot v
            footprint := o.footprint + v.payloadBytes - h.fieldPayload r slot }
      else h.array r' := by
  have stored := get?_putElement h r r' slot v
  by_cases same : r' = r
  · rw [if_pos same] at stored ⊢
    cases live : h.get? r' with
    | none =>
        rw [live, Option.map_none] at stored
        simp only [array, Heap.get, stored, live]
        rfl
    | some o =>
        rw [live, Option.map_some] at stored
        simp only [array, Heap.get, stored, live]
        change (if o.isArray = true then _ else _) = _
        by_cases isArray : o.isArray = true
        · simp only [if_pos isArray, Except.map]
        · simp only [if_neg isArray, Except.map]
  · rw [if_neg same] at stored ⊢
    simp only [array, Heap.get, stored]

/-- Where a value goes does not depend on the stores before it. -/
theorem storeSlot_putElement (h : Heap) (r r' : HeapRef) (slot : Nat) (v index x : Value) :
    (h.putElement r slot v).storeSlot r' index x = h.storeSlot r' index x := by
  simp only [storeSlot, array_putElement]
  by_cases same : r' = r
  · rw [if_pos same]
    cases h.array r' with
    | error fault => rfl
    | ok o => simp only [Except.map, Array.size_setIfInBounds]
  · rw [if_neg same]

theorem storeWordSlot_putElement (h : Heap) (r r' : HeapRef) (slot : Nat) (v : Value)
    (index word : Int64) :
    (h.putElement r slot v).storeWordSlot r' index word = h.storeWordSlot r' index word := by
  have stored := get?_putElement h r r' slot v
  by_cases same : r' = r
  · rw [if_pos same] at stored
    cases live : h.get? r' with
    | none =>
        rw [live, Option.map_none] at stored
        simp only [storeWordSlot, Heap.get, stored, live]
    | some o =>
        rw [live, Option.map_some] at stored
        simp only [storeWordSlot, Heap.get, stored, live, storeSlot_putElement]
  · rw [if_neg same] at stored
    simp only [storeWordSlot, Heap.get, stored, storeSlot_putElement]

/-- A load from another place gives what it gave before. -/
theorem loadWord_putElement_of_ne (v : Value) (other : r' = r → index.toInt ≠ (slot : Int)) :
    (h.putElement r slot v).loadWord r' index = h.loadWord r' index := by
  simp only [loadWord, loadElement, array_putElement]
  by_cases same : r' = r
  · rw [if_pos same]
    cases h.array r' with
    | error fault => rfl
    | ok o =>
        simp only [Except.map, Array.size_setIfInBounds]
        cases found : elementSlot (wordIndex index) o.fields.size with
        | error fault => rfl
        | ok place =>
            have apart : slot ≠ place := by
              rintro rfl
              exact other same (slot_of_elementSlot found).1
            simp only [Array.getD_eq_getD_getElem?, Array.getElem?_setIfInBounds_ne apart]
  · rw [if_neg same]

/-- A load sees a store to its place. -/
theorem loadWord_putElement_self (placed : h.storeWordSlot r index word = .ok (slot, v))
    (same : v.toLane? = some word) : (h.putElement r slot v).loadWord r index = .ok word := by
  obtain ⟨o, isArray, found⟩ := array_of_storeSlot (storeSlot_of_storeWordSlot placed)
  have inside := (slot_of_elementSlot found).2
  simp only [loadWord, loadElement, array_putElement, if_true, isArray, Except.map,
    Array.size_setIfInBounds, found, Array.getD_eq_getD_getElem?,
    Array.getElem?_setIfInBounds_self_of_lt inside, Option.getD_some, same]

end Heap

/-! ## The heap that the held stores leave -/

/-- The store can be made, and leaves its word. -/
def HeldStore.Fits (h : Heap) (held : HeldStore) : Prop :=
  ∃ slot v, h.storeWordSlot held.array held.index held.word = .ok (slot, v)
    ∧ v.toLane? = some held.word

/-- The held stores, made on the first heap, leave the second, whose elements are the ones that
loads on the first heap see. -/
structure WrittenThrough (h₀ : Heap) (journal : List HeldStore) (h : Heap) : Prop where
  fits : ∀ held ∈ journal, held.Fits h₀
  committed : NativeFunction.commit h₀ journal.reverse = (h, .ok ())
  places : ∀ r index word, h.storeWordSlot r index word = h₀.storeWordSlot r index word
  loads : ∀ (s : NativeState), s.journal = journal → ∀ r index,
    s.load h₀ r index = h.loadWord r index

theorem NativeFunction.commit_append (h : Heap) (first rest : List HeldStore) {h' : Heap}
    (done : commit h first = (h', .ok ())) : commit h (first ++ rest) = commit h' rest := by
  induction first generalizing h with
  | nil =>
      cases done
      rfl
  | cons held first ih =>
      simp only [List.cons_append, commit] at done ⊢
      split at done
      · exact ih _ done
      · cases done

namespace WrittenThrough

variable {h₀ h : Heap} {journal : List HeldStore}

theorem nil (h₀ : Heap) : WrittenThrough h₀ [] h₀ where
  fits held member := absurd member List.not_mem_nil
  committed := rfl
  places _ _ _ := rfl
  loads s empty r index := by
    rw [NativeState.load, empty]
    rfl

/-- A store that fits can be made at once. -/
theorem cons (through : WrittenThrough h₀ journal h) {held : HeldStore} {slot : Nat} {v : Value}
    (placed : h₀.storeWordSlot held.array held.index held.word = .ok (slot, v))
    (same : v.toLane? = some held.word) :
    WrittenThrough h₀ (held :: journal) (h.putElement held.array slot v) := by
  have here : h.storeWordSlot held.array held.index held.word = .ok (slot, v) := by
    rw [through.places, placed]
  refine ⟨?_, ?_, ?_, ?_⟩
  · intro other member
    rcases List.mem_cons.mp member with rfl | older
    · exact ⟨slot, v, placed, same⟩
    · exact through.fits other older
  · rw [List.reverse_cons, NativeFunction.commit_append _ _ _ through.committed]
    simp only [NativeFunction.commit, here]
  · intro r index word
    rw [Heap.storeWordSlot_putElement, through.places]
  · intro s journal_eq r index
    rw [NativeState.load, journal_eq, List.find?_cons]
    by_cases found : held.array = r ∧ held.index = index
    · obtain ⟨rfl, rfl⟩ := found
      simp only [beq_self_eq_true, Bool.and_self]
      exact (Heap.loadWord_putElement_self here same).symm
    · have missed : (held.array == r && held.index == index) = false := by simpa using found
      simp only [missed]
      have before := through.loads { s with journal := journal } rfl r index
      rw [NativeState.load] at before
      rw [before, Heap.loadWord_putElement_of_ne]
      intro one_array one_place
      obtain ⟨o, _, there⟩ := Heap.array_of_storeSlot (Heap.storeSlot_of_storeWordSlot here)
      refine found ⟨one_array.symm, Int64.toInt_inj.mp ?_⟩
      rw [one_place, (Heap.slot_of_elementSlot there).1]

end WrittenThrough

/-! ## Arrays of integers -/

section Arrays

variable {h : Heap} {lane : Lane} {r : HeapRef}

theorem Heap.array_of_holds {o : HeapObject} (live : h.get? r = some o)
    (isArray : o.isArray = true) : h.array r = .ok o := by
  simp only [Heap.array, Heap.get, live, isArray, if_true]

theorem Heap.loadElement_of_holds {o : HeapObject} {v : Value} {n : Int}
    (live : h.get? r = some o) (isArray : o.isArray = true) (widened : v.widen? = some n)
    (bounds : 0 ≤ n ∧ n < (o.fields.size : Int)) :
    h.loadElement r v = .ok (o.fields.getD n.toNat Value.unset) := by
  simp only [Heap.loadElement, Heap.array_of_holds live isArray,
    elementSlot_of_bounds widened bounds]

theorem Heap.storeSlot_of_holds {o : HeapObject} {v x : Value} {n : Int}
    (live : h.get? r = some o) (isArray : o.isArray = true)
    (element : o.element = some (.int lane.kind)) (widened : v.widen? = some n)
    (bounds : 0 ≤ n ∧ n < (o.fields.size : Int)) {m : FixedInt} (value : x = .int m)
    (kind : m.kind = lane.kind) : h.storeSlot r v x = .ok n.toNat := by
  subst value
  simp [Heap.storeSlot, Heap.array_of_holds live isArray, elementSlot_of_bounds widened bounds,
    Heap.fits, element, Descriptor.admits, kind]

variable {o : HeapObject} {index : Int64}

/-- A load from an array of integers gives the word for the element. -/
theorem Heap.loadWord_of_bounds (fit : h.ElementsFit) (live : h.get? r = some o)
    (element : o.element = some (.int lane.kind))
    (bounds : 0 ≤ index.toInt ∧ index.toInt < (o.fields.size : Int)) :
    ∃ n : FixedInt, o.fields[index.toInt.toNat]? = some (.int n) ∧ n.kind = lane.kind
      ∧ h.loadWord r index = .ok (Int64.ofInt n.val) := by
  obtain ⟨isArray, admits⟩ := fit r o _ live element
  have inside : index.toInt.toNat < o.fields.size := by omega
  have here : o.fields[index.toInt.toNat]? = some o.fields[index.toInt.toNat] :=
    Array.getElem?_eq_getElem inside
  have admitted := admits _ (Array.getElem_mem inside)
  have loaded := Heap.loadElement_of_holds live isArray (widen_wordIndex index) bounds
  rw [Array.getD_eq_getD_getElem?, here, Option.getD_some] at loaded
  cases value : o.fields[index.toInt.toNat] with
  | int n =>
      rw [value] at loaded admitted here
      have kind : lane.kind = n.kind := by simpa [Descriptor.admits] using admitted
      have word := (toLane?_of_lane kind.symm).1
      exact ⟨n, here, kind.symm, by simp only [Heap.loadWord, loaded, word]⟩
  | _ =>
      rw [value] at admitted
      cases admitted

theorem Heap.loadWord_of_outside (live : h.get? r = some o) (isArray : o.isArray = true)
    (outside : ¬ (0 ≤ index.toInt ∧ index.toInt < (o.fields.size : Int))) :
    h.loadWord r index = .error (.fault (.indexOutOfBounds index.toInt o.fields.size)) := by
  simp only [Heap.loadWord, Heap.loadElement, Heap.array_of_holds live isArray, Heap.elementSlot,
    widen_wordIndex, if_neg outside]

/-- What is loaded from an array of integers. -/
theorem Heap.loadWord_eq_ok {w : Int64} (fit : h.ElementsFit) (integers : h.HoldsIntegers lane r)
    (loaded : h.loadWord r index = .ok w) :
    ∃ o n, h.get? r = some o ∧ o.isArray = true
      ∧ (0 ≤ index.toInt ∧ index.toInt < (o.fields.size : Int))
      ∧ o.fields[index.toInt.toNat]? = some (.int n) ∧ n.kind = lane.kind ∧ w.toInt = n.val := by
  obtain ⟨o, live, isArray, element⟩ := integers
  by_cases bounds : 0 ≤ index.toInt ∧ index.toInt < (o.fields.size : Int)
  · obtain ⟨n, here, kind, word⟩ := Heap.loadWord_of_bounds fit live element bounds
    rw [word] at loaded
    cases loaded
    exact ⟨o, n, live, isArray, bounds, here, kind, (toLane?_of_lane kind).2⟩
  · rw [Heap.loadWord_of_outside live isArray bounds] at loaded
    cases loaded

/-- A store is held back only if the array has the index. -/
theorem NativeState.bounds_of_store {s t : NativeState} {word : Int64} (live : h.get? r = some o)
    (isArray : o.isArray = true) (stored : s.store h ⟨r, index, word⟩ = .ok t) :
    0 ≤ index.toInt ∧ index.toInt < (o.fields.size : Int) := by
  simp only [NativeState.store, Heap.arrayLength, Heap.array_of_holds live isArray] at stored
  split at stored
  · assumption
  · cases stored

/-- Where an integer goes that is held back as a word. -/
theorem Heap.storeWordSlot_of_store {s t : NativeState} {word : Int64} {n : FixedInt}
    (integers : h.HoldsIntegers lane r) (stored : s.store h ⟨r, index, word⟩ = .ok t)
    (kind : n.kind = lane.kind) (same : word.toInt = n.val) :
    h.storeWordSlot r index word = .ok (index.toInt.toNat, .int n) := by
  obtain ⟨o, live, isArray, element⟩ := integers
  have bounds := NativeState.bounds_of_store live isArray stored
  have value : Value.ofLane? word (.int lane.kind) = some (.int n) := by
    rw [Value.ofLane?, same, ← kind, Value.ofInt, FixedInt.ofInt_self]
  have slot := Heap.storeSlot_of_holds live isArray element (widen_wordIndex index) bounds
    (x := .int n) rfl kind
  simp only [Heap.storeWordSlot, Heap.get, live, element, value, slot]

theorem Heap.HoldsIntegers.putElement (integers : h.HoldsIntegers lane r) (r' : HeapRef)
    (slot : Nat) (v : Value) : (h.putElement r' slot v).HoldsIntegers lane r := by
  obtain ⟨o, live, isArray, element⟩ := integers
  unfold Heap.HoldsIntegers
  rw [Heap.get?_putElement]
  split
  · rw [live, Option.map_some]
    exact ⟨_, rfl, isArray, element⟩
  · exact ⟨o, live, isArray, element⟩

end Arrays

/-! ## Stores of integers -/

/-- The held stores have left arrays with their types, and with elements of these. -/
structure Journaled (lane : Lane) (h₀ : Heap) (journal : List HeldStore) (h : Heap) : Prop
    extends WrittenThrough h₀ journal h where
  elements : h.ElementsFit
  integers : ∀ r, h₀.HoldsIntegers lane r → h.HoldsIntegers lane r

namespace Journaled

variable {lane : Lane} {h₀ h : Heap} {journal : List HeldStore} {r : HeapRef}
  {index word : Int64}

theorem nil (lane : Lane) (fit : h₀.ElementsFit) : Journaled lane h₀ [] h₀ where
  toWrittenThrough := .nil h₀
  elements := fit
  integers _ held := held

theorem loaded (journaled : Journaled lane h₀ journal h) {s : NativeState} {w : Int64}
    (same : s.journal = journal) (integers : h₀.HoldsIntegers lane r)
    (found : s.load h₀ r index = .ok w) :
    ∃ o n, h.get? r = some o ∧ o.isArray = true
      ∧ (0 ≤ index.toInt ∧ index.toInt < (o.fields.size : Int))
      ∧ o.fields[index.toInt.toNat]? = some (.int n) ∧ n.kind = lane.kind ∧ w.toInt = n.val := by
  rw [journaled.loads s same] at found
  exact Heap.loadWord_eq_ok journaled.elements (journaled.integers r integers) found

/-- Holding a store back is making it. -/
theorem cons (journaled : Journaled lane h₀ journal h) {s t : NativeState} {n : FixedInt}
    (integers : h₀.HoldsIntegers lane r) (stored : s.store h₀ ⟨r, index, word⟩ = .ok t)
    (kind : n.kind = lane.kind) (same : word.toInt = n.val) :
    (∀ v : Value, v.widen? = some index.toInt →
        h.storeSlot r v (.int n) = .ok index.toInt.toNat)
      ∧ Journaled lane h₀ (⟨r, index, word⟩ :: journal)
          (h.putElement r index.toInt.toNat (.int n)) := by
  have placed := Heap.storeWordSlot_of_store integers stored kind same
  have lane_word : (Value.int n).toLane? = some word := by
    rw [(toLane?_of_lane kind).1, ← same, Int64.ofInt_toInt]
  have slot : h.storeSlot r (Heap.wordIndex index) (.int n) = .ok index.toInt.toNat := by
    apply Heap.storeSlot_of_storeWordSlot
    rw [journaled.places, placed]
  refine ⟨?_, journaled.toWrittenThrough.cons placed lane_word,
    journaled.elements.putElement slot, ?_⟩
  · intro v widened
    rw [← slot]
    exact Heap.storeSlot_congr widened (widen_wordIndex index)
  · intro r' held
    exact (journaled.integers r' held).putElement r _ _

end Journaled

end StackMachine
