import StackMachine.Proofs.Runs

/-! # Every array holds what its type says

Objects are arrays of a known element type, and all of their elements have the tag that the type
asks for. A collection may take objects away but does not change the contents of any.
-/

namespace StackMachine

/-! ## What the operations do to objects -/

/-- What an object holds, apart from marks, age and bytes. -/
structure Content where
  tag : String
  element : Option Descriptor
  fields : Array Value

def HeapObject.content (o : HeapObject) : Content := ⟨o.tag, o.element, o.fields⟩

theorem HeapRef.eq_of_index {r r' : HeapRef} (same : r.index = r'.index) : r = r' := by
  obtain ⟨id⟩ := r
  obtain ⟨id'⟩ := r'
  exact congrArg HeapRef.mk (UInt32.toNat_inj.mp same)

namespace Heap

theorem get?_modify (h : Heap) (r r' : HeapRef) (f : HeapObject → HeapObject) :
    (h.modify r f).get? r' = if r' = r then (h.get? r').map f else h.get? r' := by
  simp only [get?, modify, Array.getElem?_modify]
  by_cases same : r' = r
  · subst same
    cases h.slots[r'.index]? with
    | none => simp
    | some slot => simp
  · have other : r.index ≠ r'.index := fun index => same (HeapRef.eq_of_index index.symm)
    simp [same, other]

theorem get?_putElement (h : Heap) (r r' : HeapRef) (slot : Nat) (v : Value) :
    (h.putElement r slot v).get? r' =
      if r' = r then
        (h.get? r').map fun o =>
          { o with
            fields := o.fields.setIfInBounds slot v
            footprint := o.footprint + v.payloadBytes - h.fieldPayload r slot }
      else h.get? r' :=
  get?_modify h r r' _

/-! ## Collection -/

/-- What does not look at marks is not changed by clearing them. -/
theorem map_clearMarks {α : Type} {g : HeapObject → α}
    (blind : ∀ o m, g { o with marked := m } = g o) (slots : Array (Option HeapObject)) (i : Nat) :
    (clearMarks slots)[i]?.join.map g = slots[i]?.join.map g := by
  rw [clearMarks, Array.getElem?_map]
  rcases slots[i]? with _ | _ | o
  · rfl
  · rfl
  · exact congrArg some (blind o false)

theorem map_markFrom {α : Type} {g : HeapObject → α}
    (blind : ∀ o m, g { o with marked := m } = g o) (slots : Array (Option HeapObject))
    (pending : List HeapRef) (i : Nat) :
    (markFrom slots pending)[i]?.join.map g = slots[i]?.join.map g := by
  fun_induction markFrom slots pending with
  | case1 => rfl
  | case2 _ _ _ _ _ _ _ ih => exact ih
  | case3 slots r rest bound o here unseen ih =>
      rw [ih]
      by_cases same : r.index = i
      · subst same
        simp [Array.getElem?_eq_getElem bound, here, blind]
      · rw [Array.getElem?_set_ne bound same]
  | case4 _ _ _ _ _ ih => exact ih
  | case5 _ _ _ _ ih => exact ih

theorem map_mark {α : Type} {g : HeapObject → α} (blind : ∀ o m, g { o with marked := m } = g o)
    (h : Heap) (stack : CallStack) (r : HeapRef) :
    ((h.mark stack).get? r).map g = (h.get? r).map g := by
  simp only [get?, mark, map_markFrom blind, map_clearMarks blind]

theorem content_mark (h : Heap) (stack : CallStack) (r : HeapRef) :
    ((h.mark stack).get? r).map HeapObject.content = (h.get? r).map HeapObject.content :=
  map_mark (fun _ _ => rfl) h stack r

theorem get?_sweep (h : Heap) (target : Option Nat) (r : HeapRef) :
    (h.sweep target).1.get? r = (h.get? r).bind (·.swept target) := by
  simp only [get?, sweep, Array.getElem?_map]
  rcases h.slots[r.index]? with _ | _ | o <;> rfl

theorem content_of_swept {target : Option Nat} {o o' : HeapObject}
    (survives : o.swept target = some o') : o'.content = o.content := by
  unfold HeapObject.swept at survives
  split at survives
  · cases survives
  · split at survives <;> cases survives <;> rfl

/-- What is left after a collection has the content that it had. -/
theorem content_of_collection {h : Heap} {stack : CallStack} {target : Option Nat} {r : HeapRef}
    {o' : HeapObject} (left : ((h.mark stack).sweep target).1.get? r = some o') :
    ∃ o, h.get? r = some o ∧ o'.content = o.content := by
  rw [get?_sweep, Option.bind_eq_some_iff] at left
  obtain ⟨marked, at_r, survives⟩ := left
  have same := content_mark h stack r
  rw [at_r, Option.map_some] at same
  obtain ⟨o, before, content⟩ := Option.map_eq_some_iff.mp same.symm
  exact ⟨o, before, (content_of_swept survives).trans content.symm⟩

theorem content_of_makeRoom {h : Heap} {stack : CallStack} {requested : Nat} {r : HeapRef}
    {o' : HeapObject} (left : (h.makeRoom stack requested).1.get? r = some o') :
    ∃ o, h.get? r = some o ∧ o'.content = o.content := by
  simp only [makeRoom] at left
  split at left
  · split at left
    · obtain ⟨young, at_young, same⟩ := content_of_collection left
      obtain ⟨o, before, same'⟩ := content_of_collection at_young
      exact ⟨o, before, same.trans same'⟩
    · exact content_of_collection left
  · exact ⟨o', left, rfl⟩

/-! ## Allocation -/

theorem get?_of_insert {h : Heap} {o o' : HeapObject} {r : HeapRef}
    (there : (h.insert o).1.get? r = some o') : o' = o ∨ h.get? r = some o' := by
  simp only [insert] at there
  split at there
  · simp only [get?, Array.getElem?_setIfInBounds] at there
    split at there
    · split at there
      · exact .inl (by simpa using there.symm)
      · cases there
    · exact .inr there
  · split at there
    · simp only [get?, Array.getElem?_push] at there
      split at there
      · exact .inl (by simpa using there.symm)
      · exact .inr there
    · exact .inr there

/-- After an allocation there is what was there before, and possibly the new object. -/
theorem content_of_place {h : Heap} {stack : CallStack} {requested : Nat}
    {object : Unit → HeapObject} {r : HeapRef} {o' : HeapObject}
    (there : (h.place stack requested object).heap.get? r = some o') :
    o' = object () ∨ ∃ o, h.get? r = some o ∧ o'.content = o.content := by
  simp only [place] at there
  split at there
  · exact .inr (content_of_makeRoom there)
  · rcases get?_of_insert there with new | old
    · exact .inl new
    · exact .inr (content_of_makeRoom old)

end Heap

/-! ## Typed objects -/

/-- An array whose tag spells its element type, and each of whose elements has the tag that the
type asks for. -/
def HeapObject.Typed (o : HeapObject) : Prop :=
  ∃ d, o.element = some d ∧ o.tag = (Descriptor.array d).text ∧ ∀ v ∈ o.fields, d.admits v = true

theorem HeapObject.isArray_of_tag {o : HeapObject} {d : Descriptor}
    (tag : o.tag = (Descriptor.array d).text) : o.isArray = true := by
  simp [HeapObject.isArray, HeapObject.isArrayTag, tag, Descriptor.text]

theorem HeapObject.Typed.of_content {o o' : HeapObject} (typed : o.Typed)
    (same : o'.content = o.content) : o'.Typed := by
  obtain ⟨tag, element, fields, _, _, _⟩ := o
  obtain ⟨tag', element', fields', _, _, _⟩ := o'
  cases same
  exact typed

def Heap.Typed (h : Heap) : Prop := ∀ (r : HeapRef) (o : HeapObject), h.get? r = some o → o.Typed

def Heap.ElementsFit (h : Heap) : Prop :=
  ∀ (r : HeapRef) (o : HeapObject) (d : Descriptor), h.get? r = some o → o.element = some d →
    o.isArray = true ∧ ∀ v ∈ o.fields, d.admits v = true

theorem Heap.Typed.elementsFit {h : Heap} (typed : h.Typed) : h.ElementsFit := by
  intro r o d live element
  obtain ⟨d', element', tag, admits⟩ := typed r o live
  rw [element] at element'
  cases element'
  exact ⟨HeapObject.isArray_of_tag tag, admits⟩

theorem Descriptor.admits_default {d : Descriptor} {v : Value} (default : d.default? = some v) :
    d.admits v = true := by
  cases d <;> cases default <;> simp [Descriptor.admits, Value.ofInt]

theorem HeapObject.typed_fresh {element : Descriptor} {v : Value} (length bytes : Nat)
    (default : element.default? = some v) :
    HeapObject.Typed ⟨(Descriptor.array element).text, some element, Array.replicate length v,
      false, 0, bytes⟩ := by
  refine ⟨element, rfl, rfl, ?_⟩
  intro w mem
  obtain ⟨_, rfl⟩ := Array.mem_replicate.mp mem
  exact Descriptor.admits_default default

/-- A store is possible only if the array may hold the value. -/
theorem Heap.fits_of_storeSlot {h : Heap} {r : HeapRef} {index v : Value} {slot : Nat}
    {o : HeapObject} (stored : h.storeSlot r index v = .ok slot) (live : h.get? r = some o) :
    Heap.fits o.element v = true := by
  simp only [Heap.storeSlot, Heap.array, Heap.get, live] at stored
  split at stored
  · cases stored
  · rename_i found
    split at found
    · cases found
      split at stored
      · cases stored
      · split at stored
        · assumption
        · cases stored
    · cases found

theorem Heap.ElementsFit.putElement {h : Heap} (fit : h.ElementsFit) {r : HeapRef}
    {index v : Value} {slot : Nat} (stored : h.storeSlot r index v = .ok slot) :
    (h.putElement r slot v).ElementsFit := by
  intro r' o' d there element
  rw [Heap.get?_putElement] at there
  split at there
  · rename_i same
    subst same
    obtain ⟨o, before, rfl⟩ := Option.map_eq_some_iff.mp there
    obtain ⟨isArray, admits⟩ := fit r' o d before element
    have fits : d.admits v = true := by
      have known : o.element = some d := element
      simpa [Heap.fits, known] using Heap.fits_of_storeSlot stored before
    refine ⟨isArray, ?_⟩
    intro w mem
    rcases Array.mem_or_eq_of_mem_setIfInBounds mem with old | new
    · exact admits w old
    · exact new ▸ fits
  · exact fit r' o' d there element

namespace Heap.Typed

theorem empty (maxBytes : Nat) (gcEnabled : Bool) : (Heap.empty maxBytes gcEnabled).Typed := by
  intro r o there
  simp only [Heap.get?, Heap.empty] at there
  cases index : r.index with
  | zero => simp [index] at there
  | succ i => simp [index] at there

theorem putElement {h : Heap} (typed : h.Typed) {r : HeapRef} {index v : Value} {slot : Nat}
    (stored : h.storeSlot r index v = .ok slot) : (h.putElement r slot v).Typed := by
  intro r' o' there
  have fit := typed.elementsFit.putElement stored
  have before : ∃ o, h.get? r' = some o ∧ o'.element = o.element ∧ o'.tag = o.tag := by
    rw [Heap.get?_putElement] at there
    split at there
    · obtain ⟨o, before, rfl⟩ := Option.map_eq_some_iff.mp there
      exact ⟨o, before, rfl, rfl⟩
    · exact ⟨o', there, rfl, rfl⟩
  obtain ⟨o, live, element, tag⟩ := before
  obtain ⟨d, element', tag', _⟩ := typed r' o live
  have known : o'.element = some d := element.trans element'
  exact ⟨d, known, tag.trans tag', (fit r' o' d there known).2⟩

theorem allocateArray {h : Heap} (typed : h.Typed) (stack : CallStack) (element : Descriptor)
    (length : Nat) : (h.allocateArray stack element length).heap.Typed := by
  simp only [Heap.allocateArray]
  split
  · exact typed
  · rename_i v default
    split
    · intro r o there
      rcases Heap.content_of_place there with rfl | ⟨o', before, same⟩
      · exact HeapObject.typed_fresh _ _ default
      · exact (typed r o' before).of_content same
    · exact typed

end Heap.Typed

/-! ## Steps -/

inductive Heap.Changes (h : Heap) : Heap → Prop where
  | same : Changes h h
  | stored {r : HeapRef} {index v : Value} {slot : Nat}
      (checked : h.storeSlot r index v = .ok slot) : Changes h (h.putElement r slot v)
  | allocated (stack : CallStack) (element : Descriptor) (length : Nat) :
      Changes h (h.allocateArray stack element length).heap

theorem Heap.Changes.typed {h h' : Heap} (changes : h.Changes h') (typed : h.Typed) :
    h'.Typed := by
  cases changes with
  | same => exact typed
  | stored checked => exact typed.putElement checked
  | allocated stack element length => exact typed.allocateArray stack element length

/-- A store that is possible takes three operands, of which the lowest is the array. -/
theorem storeRequest_eq_ok {h : Heap} {frame after : Frame} {r : HeapRef} {slot : Nat} {v : Value}
    (request : storeRequest h frame = .ok (r, slot, v, after)) :
    ∃ index rest, frame.operands = v :: index :: .ref r :: rest
      ∧ h.storeSlot r index v = .ok slot ∧ after = { frame with operands := rest } := by
  unfold storeRequest Frame.pop3 at request
  split at request
  · rename_i v' index array rest operands
    simp only [bind, Except.bind, arrayOperand] at request
    cases array with
    | ref r' =>
        simp only [Value.ref?] at request
        split at request
        · cases request
        · rename_i slot' stored
          cases request
          exact ⟨index, rest, operands, stored, rfl⟩
    | _ => cases request
  · cases request

def StepResult.state? : StepResult → Option State
  | .next s => some s
  | .halted _ s => some s
  | .failed _ s => some s
  | .outOfFuel => none

namespace State

variable {env : Environment} {fuel : Nat} {s t : State} {frame : Frame} {callers : CallStack}

theorem heap_of_continueWith {result : Except Fault Frame}
    (left : (s.continueWith frame callers result).state? = some t) : t.heap = s.heap := by
  cases result with
  | error fault =>
      cases left
      rfl
  | ok after =>
      cases left
      rfl

theorem changes_of_newArray {p : Program} {index : Nat}
    (left : (s.newArray p frame callers index).state? = some t) : s.heap.Changes t.heap := by
  unfold newArray at left
  split at left
  · cases left
    exact .same
  · rename_i element length popped _
    simp only [allocate] at left
    split at left
    all_goals
      rename_i allocated
      cases left
      have heap_eq := congrArg (·.1.heap) allocated
      dsimp only at heap_eq
      rw [withFrame, ← heap_eq]
      exact .allocated _ _ _

theorem changes_of_storeElement (left : (s.storeElement frame callers).state? = some t) :
    s.heap.Changes t.heap := by
  unfold storeElement at left
  split at left
  · cases left
    exact .same
  · rename_i r slot v popped request
    cases left
    obtain ⟨index, _, _, checked, _⟩ := storeRequest_eq_ok request
    exact .stored checked

theorem heap_of_call_interpreted {index : Nat}
    (left : (s.call env.interpreted fuel frame callers index).state? = some t) :
    t.heap = s.heap := by
  unfold call at left
  split at left
  · cases left
    rfl
  · split at left
    · cases left
      rfl
    · dsimp only at left
      split at left
      · cases left
        rfl
      · rw [tryNative_interpreted] at left
        cases left
        rfl

theorem heap_of_ret (left : (s.ret frame callers).state? = some t) : t.heap = s.heap := by
  unfold ret at left
  split at left <;> cases left <;> rfl

theorem heap_of_print (left : (s.print frame callers).state? = some t) : t.heap = s.heap := by
  unfold print at left
  split at left
  · cases left
    rfl
  · split at left <;> cases left <;> rfl

theorem heap_of_halt {p : Program} {index : Nat}
    (left : (s.halt p frame callers index).state? = some t) : t.heap = s.heap := by
  unfold halt at left
  split at left <;> cases left <;> rfl

theorem changes_of_execute_interpreted {i : Instruction}
    (left : (s.execute env.interpreted fuel frame callers i).state? = some t) :
    s.heap.Changes t.heap := by
  have unchanged : t.heap = s.heap → s.heap.Changes t.heap := by
    intro same
    rw [same]
    exact .same
  unfold execute at left
  split at left
  · exact changes_of_newArray left
  · exact changes_of_storeElement left
  · exact unchanged (heap_of_continueWith left)
  · exact unchanged (heap_of_call_interpreted left)
  · exact unchanged (heap_of_ret left)
  · exact unchanged (heap_of_print left)
  · exact unchanged (heap_of_halt left)
  · exact unchanged (heap_of_continueWith left)

theorem changes_of_step_interpreted (left : (s.step env.interpreted fuel).state? = some t) :
    s.heap.Changes t.heap := by
  unfold step at left
  split at left
  · cases left
    exact .same
  · split at left
    · cases left
      exact .same
    · exact changes_of_execute_interpreted (s := s.note _ _) left

theorem typed_of_step_interpreted (typed : s.heap.Typed)
    (left : (s.step env.interpreted fuel).state? = some t) : t.heap.Typed :=
  (changes_of_step_interpreted left).typed typed

end State

end StackMachine
