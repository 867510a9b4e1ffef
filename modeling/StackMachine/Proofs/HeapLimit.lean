import Mathlib
import StackMachine.Proofs.Heap.Bookkeeping
import StackMachine.Proofs.LiveReferences
import StackMachine.Proofs.LoadHistories

/-! # The limit of the heap

An allocation is made only within the limit. A store in an array is charged for the text that it
adds, but the limit is not looked at then. So the bytes in use pass the limit by stored text only:
what arrays take apart from their texts always stays within it.
-/

namespace StackMachine

/-! ## Bytes with and without text -/

namespace HeapObject

/-- The bytes charged for an object whatever its texts are. -/
def fixedBytes (o : HeapObject) : Nat :=
  headerBytes + o.tag.utf8ByteSize + o.fields.size * slotBytes

def textBytes (o : HeapObject) : Nat :=
  o.fields.toList.foldr (fun v bytes => v.payloadBytes + bytes) 0

theorem footprint_eq (o : HeapObject) :
    StackMachine.footprint o.tag o.fields = o.fixedBytes + o.textBytes := rfl

end HeapObject

namespace Heap

def fixedBytes (h : Heap) : Nat := total HeapObject.fixedBytes h.slots

def textBytes (h : Heap) : Nat := total HeapObject.textBytes h.slots

theorem total_add (measure measure' : HeapObject → Nat) (slots : Array (Option HeapObject)) :
    total (fun o => measure o + measure' o) slots = total measure slots + total measure' slots := by
  simp only [total]
  induction slots.toList with
  | nil => rfl
  | cons slot rest ih =>
      rw [List.foldr_cons, List.foldr_cons, List.foldr_cons, ih]
      cases slot with
      | none => simp
      | some o =>
          simp only [Option.elim_some]
          omega

theorem total_congr {measure measure' : HeapObject → Nat} {slots : Array (Option HeapObject)}
    (same : ∀ slot ∈ slots, ∀ o ∈ slot, measure o = measure' o) :
    total measure slots = total measure' slots := by
  have listed : ∀ slot ∈ slots.toList, ∀ o ∈ slot, measure o = measure' o :=
    fun slot member => same slot (Array.mem_toList_iff.mp member)
  simp only [total]
  generalize slots.toList = list at listed ⊢
  induction list with
  | nil => rfl
  | cons slot rest ih =>
      have first := listed slot List.mem_cons_self
      rw [List.foldr_cons, List.foldr_cons, ih fun s m => listed s (List.mem_cons_of_mem _ m)]
      cases slot with
      | none => rfl
      | some o => rw [Option.elim_some, Option.elim_some, first o rfl]

variable {h : Heap}

theorem Represented.usedBytes_eq (represented : h.Represented) :
    h.usedBytes = h.fixedBytes + h.textBytes := by
  rw [represented.used, fixedBytes, textBytes, ← total_add]
  exact total_congr fun slot member o held =>
    (represented.charged slot member o held).trans o.footprint_eq

/-! ## Collections give bytes back -/

theorem fixedBytes_mark (h : Heap) (stack : CallStack) :
    (h.mark stack).fixedBytes = h.fixedBytes := by
  have blind : ∀ (o : HeapObject) (m : Bool),
      HeapObject.fixedBytes { o with marked := m } = o.fixedBytes := fun _ _ => rfl
  exact (total_markFrom blind _ _).trans (total_clearMarks blind _)

theorem fixedBytes_sweep_le (h : Heap) (target : Option Nat) :
    (h.sweep target).1.fixedBytes ≤ h.fixedBytes := by
  have swept : ∀ o : HeapObject,
      (o.swept target).elim 0 HeapObject.fixedBytes ≤ o.fixedBytes := by
    intro o
    cases left : o.swept target with
    | none => exact Nat.zero_le _
    | some o' =>
        have content := (swept_keeps left).1
        have tag : o'.tag = o.tag := congrArg Content.tag content
        have fields : o'.fields = o.fields := congrArg Content.fields content
        rw [Option.elim_some, HeapObject.fixedBytes, HeapObject.fixedBytes, tag, fields]
  simp only [fixedBytes, total, sweep, Array.toList_map, List.foldr_map]
  induction h.slots.toList with
  | nil => exact Nat.le_refl _
  | cons slot rest ih =>
      rw [List.foldr_cons, List.foldr_cons]
      cases slot with
      | none => simpa using ih
      | some o =>
          have one := swept o
          simp only [Option.bind_some, Option.elim_some]
          omega

/-- Making room keeps the limit, and takes nothing more into use. -/
theorem makeRoom_le (h : Heap) (stack : CallStack) (requested : Nat) :
    (h.makeRoom stack requested).1.maxBytes = h.maxBytes
      ∧ (h.makeRoom stack requested).1.usedBytes ≤ h.usedBytes
      ∧ (h.makeRoom stack requested).1.fixedBytes ≤ h.fixedBytes := by
  have collected : ∀ (h : Heap) (target : Option Nat),
      ((h.mark stack).sweep target).1.maxBytes = h.maxBytes
        ∧ ((h.mark stack).sweep target).1.usedBytes ≤ h.usedBytes
        ∧ ((h.mark stack).sweep target).1.fixedBytes ≤ h.fixedBytes := by
    intro h target
    refine ⟨rfl, Nat.sub_le _ _, ?_⟩
    rw [← fixedBytes_mark h stack]
    exact fixedBytes_sweep_le _ _
  obtain ⟨limit, used, fixed⟩ := collected h (some 0)
  simp only [makeRoom]
  split
  · split
    · obtain ⟨limit', used', fixed'⟩ := collected (h.collect 0 stack).1 none
      exact ⟨limit'.trans limit, used'.trans used, fixed'.trans fixed⟩
    · exact ⟨limit, used, fixed⟩
  · exact ⟨rfl, Nat.le_refl _, Nat.le_refl _⟩

/-! ## Allocation is within the limit -/

theorem insert_le (h : Heap) (o : HeapObject) :
    (h.insert o).1.maxBytes = h.maxBytes
      ∧ (h.insert o).1.usedBytes ≤ h.usedBytes + o.footprint
      ∧ (h.insert o).1.fixedBytes ≤ h.fixedBytes + o.fixedBytes := by
  unfold insert
  split
  · rename_i slot _ _
    refine ⟨rfl, Nat.le_refl _, ?_⟩
    simp only [fixedBytes]
    by_cases bound : slot < h.slots.size
    · have added := total_set HeapObject.fixedBytes bound (some o)
      rw [Option.elim_some] at added
      rw [Array.setIfInBounds, dif_pos bound]
      omega
    · rw [Array.setIfInBounds, dif_neg bound]
      omega
  · split
    · refine ⟨rfl, Nat.le_refl _, ?_⟩
      simp only [fixedBytes, total_push, Option.elim_some]
      exact Nat.le_refl _
    · exact ⟨rfl, Nat.le_add_right _ _, Nat.le_add_right _ _⟩

/-- The heap after an attempt to place an object: within the limit if there was room, and else
with no more in use than before. -/
theorem place_le (h : Heap) (stack : CallStack) {requested : Nat} {object : Unit → HeapObject}
    (charged : (object ()).footprint = requested) :
    (h.place stack requested object).heap.maxBytes = h.maxBytes
      ∧ (h.place stack requested object).heap.usedBytes ≤ max h.usedBytes h.maxBytes
      ∧ ∀ r, (h.place stack requested object).result = .ok r →
          (h.place stack requested object).heap.usedBytes ≤ h.maxBytes := by
  obtain ⟨limit, used, _⟩ := makeRoom_le h stack requested
  simp only [place]
  split
  · exact ⟨limit, used.trans (Nat.le_max_left _ _), fun _ placed => by cases placed⟩
  · rename_i room
    obtain ⟨limit', used', _⟩ := insert_le (h.makeRoom stack requested).1 (object ())
    simp only [exceeds, decide_eq_true_eq] at room
    have within : ((h.makeRoom stack requested).1.insert (object ())).1.usedBytes ≤ h.maxBytes := by
      omega
    exact ⟨limit'.trans limit, within.trans (Nat.le_max_right _ _), fun _ _ => within⟩

theorem fixedBytes_place_le (represented : h.Represented) (stack : CallStack) {requested : Nat}
    {object : Unit → HeapObject} (fair : (object ()).fixedBytes ≤ requested) :
    (h.place stack requested object).heap.fixedBytes ≤ max h.fixedBytes h.maxBytes := by
  obtain ⟨limit, _, fixed⟩ := makeRoom_le h stack requested
  have books := (represented.makeRoom stack requested).usedBytes_eq
  simp only [place]
  split
  · dsimp only
    omega
  · rename_i room
    obtain ⟨_, _, fixed'⟩ := insert_le (h.makeRoom stack requested).1 (object ())
    simp only [exceeds, decide_eq_true_eq] at room
    dsimp only
    omega

theorem allocateArray_le (h : Heap) (stack : CallStack) (element : Descriptor) (length : Nat) :
    (h.allocateArray stack element length).heap.maxBytes = h.maxBytes
      ∧ (h.allocateArray stack element length).heap.usedBytes ≤ max h.usedBytes h.maxBytes
      ∧ ∀ r, (h.allocateArray stack element length).result = .ok r →
          (h.allocateArray stack element length).heap.usedBytes ≤ h.maxBytes := by
  simp only [allocateArray]
  split
  · exact ⟨rfl, Nat.le_max_left _ _, fun _ made => by cases made⟩
  · split
    · exact place_le h stack rfl
    · exact ⟨rfl, Nat.le_max_left _ _, fun _ made => by cases made⟩

theorem fixedBytes_allocateArray_le (represented : h.Represented) (stack : CallStack)
    (element : Descriptor) (length : Nat) :
    (h.allocateArray stack element length).heap.fixedBytes ≤ max h.fixedBytes h.maxBytes := by
  simp only [allocateArray]
  split
  · exact Nat.le_max_left _ _
  · split
    · refine fixedBytes_place_le represented stack ?_
      rw [arrayFootprint_eq]
      exact Nat.le_add_right _ _
    · exact Nat.le_max_left _ _

/-! ## Stores are charged for -/

section Storing

variable {r : HeapRef} {index v : Value} {slot : Nat}

theorem usedBytes_putElement (represented : h.Represented)
    (checked : h.storeSlot r index v = .ok slot) :
    (h.putElement r slot v).usedBytes + h.fieldPayload r slot = h.usedBytes + v.payloadBytes := by
  obtain ⟨o, live, bound⟩ := bound_of_storeSlot checked
  obtain ⟨small, within⟩ := represented.solvent.text r o slot live bound
  show h.usedBytes + v.payloadBytes - h.fieldPayload r slot + h.fieldPayload r slot = _
  omega

theorem fixedBytes_putElement (checked : h.storeSlot r index v = .ok slot) :
    (h.putElement r slot v).fixedBytes = h.fixedBytes := by
  obtain ⟨o, live, _⟩ := bound_of_storeSlot checked
  have changed := total_modify HeapObject.fixedBytes live (refill slot v (h.fieldPayload r slot))
  have same : (refill slot v (h.fieldPayload r slot) o).fixedBytes = o.fixedBytes := by
    simp only [HeapObject.fixedBytes, refill, Array.size_setIfInBounds]
  rw [fixedBytes, slots_putElement, fixedBytes]
  omega

end Storing

/-! ## Heaps within their budget -/

/-- The books are right, arrays hold what their types say, and without texts all is within the
limit. -/
structure Budgeted (limit : Nat) (h : Heap) : Prop extends h.Represented where
  typed : h.Typed
  limited : h.maxBytes = limit
  fixed : h.fixedBytes ≤ limit

namespace Budgeted

variable {limit : Nat}

theorem empty (limit : Nat) (gcEnabled : Bool) : (Heap.empty limit gcEnabled).Budgeted limit where
  toRepresented := represented_empty limit gcEnabled
  typed := .empty limit gcEnabled
  limited := rfl
  fixed := Nat.zero_le _

theorem putElement (budgeted : h.Budgeted limit) {r : HeapRef} {index v : Value} {slot : Nat}
    (checked : h.storeSlot r index v = .ok slot) : (h.putElement r slot v).Budgeted limit := by
  obtain ⟨o, live, bound⟩ := bound_of_storeSlot checked
  refine ⟨budgeted.toRepresented.putElement live bound v, budgeted.typed.putElement checked,
    budgeted.limited, ?_⟩
  rw [fixedBytes_putElement checked]
  exact budgeted.fixed

theorem allocateArray (budgeted : h.Budgeted limit) (stack : CallStack) (element : Descriptor)
    (length : Nat) : (h.allocateArray stack element length).heap.Budgeted limit := by
  have limited := budgeted.limited
  have fixed := budgeted.fixed
  have after := fixedBytes_allocateArray_le budgeted.toRepresented stack element length
  exact ⟨budgeted.toRepresented.allocateArray stack element length,
    budgeted.typed.allocateArray stack element length,
    (allocateArray_le h stack element length).1.trans limited, by omega⟩

theorem usedBytes_le (budgeted : h.Budgeted limit) : h.usedBytes ≤ limit + h.textBytes := by
  rw [budgeted.usedBytes_eq]
  exact Nat.add_le_add_right budgeted.fixed _

end Budgeted

/-! ## Native code stores no text -/

theorem storeWordSlot_eq_ok {r : HeapRef} {index word : Int64} {slot : Nat} {v : Value}
    (stored : h.storeWordSlot r index word = .ok (slot, v)) :
    ∃ o d, h.get? r = some o ∧ o.element = some d ∧ Value.ofLane? word d = some v
      ∧ h.storeSlot r (wordIndex index) v = .ok slot := by
  simp only [storeWordSlot, get] at stored
  cases live : h.get? r with
  | none => simp [live] at stored
  | some o =>
      simp only [live] at stored
      split at stored
      · cases stored
      · rename_i d element
        split at stored
        · cases stored
        · rename_i v' stands
          split at stored
          · cases stored
          · rename_i slot' checked
            cases stored
            exact ⟨o, d, rfl, element, stands, checked⟩

/-- Only an array of strings holds text. -/
theorem payload_of_admits {d : Descriptor} {v w : Value} {word : Int64}
    (stands : Value.ofLane? word d = some w) (admits : d.admits v = true) : v.payloadBytes = 0 := by
  cases v with
  | str s =>
      cases d with
      | string | void => cases stands
      | _ => cases admits
  | _ => rfl

theorem usedBytes_storeWord (represented : h.Represented) (typed : h.Typed) {r : HeapRef}
    {index word : Int64} {slot : Nat} {v : Value}
    (stored : h.storeWordSlot r index word = .ok (slot, v)) :
    (h.putElement r slot v).usedBytes = h.usedBytes := by
  obtain ⟨o, d, live, element, stands, checked⟩ := storeWordSlot_eq_ok stored
  obtain ⟨o', live', bound⟩ := bound_of_storeSlot checked
  obtain rfl : o' = o := Option.some.inj (live'.symm.trans live)
  have admits := (typed.elementsFit r o' d live element).2
  have before : h.fieldPayload r slot = 0 := by
    simp only [fieldPayload, live, Array.getD, dif_pos bound]
    exact payload_of_admits stands (admits _ (Array.getElem_mem bound))
  have after : v.payloadBytes = 0 :=
    payload_of_admits stands (Value.admits_of_ofLane? stands)
  have charged := usedBytes_putElement represented checked
  omega

theorem Budgeted.commit {limit : Nat} (budgeted : h.Budgeted limit) (held : List HeldStore) :
    (NativeFunction.commit h held).1.Budgeted limit
      ∧ (NativeFunction.commit h held).1.usedBytes = h.usedBytes := by
  induction held generalizing h with
  | nil => exact ⟨budgeted, rfl⟩
  | cons store rest ih =>
      simp only [NativeFunction.commit]
      split
      · rename_i slot v stored
        obtain ⟨_, _, _, _, _, checked⟩ := storeWordSlot_eq_ok stored
        obtain ⟨after, used⟩ := ih (budgeted.putElement checked)
        exact ⟨after, used.trans
          (usedBytes_storeWord budgeted.toRepresented budgeted.typed stored)⟩
      · exact ⟨budgeted, rfl⟩

end Heap

/-! ## What a step does to the heap -/

/-- The bytes of text by which the next instruction lengthens what the heap holds: some if it is
a store of a text in place of a shorter one. -/
def State.addedText (s : State) : Nat :=
  match s.frames with
  | [] => 0
  | frame :: _ =>
      match frame.fetch? with
      | none => 0
      | some i =>
          if i.opcode = .stelem then
            match storeRequest s.heap frame with
            | .ok (r, slot, v, _) => v.payloadBytes - s.heap.fieldPayload r slot
            | .error _ => 0
          else 0

inductive State.Touches (s : State) : Heap → Prop where
  | same (nothing : s.addedText = 0) : Touches s s.heap
  | allocates (nothing : s.addedText = 0) (stack : CallStack) (element : Descriptor)
      (length : Nat) : Touches s (s.heap.allocateArray stack element length).heap
  | stores {r : HeapRef} {index v : Value} {slot : Nat}
      (checked : s.heap.storeSlot r index v = .ok slot)
      (added : s.addedText = v.payloadBytes - s.heap.fieldPayload r slot) :
      Touches s (s.heap.putElement r slot v)
  /-- Native code has made a call. -/
  | commits (nothing : s.addedText = 0) (held : List HeldStore) :
      Touches s (NativeFunction.commit s.heap held).1

section Steps

variable {env : Environment} {fuel : Nat} {s t : State} {frame : Frame} {callers : CallStack}
  {i : Instruction}

theorem storeRequest_pc (h : Heap) (frame : Frame) (pc : Nat) :
    storeRequest h { frame with pc := pc }
      = (storeRequest h frame).map fun request =>
          (request.1, request.2.1, request.2.2.1, { request.2.2.2 with pc := pc }) := by
  unfold storeRequest Frame.pop3
  rcases frame.operands with _ | ⟨v, _ | ⟨index, _ | ⟨array, rest⟩⟩⟩
  · rfl
  · rfl
  · rfl
  · simp only [bind, Except.bind]
    cases arrayOperand array with
    | error fault => rfl
    | ok r =>
        dsimp only
        cases h.storeSlot r index v <;> rfl

namespace State

theorem addedText_of_other (frames : s.frames = frame :: callers)
    (fetched : frame.fetch? = some i) (other : i.opcode ≠ .stelem) : s.addedText = 0 := by
  simp only [addedText, frames, fetched, if_neg other]

theorem heap_of_tryNative {index : Nat} {f : LinkedFunction} {args : List Value}
    (bundled : env.compiler = some .bundled) (fits : NativesFit env.program s.natives)
    (function : env.program.function index = .ok f)
    (attempted : (∃ value, s.tryNative env fuel index f args = .returned value t)
      ∨ s.tryNative env fuel index f args = .unavailable t) :
    ∃ held, t.heap = (NativeFunction.commit s.heap held).1 := by
  have finds := State.findsNative bundled fits function
  unfold tryNative at attempted
  split at attempted
  · rename_i u found
    rw [found] at finds
    rcases attempted with ⟨value, attempted⟩ | attempted
    · cases attempted
    · cases attempted
      exact ⟨[], (State.bare_eq_iff.mp finds.bare).1⟩
  · rename_i u code found
    rw [found] at finds
    have heap : u.heap = s.heap := (State.bare_eq_iff.mp finds.bare).1
    obtain ⟨native, _, rfl⟩ := finds.code code rfl
    rw [← heap]
    unfold invokeNative at attempted
    split at attempted
    · rcases attempted with ⟨value, attempted⟩ | attempted
      · cases attempted
      · cases attempted
        exact ⟨[], rfl⟩
    · rename_i words _
      have invoked : ∀ h result, native.toCode.invoke fuel words u.heap = some (h, result) →
          ∃ held, h = (NativeFunction.commit u.heap held).1 := by
        intro h result invoked
        simp only [NativeFunction.toCode, NativeFunction.invoke] at invoked
        split at invoked
        · cases invoked
        · cases invoked
          exact ⟨[], rfl⟩
        · rename_i v journal _
          refine ⟨journal.reverse, ?_⟩
          split at invoked <;> rename_i committed <;> cases invoked <;> rw [committed]
      split at attempted
      · rcases attempted with ⟨value, attempted⟩ | attempted <;> cases attempted
      · rename_i h raw invokes
        obtain ⟨held, rfl⟩ := invoked h _ invokes
        refine ⟨held, ?_⟩
        dsimp only at attempted
        split at attempted
        · rcases attempted with ⟨value, attempted⟩ | attempted <;> cases attempted
          rfl
        · split at attempted <;> rcases attempted with ⟨value, attempted⟩ | attempted <;>
            cases attempted <;> rfl
      · rename_i h e invokes
        obtain ⟨held, rfl⟩ := invoked h _ invokes
        rcases attempted with ⟨value, attempted⟩ | attempted <;> cases attempted
        exact ⟨held, rfl⟩

theorem heap_of_call {index : Nat} (serves : env.Serves s.natives)
    (left : (s.call env fuel frame callers index).state? = some t) :
    ∃ held, t.heap = (NativeFunction.commit s.heap held).1 := by
  rcases serves with none | ⟨bundled, fits⟩
  · rw [← Environment.interpreted_eq none] at left
    exact ⟨[], heap_of_call_interpreted left⟩
  · unfold call at left
    split at left
    · cases left
      exact ⟨[], rfl⟩
    · rename_i f function
      split at left
      · cases left
        exact ⟨[], rfl⟩
      · dsimp only at left
        split at left
        · cases left
          exact ⟨[], rfl⟩
        · split at left
          · cases left
          · rename_i u returned
            cases left
            exact heap_of_tryNative (t := u) bundled fits function (.inl ⟨_, returned⟩)
          · rename_i u returned
            cases left
            exact heap_of_tryNative (t := u) bundled fits function (.inl ⟨_, returned⟩)
          · rename_i u unavailable
            cases left
            exact heap_of_tryNative (t := u) bundled fits function (.inr unavailable)

theorem heap_of_newArray {p : Program} {index : Nat}
    (left : (s.newArray p frame callers index).state? = some t) :
    t.heap = s.heap
      ∨ ∃ stack element length, t.heap = (s.heap.allocateArray stack element length).heap := by
  unfold newArray at left
  split at left
  · cases left
    exact .inl rfl
  · rename_i element length popped _
    refine .inr ⟨popped :: callers, element, length, ?_⟩
    simp only [allocate] at left
    split at left <;> rename_i allocated <;> cases left <;>
      exact (congrArg (·.1.heap) allocated).symm

theorem allocated_of_newArray {p : Program} {index : Nat}
    (next : s.newArray p frame callers index = .next t) :
    ∃ stack element length r, t.heap = (s.heap.allocateArray stack element length).heap
      ∧ (s.heap.allocateArray stack element length).result = .ok r := by
  unfold newArray at next
  split at next
  · cases next
  · rename_i element length popped _
    simp only [allocate] at next
    split at next
    · cases next
    · rename_i r allocated
      cases next
      exact ⟨popped :: callers, element, length, r, (congrArg (·.1.heap) allocated).symm,
        congrArg (·.2) allocated⟩

/-- Only allocations, stores and calls reach the heap. -/
theorem heap_of_execute (array : i.opcode ≠ .newarr) (store : i.opcode ≠ .stelem)
    (call : i.opcode ≠ .call) (left : (s.execute env fuel frame callers i).state? = some t) :
    t.heap = s.heap := by
  unfold execute at left
  split at left
  case h_1 opcode => exact absurd opcode array
  case h_2 opcode => exact absurd opcode store
  case h_4 opcode => exact absurd opcode call
  case h_5 => exact heap_of_ret left
  case h_6 => exact heap_of_print left
  case h_7 => exact heap_of_halt left
  all_goals exact heap_of_continueWith left

theorem touches_of_store (frames : s.frames = frame :: callers) (fetched : frame.fetch? = some i)
    (opcode : i.opcode = .stelem) {u : State} (heap : u.heap = s.heap)
    (left : (u.storeElement { frame with pc := frame.pc + 1 } callers).state? = some t) :
    s.Touches t.heap := by
  unfold storeElement at left
  rw [heap, storeRequest_pc] at left
  cases request : storeRequest s.heap frame with
  | error fault =>
      rw [request] at left
      cases left
      show s.Touches u.heap
      rw [heap]
      exact .same (by simp only [addedText, frames, fetched, opcode, request, if_true])
  | ok stored =>
      obtain ⟨r, slot, v, after⟩ := stored
      rw [request] at left
      cases left
      obtain ⟨index, _, _, checked, _⟩ := storeRequest_eq_ok request
      exact .stores checked (by simp only [addedText, frames, fetched, opcode, request, if_true])

/-- What a step does to the heap, whatever it comes to. -/
theorem touches_of_step (serves : env.Serves s.natives)
    (left : (s.step env fuel).state? = some t) : s.Touches t.heap := by
  cases frames : s.frames with
  | nil =>
      simp only [step, frames] at left
      cases left
      exact .same (by simp only [addedText, frames])
  | cons frame callers =>
      cases fetched : frame.fetch? with
      | none =>
          simp only [step, frames, fetched] at left
          cases left
          exact .same (by simp only [addedText, frames, fetched])
      | some i =>
          rw [step_of_fetch frames fetched] at left
          by_cases store : i.opcode = .stelem
          · rw [execute, store] at left
            exact touches_of_store (u := s.note _ _) frames fetched store rfl left
          have nothing := addedText_of_other frames fetched store
          have unchanged : t.heap = s.heap → s.Touches t.heap := by
            intro same
            rw [same]
            exact .same nothing
          by_cases array : i.opcode = .newarr
          · rw [execute, array] at left
            rcases heap_of_newArray left with same | ⟨stack, element, length, heap⟩
            · exact unchanged same
            · rw [heap]
              exact .allocates nothing stack element length
          by_cases call : i.opcode = .call
          · rw [execute, call] at left
            obtain ⟨held, heap⟩ := heap_of_call (s := s.note _ _) serves left
            rw [heap]
            exact .commits nothing held
          exact unchanged (heap_of_execute (s := s.note _ _) array store call left)

namespace Touches

variable {limit : Nat} {h : Heap}

theorem budgeted (touches : s.Touches h) (budgeted : s.heap.Budgeted limit) : h.Budgeted limit := by
  cases touches with
  | same => exact budgeted
  | allocates _ stack element length => exact budgeted.allocateArray stack element length
  | stores checked _ => exact budgeted.putElement checked
  | commits _ held => exact (budgeted.commit held).1

/-- A step that adds no text takes nothing beyond the limit into use. -/
theorem usedBytes_le (touches : s.Touches h) (budgeted : s.heap.Budgeted limit)
    (nothing : s.addedText = 0) : h.usedBytes ≤ max s.heap.usedBytes limit := by
  cases touches with
  | same => exact Nat.le_max_left _ _
  | allocates _ stack element length =>
      rw [← budgeted.limited]
      exact (s.heap.allocateArray_le stack element length).2.1
  | stores checked added =>
      have charged := Heap.usedBytes_putElement budgeted.toRepresented checked
      omega
  | commits _ held =>
      rw [(budgeted.commit held).2]
      exact Nat.le_max_left _ _

/-- A step that adds text takes just that into use, and does not look at the limit. -/
theorem usedBytes_eq (touches : s.Touches h) (represented : s.heap.Represented)
    (some : s.addedText ≠ 0) : h.usedBytes = s.heap.usedBytes + s.addedText := by
  cases touches with
  | same nothing => exact absurd nothing some
  | allocates nothing => exact absurd nothing some
  | stores checked added =>
      have charged := Heap.usedBytes_putElement represented checked
      omega
  | commits nothing => exact absurd nothing some

end Touches

/-- An allocation that succeeds ends within the limit, whatever texts there are. -/
theorem usedBytes_of_newArray {limit : Nat} (limited : s.heap.maxBytes = limit)
    (allocates : s.Fetches .newarr) (next : s.step env fuel = .next t) :
    t.heap.usedBytes ≤ limit := by
  obtain ⟨frame, callers, i, frames, fetched, opcode⟩ := allocates
  rw [step_of_fetch frames fetched] at next
  simp only [execute, opcode] at next
  obtain ⟨stack, element, length, r, heap, made⟩ := allocated_of_newArray next
  rw [heap, ← limited]
  exact (s.heap.allocateArray_le stack element length).2.2 r made

end State

/-- Along every run the heap stays within its budget. -/
theorem Steps.budgeted {limit n : Nat} (chain : Steps env n s t) (serves : env.Serves s.natives)
    (budgeted : s.heap.Budgeted limit) : t.heap.Budgeted limit ∧ env.Serves t.natives := by
  have kept : ∀ (u v : State) (fuel : Nat), u.heap.Budgeted limit ∧ env.Serves u.natives →
      u.step env fuel = .next v → v.heap.Budgeted limit ∧ env.Serves v.natives := by
    rintro u v fuel ⟨before, serving⟩ step
    have touches : u.Touches v.heap := State.touches_of_step serving (by rw [step]; rfl)
    exact ⟨touches.budgeted before, serving.next before.typed step⟩
  exact chain.invariant kept ⟨budgeted, serves⟩

/-- Without added text the bytes in use stay within the limit. -/
theorem StepsIn.usedBytes_le {limit n : Nat} (chain : StepsIn env (·.addedText = 0) n s t)
    (serves : env.Serves s.natives) (budgeted : s.heap.Budgeted limit)
    (within : s.heap.usedBytes ≤ limit) : t.heap.usedBytes ≤ limit := by
  induction chain with
  | refl s => exact within
  | head nothing first _ ih =>
      have touches := State.touches_of_step serves (congrArg StepResult.state? first)
      refine ih (serves.next budgeted.typed first) (touches.budgeted budgeted) ?_
      exact (touches.usedBytes_le budgeted nothing).trans (Nat.max_le.mpr ⟨within, Nat.le_refl _⟩)

end Steps

/-- The bytes in use are within the limit, apart from texts that stores have lengthened: in every
state that a run from an empty heap comes to without such a store, and again after every
allocation. A step that adds no text takes nothing beyond the limit into use, one that does adds
just its text, and without the texts in arrays the bytes are always within the limit. -/
theorem limit_is_passed_by_stored_text_only (env : Environment) (natives : NativeTable)
    (console : Console) (log : Log) (entry : LinkedFunction) (serves : env.Serves natives) :
    let limit := env.config.maxHeapBytes
    let start := (State.fresh limit env.config.gcEnabled natives console log).entering entry
    (∀ n s, StepsIn env (·.addedText = 0) n start s → s.heap.usedBytes ≤ limit) ∧
    ∀ n s, Steps env n start s →
      s.heap.usedBytes ≤ limit + s.heap.textBytes ∧
      (∀ fuel t, (s.step env fuel).state? = some t →
        (s.addedText = 0 → t.heap.usedBytes ≤ max s.heap.usedBytes limit) ∧
        (s.addedText ≠ 0 → t.heap.usedBytes = s.heap.usedBytes + s.addedText)) ∧
      ∀ fuel t, s.Fetches .newarr → s.step env fuel = .next t → t.heap.usedBytes ≤ limit := by
  intro limit start
  have empty : start.heap.Budgeted limit := .empty limit env.config.gcEnabled
  refine ⟨?_, ?_⟩
  · intro n s chain
    exact chain.usedBytes_le serves empty (Nat.zero_le _)
  · intro n s chain
    obtain ⟨budgeted, serving⟩ := chain.budgeted serves empty
    refine ⟨budgeted.usedBytes_le, ?_, ?_⟩
    · intro fuel t left
      have touches := State.touches_of_step serving left
      exact ⟨touches.usedBytes_le budgeted, touches.usedBytes_eq budgeted.toRepresented⟩
    · intro fuel t allocates next
      exact State.usedBytes_of_newArray budgeted.limited allocates next

namespace Overfull

def storing : ProgramFile :=
  ⟨⟨0, 1, 0⟩,
    [.ofString "Main", .ofString "", .ofString "void;", ⟨.int .i32, [0, 0, 0, 1]⟩,
      .ofString "String;", ⟨.int .i32, [0, 0, 0, 0]⟩, .ofString "x"],
    [⟨0, 1, 2, 0, 0, #[⟨.ldc, some 3⟩, ⟨.newarr, some 4⟩, ⟨.ldc, some 5⟩, ⟨.ldc, some 6⟩,
      ⟨.stelem, none⟩, ⟨.ret, none⟩]⟩], []⟩

def config : Config := { maxHeapBytes := 128, gcEnabled := false }

def machine : Machine :=
  ((Machine.new config .working (.empty none)).loadProgram storing.encode "full.ball").1

def main : LinkedFunction :=
  ⟨"Main", ⟨0, 1, 2, 0, 0, #[⟨.ldc, some 3⟩, ⟨.newarr, some 4⟩, ⟨.ldc, some 5⟩, ⟨.ldc, some 6⟩,
    ⟨.stelem, none⟩, ⟨.ret, none⟩]⟩, [], .void⟩

def environment : Environment :=
  ⟨config, some .bundled,
    ⟨storing.constants.toArray, #[main], #[], ⟨[("Main", 0)]⟩, .empty⟩⟩

def state (heap : Heap) (pc : Nat) (operands : List Value) : State :=
  ⟨heap, [⟨main, pc, #[], operands⟩], #[], .working, .empty none⟩

def heap (content : String) : Heap :=
  ⟨#[none, some ⟨"[String;", some .string, #[.str content], false, 0,
    128 + content.utf8ByteSize⟩], [], 1, 128 + content.utf8ByteSize, 128, false, 0⟩

def full : State := state (heap "") 4 [.str "x", .ofInt .i32 0, .ref ⟨1⟩]

theorem is_full_before_the_store :
    environment.Serves #[]
      ∧ StepsIn environment (·.addedText = 0) 4
        ((State.fresh 128 false #[] .working (.empty none)).entering main) full
      ∧ full.heap.usedBytes ≤ 128 ∧ full.addedText = 1
      ∧ ∃ t, (full.step environment 0).state? = some t
        ∧ t.heap.usedBytes = full.heap.usedBytes + full.addedText := by
  have serves : environment.Serves #[] := .inr ⟨rfl, .empty _⟩
  have length : ((State.fresh 128 false #[] .working (.empty none)).entering main).step
      environment 0 = .next (state (.empty 128 false) 1 [.ofInt .i32 1]) := rfl
  have array : (state (.empty 128 false) 1 [.ofInt .i32 1]).step environment 0
      = .next (state (heap "") 2 [.ref ⟨1⟩]) := by cbv
  have index : (state (heap "") 2 [.ref ⟨1⟩]).step environment 0
      = .next (state (heap "") 3 [.ofInt .i32 0, .ref ⟨1⟩]) := rfl
  have value : (state (heap "") 3 [.ofInt .i32 0, .ref ⟨1⟩]).step environment 0
      = .next full := by cbv
  have chain : StepsIn environment (·.addedText = 0) 4
      ((State.fresh 128 false #[] .working (.empty none)).entering main) full :=
    .head rfl length (.head rfl array (.head rfl index (.head rfl value (.refl full))))
  have added : full.addedText = 1 := rfl
  have left : (full.step environment 0).state? = some (state (heap "x") 5 []) := rfl
  obtain ⟨within, later⟩ := limit_is_passed_by_stored_text_only environment #[] .working
    (.empty none) main serves
  have law := (later 4 full chain.steps).2.1 0 _ left
  exact ⟨serves, chain, within 4 full chain, added, _, left, law.2 (by rw [added]; decide)⟩

theorem accepted_and_passes_the_limit :
    ((Machine.new config .working (.empty none)).loadProgram storing.encode "full.ball").2 = .ok ()
      ∧ (machine.run 7).map (fun ran => (ran.1.state.heap.usedBytes, ran.2))
        = some (129, .ok .returned) := by
  have all : (((Machine.new config .working (.empty none)).loadProgram storing.encode
        "full.ball").2,
      (machine.run 7).map (fun ran => (ran.1.state.heap.usedBytes, ran.2)))
        = (.ok (), some (129, .ok .returned)) := by cbv
  simpa only [Prod.mk.injEq] using all

end Overfull

end StackMachine
