import StackMachine.Proofs.TypedHeap

/-! # Sequences of heap operations

What is so of every heap that the operations can make, starting from an empty one: an element
type is known of arrays only.
-/

namespace StackMachine

namespace Heap

inductive Operation where
  | allocate (stack : CallStack) (tag : String) (fields : Array Value)
  | allocateArray (stack : CallStack) (element : Descriptor) (length : Nat)
  | storeElement (array : HeapRef) (index value : Value)
  | setField (object : HeapRef) (field : Nat) (value : Value)
  | collect (generation : Nat) (stack : CallStack)
  | collectFull (stack : CallStack)

def perform (h : Heap) : Operation → Heap
  | .allocate stack tag fields => (h.allocate stack tag fields).heap
  | .allocateArray stack element length => (h.allocateArray stack element length).heap
  | .storeElement array index value => (h.storeElement array index value).1
  | .setField object field value => (h.setField object field value).1
  | .collect generation stack => (h.collect generation stack).1
  | .collectFull stack => (h.collectFull stack).1

def performAll (h : Heap) (operations : List Operation) : Heap := operations.foldl perform h

/-- The heap is what operations make of an empty one. -/
def Built (h : Heap) : Prop :=
  ∃ (maxBytes : Nat) (gcEnabled : Bool) (operations : List Operation),
    h = (empty maxBytes gcEnabled).performAll operations

/-- What an operation leaves, it made, or it was there with the same tag and element type. -/
theorem shape_of_perform {h : Heap} {op : Operation} {r : HeapRef} {o' : HeapObject}
    (there : (h.perform op).get? r = some o') :
    (o'.element.isSome → o'.isArray = true)
      ∨ ∃ o, h.get? r = some o ∧ o'.tag = o.tag ∧ o'.element = o.element := by
  have kept : ∀ o, h.get? r = some o ∧ o'.content = o.content →
      ∃ o, h.get? r = some o ∧ o'.tag = o.tag ∧ o'.element = o.element :=
    fun o ⟨live, same⟩ => ⟨o, live, congrArg Content.tag same, congrArg Content.element same⟩
  cases op with
  | allocate stack tag fields =>
      rcases content_of_place there with rfl | ⟨o, old⟩
      · left
        intro known
        simp only [elementOfTag] at known
        split at known
        · assumption
        · cases known
      · exact .inr (kept o old)
  | allocateArray stack element length =>
      simp only [perform, Heap.allocateArray] at there
      split at there
      · exact .inr ⟨o', there, rfl, rfl⟩
      · split at there
        · rcases content_of_place there with rfl | ⟨o, old⟩
          · exact .inl fun _ => HeapObject.isArray_of_tag rfl
          · exact .inr (kept o old)
        · exact .inr ⟨o', there, rfl, rfl⟩
  | storeElement array index value =>
      right
      simp only [perform, Heap.storeElement] at there
      split at there
      · exact ⟨o', there, rfl, rfl⟩
      · rw [get?_putElement] at there
        split at there
        · obtain ⟨o, live, rfl⟩ := Option.map_eq_some_iff.mp there
          exact ⟨o, live, rfl, rfl⟩
        · exact ⟨o', there, rfl, rfl⟩
  | setField object field value =>
      right
      simp only [perform, Heap.setField] at there
      split at there
      · exact ⟨o', there, rfl, rfl⟩
      · rw [get?_modify] at there
        split at there
        · obtain ⟨o, live, rfl⟩ := Option.map_eq_some_iff.mp there
          exact ⟨o, live, rfl, rfl⟩
        · exact ⟨o', there, rfl, rfl⟩
  | collect generation stack =>
      obtain ⟨o, old⟩ := content_of_collection there
      exact .inr (kept o old)
  | collectFull stack =>
      obtain ⟨o, old⟩ := content_of_collection there
      exact .inr (kept o old)

def ElementsOfArrays (h : Heap) : Prop :=
  ∀ (r : HeapRef) (o : HeapObject), h.get? r = some o → o.element.isSome → o.isArray = true

theorem ElementsOfArrays.perform {h : Heap} (arrays : h.ElementsOfArrays) (op : Operation) :
    (h.perform op).ElementsOfArrays := by
  intro r o' there known
  rcases shape_of_perform there with fresh | ⟨o, live, tag, element⟩
  · exact fresh known
  · rw [element] at known
    have before := arrays r o live known
    rw [HeapObject.isArray, tag]
    exact before

theorem ElementsOfArrays.performAll {h : Heap} (arrays : h.ElementsOfArrays)
    (operations : List Operation) : (h.performAll operations).ElementsOfArrays := by
  induction operations generalizing h with
  | nil => exact arrays
  | cons op rest ih => exact ih (arrays.perform op)

theorem Built.elementsOfArrays {h : Heap} (built : h.Built) : h.ElementsOfArrays := by
  obtain ⟨maxBytes, gcEnabled, operations, rfl⟩ := built
  refine ElementsOfArrays.performAll ?_ operations
  intro r o there _
  obtain ⟨_, _, tag, _⟩ := Typed.empty maxBytes gcEnabled r o there
  exact HeapObject.isArray_of_tag tag

def FieldsFit (h : Heap) : Prop :=
  ∀ (r : HeapRef) (o : HeapObject) (d : Descriptor), h.get? r = some o → o.element = some d →
    ∀ v ∈ o.fields, d.admits v = true

theorem Built.elementsFit {h : Heap} (built : h.Built) (fields : h.FieldsFit) :
    h.ElementsFit := by
  intro r o d live element
  exact ⟨built.elementsOfArrays r o live (by rw [element]; rfl), fields r o d live element⟩

end Heap

end StackMachine
