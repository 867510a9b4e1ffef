import Mathlib.Data.List.Forall2
import StackMachine.Proofs.Heap.Slots

/-! # Heaps that match

Two values are alike if they are the same or are references that are paired. Two heaps match if
the pairing is one to one and paired references name objects with the same tag and element type
and with fields that are alike. What else the heaps hold, and the marks, ages and bytes of objects,
do not matter.
-/

namespace StackMachine

/-- Which references of one heap stand for which of another. -/
abbrev Pairing := HeapRef → HeapRef → Prop

def Pairing.within (ρ : Pairing) (P : HeapRef → Prop) : Pairing := fun a b => ρ a b ∧ P a

def Pairing.add (ρ : Pairing) (a b : HeapRef) : Pairing :=
  fun a' b' => ρ a' b' ∨ a' = a ∧ b' = b

/-! ## Values -/

/-- Null references are alike, and they stand in no pairing. -/
inductive HeapRef.Alike (ρ : Pairing) : HeapRef → HeapRef → Prop where
  | null : HeapRef.Alike ρ .null .null
  | paired {a b : HeapRef} (pair : ρ a b) : HeapRef.Alike ρ a b

inductive Value.Alike (ρ : Pairing) : Value → Value → Prop where
  | plain {v : Value} (plain : v.ref? = none) : Value.Alike ρ v v
  | ref {a b : HeapRef} (alike : a.Alike ρ b) : Value.Alike ρ (.ref a) (.ref b)

namespace Value.Alike

variable {ρ ρ' : Pairing} {v w : Value}

theorem mono (alike : v.Alike ρ w) (sub : ∀ a b, ρ a b → ρ' a b) : v.Alike ρ' w := by
  cases alike with
  | plain plain => exact .plain plain
  | ref alike =>
      cases alike with
      | null => exact .ref .null
      | paired pair => exact .ref (.paired (sub _ _ pair))

theorem symm (alike : v.Alike ρ w) : w.Alike (flip ρ) v := by
  cases alike with
  | plain plain => exact .plain plain
  | ref alike =>
      cases alike with
      | null => exact .ref .null
      | paired pair => exact .ref (.paired pair)

theorem within {P : HeapRef → Prop} (alike : v.Alike ρ w) (holds : ∀ r, v = .ref r → P r) :
    v.Alike (ρ.within P) w := by
  cases alike with
  | plain plain => exact .plain plain
  | ref alike =>
      cases alike with
      | null => exact .ref .null
      | paired pair => exact .ref (.paired ⟨pair, holds _ rfl⟩)

theorem of_default {d : Descriptor} (default : d.default? = some v) : v.Alike ρ v := by
  cases d with
  | int _ | bool | string =>
      cases default
      exact .plain rfl
  | array _ | record _ =>
      cases default
      exact .ref .null
  | void => cases default

theorem tagName (alike : v.Alike ρ w) : v.tagName = w.tagName := by
  cases alike <;> rfl

theorem widen? (alike : v.Alike ρ w) : v.widen? = w.widen? := by
  cases alike <;> rfl

theorem falsy? (alike : v.Alike ρ w) : v.falsy? = w.falsy? := by
  cases alike <;> rfl

theorem admits (alike : v.Alike ρ w) (d : Descriptor) : d.admits v = d.admits w := by
  cases alike with
  | plain plain => rfl
  | ref alike => cases d <;> rfl

theorem elementSlot (alike : v.Alike ρ w) (length : Nat) :
    Heap.elementSlot v length = Heap.elementSlot w length := by
  rw [Heap.elementSlot, Heap.elementSlot, alike.widen?, alike.tagName]

end Value.Alike

abbrev AllAlike (ρ : Pairing) : List Value → List Value → Prop := List.Forall₂ (Value.Alike ρ)

namespace AllAlike

variable {ρ ρ' : Pairing} {vs ws : List Value}

theorem mono (alike : AllAlike ρ vs ws) (sub : ∀ a b, ρ a b → ρ' a b) : AllAlike ρ' vs ws :=
  alike.imp fun _ _ one => one.mono sub

theorem symm (alike : AllAlike ρ vs ws) : AllAlike (flip ρ) ws vs :=
  List.Forall₂.flip (alike.imp fun _ _ one => one.symm)

theorem within {P : HeapRef → Prop} (alike : AllAlike ρ vs ws)
    (holds : ∀ r, .ref r ∈ vs → P r) : AllAlike (ρ.within P) vs ws := by
  induction alike with
  | nil => exact .nil
  | cons one rest ih =>
      refine .cons (one.within ?_) (ih ?_)
      · intro r same
        exact holds r (same ▸ List.mem_cons_self ..)
      · intro r held
        exact holds r (List.mem_cons_of_mem _ held)

theorem replicate {v w : Value} (alike : v.Alike ρ w) (n : Nat) :
    AllAlike ρ (List.replicate n v) (List.replicate n w) := by
  induction n with
  | zero => exact .nil
  | succ n ih => exact .cons alike ih

theorem set {v w : Value} (alike : AllAlike ρ vs ws) (one : v.Alike ρ w) (i : Nat) :
    AllAlike ρ (vs.set i v) (ws.set i w) := by
  induction alike generalizing i with
  | nil => exact .nil
  | cons first rest ih =>
      cases i with
      | zero => exact .cons one rest
      | succ i => exact .cons first (ih i)

theorem getElem? (alike : AllAlike ρ vs ws) (i : Nat) :
    (vs[i]? = none ∧ ws[i]? = none)
      ∨ ∃ v w, vs[i]? = some v ∧ ws[i]? = some w ∧ v.Alike ρ w := by
  induction alike generalizing i with
  | nil => exact .inl ⟨rfl, rfl⟩
  | cons first rest ih =>
      cases i with
      | zero => exact .inr ⟨_, _, rfl, rfl, first⟩
      | succ i => exact ih i

end AllAlike

/-! ## Results -/

/-- Both computations fail with the same fault, or both succeed with related results. -/
inductive Agree {α β : Type} (R : α → β → Prop) : Except Fault α → Except Fault β → Prop where
  | error (fault : Fault) : Agree R (.error fault) (.error fault)
  | ok {a : α} {b : β} (related : R a b) : Agree R (.ok a) (.ok b)

theorem Agree.bind {α β γ δ : Type} {R : α → β → Prop} {S : γ → δ → Prop} {x : Except Fault α}
    {y : Except Fault β} {f : α → Except Fault γ} {g : β → Except Fault δ} (agree : Agree R x y)
    (next : ∀ a b, R a b → Agree S (f a) (g b)) : Agree S (x >>= f) (y >>= g) := by
  cases agree with
  | error fault => exact .error fault
  | ok related => exact next _ _ related

theorem Agree.of_eq {α : Type} {R : α → α → Prop} {x : Except Fault α}
    (related : ∀ a, x = .ok a → R a a) : Agree R x x := by
  cases x with
  | error fault => exact .error fault
  | ok a => exact .ok (related a rfl)

/-! ## Objects -/

structure HeapObject.Alike (ρ : Pairing) (o o' : HeapObject) : Prop where
  tag : o.tag = o'.tag
  element : o.element = o'.element
  fields : AllAlike ρ o.fields.toList o'.fields.toList

theorem HeapObject.Alike.of_content {ρ : Pairing} {o o' k : HeapObject} (alike : o.Alike ρ o')
    (content : k.content = o.content) : k.Alike ρ o' := by
  have tag : k.tag = o.tag := congrArg Content.tag content
  have element : k.element = o.element := congrArg Content.element content
  have fields : k.fields = o.fields := congrArg Content.fields content
  exact ⟨tag.trans alike.tag, element.trans alike.element, fields ▸ alike.fields⟩

theorem HeapObject.Alike.getD {ρ : Pairing} {o o' : HeapObject} (alike : o.Alike ρ o')
    (slot : Nat) :
    (o.fields.getD slot Value.unset).Alike ρ (o'.fields.getD slot Value.unset) := by
  rw [Array.getD_eq_getD_getElem?, Array.getD_eq_getD_getElem?, ← Array.getElem?_toList,
    ← Array.getElem?_toList]
  rcases alike.fields.getElem? slot with ⟨none, none'⟩ | ⟨v, w, some, some', same⟩
  · rw [none, none']
    exact .plain rfl
  · rw [some, some']
    exact same

theorem HeapObject.Alike.size {ρ : Pairing} {o o' : HeapObject} (alike : o.Alike ρ o') :
    o.fields.size = o'.fields.size :=
  alike.fields.length_eq

/-! ## Heaps -/

structure Matching (ρ : Pairing) (h h' : Heap) : Prop where
  forward : ∀ {a b b' : HeapRef}, ρ a b → ρ a b' → b = b'
  backward : ∀ {a a' b : HeapRef}, ρ a b → ρ a' b → a = a'
  objects : ∀ {a b : HeapRef}, ρ a b →
    ∃ o o', h.get? a = some o ∧ h'.get? b = some o' ∧ o.Alike ρ o'

namespace Matching

variable {ρ : Pairing} {h h' k k' : Heap} {a b : HeapRef}

theorem nothing (h h' : Heap) : Matching (fun _ _ => False) h h' where
  forward := False.elim
  backward := False.elim
  objects := False.elim

theorem symm (matching : Matching ρ h h') : Matching (flip ρ) h' h where
  forward := matching.backward
  backward := matching.forward
  objects := by
    intro b a pair
    obtain ⟨o, o', there, there', tag, element, fields⟩ := matching.objects pair
    exact ⟨o', o, there', there, tag.symm, element.symm, fields.symm⟩

/-- If the first heap is replaced by one with all that can be reached, the pairs whose first
reference can be reached are left. -/
theorem retained {stack : CallStack} (matching : Matching ρ h h') (retains : h.Retains stack k) :
    Matching (ρ.within (h.Reaches stack)) k h' where
  forward := fun pair pair' => matching.forward pair.1 pair'.1
  backward := fun pair pair' => matching.backward pair.1 pair'.1
  objects := by
    rintro a b ⟨pair, reached⟩
    obtain ⟨o, o', there, there', alike⟩ := matching.objects pair
    obtain ⟨kept, there'', content⟩ := retains a o reached there
    have fields : AllAlike (ρ.within (h.Reaches stack)) o.fields.toList o'.fields.toList := by
      refine alike.fields.within ?_
      intro r held
      exact .field reached there (Array.mem_toList_iff.mp held)
    have alike' : o.Alike (ρ.within (h.Reaches stack)) o' := ⟨alike.tag, alike.element, fields⟩
    exact ⟨kept, o', there'', there', alike'.of_content content⟩

/-- Two new objects that are alike make a new pair. -/
theorem added {o o' : HeapObject} (matching : Matching ρ h h') (adds : h.Adds o a k)
    (adds' : h'.Adds o' b k') (alike : o.Alike ρ o') : Matching (ρ.add a b) k k' := by
  have old : ∀ {c d : HeapRef}, ρ c d → c ≠ a ∧ d ≠ b := by
    intro c d pair
    obtain ⟨p, p', there, there', _⟩ := matching.objects pair
    constructor
    · intro same
      rw [same, adds.fresh] at there
      cases there
    · intro same
      rw [same, adds'.fresh] at there'
      cases there'
  have sub : ∀ c d, ρ c d → ρ.add a b c d := fun c d pair => .inl pair
  refine ⟨?_, ?_, ?_⟩
  · rintro c d d' (pair | ⟨rfl, rfl⟩) (pair' | ⟨same, rfl⟩)
    · exact matching.forward pair pair'
    · exact absurd same (old pair).1
    · exact absurd rfl (old pair').1
    · rfl
  · rintro c c' d (pair | ⟨rfl, rfl⟩) (pair' | ⟨rfl, same⟩)
    · exact matching.backward pair pair'
    · exact absurd same (old pair).2
    · exact absurd rfl (old pair').2
    · rfl
  · rintro c d (pair | ⟨rfl, rfl⟩)
    · obtain ⟨p, p', there, there', tag, element, fields⟩ := matching.objects pair
      refine ⟨p, p', ?_, ?_, tag, element, fields.mono sub⟩
      · rw [adds.get?, if_neg (old pair).1, there]
      · rw [adds'.get?, if_neg (old pair).2, there']
    · refine ⟨o, o', ?_, ?_, alike.tag, alike.element, alike.fields.mono sub⟩
      · rw [adds.get?, if_pos rfl]
      · rw [adds'.get?, if_pos rfl]

theorem putElement {v w : Value} (matching : Matching ρ h h') (pair : ρ a b)
    (alike : v.Alike ρ w) (slot : Nat) :
    Matching ρ (h.putElement a slot v) (h'.putElement b slot w) where
  forward := matching.forward
  backward := matching.backward
  objects := by
    intro c d pair'
    obtain ⟨o, o', there, there', tag, element, fields⟩ := matching.objects pair'
    rw [Heap.get?_putElement, Heap.get?_putElement, there, there']
    by_cases same : c = a
    · subst same
      have same' : d = b := matching.forward pair' pair
      rw [if_pos rfl, if_pos same']
      refine ⟨_, _, rfl, rfl, tag, element, ?_⟩
      simp only [Array.toList_setIfInBounds]
      exact fields.set alike slot
    · have other : d ≠ b := by
        intro same'
        exact same (matching.backward pair' (same' ▸ pair))
      rw [if_neg same, if_neg other]
      exact ⟨o, o', rfl, rfl, tag, element, fields⟩

/-! ## Access -/

section Access

variable (matching : Matching ρ h h') (sound : h.Sound) (sound' : h'.Sound) (alike : a.Alike ρ b)
include matching sound sound' alike

theorem get : Agree (HeapObject.Alike ρ) (h.get a) (h'.get b) := by
  cases alike with
  | null =>
      rw [Heap.get, Heap.get, sound.get?_null, sound'.get?_null]
      exact .error _
  | paired pair =>
      obtain ⟨o, o', there, there', alike⟩ := matching.objects pair
      rw [Heap.get, Heap.get, there, there']
      exact .ok alike

theorem array : Agree (HeapObject.Alike ρ) (h.array a) (h'.array b) := by
  have found := matching.get sound sound' alike
  unfold Heap.array
  generalize h.get a = x at found ⊢
  generalize h'.get b = y at found ⊢
  cases found with
  | error fault => exact .error fault
  | @ok o o' alike =>
      dsimp only
      rw [HeapObject.isArray, HeapObject.isArray, alike.tag]
      split
      · exact .ok alike
      · exact .error _

theorem loadElement {i j : Value} (same : i.Alike ρ j) :
    Agree (Value.Alike ρ) (h.loadElement a i) (h'.loadElement b j) := by
  have found := matching.array sound sound' alike
  unfold Heap.loadElement
  generalize h.array a = x at found ⊢
  generalize h'.array b = y at found ⊢
  cases found with
  | error fault => exact .error fault
  | @ok o o' alike =>
      dsimp only
      rw [same.elementSlot, alike.size]
      cases Heap.elementSlot j o'.fields.size with
      | error fault => exact .error fault
      | ok slot => exact .ok (alike.getD slot)

/-- A store that succeeds is not to the null reference. -/
theorem storeSlot {i j v w : Value} (same : i.Alike ρ j) (stored : v.Alike ρ w) :
    Agree (fun slot slot' => slot = slot' ∧ ρ a b) (h.storeSlot a i v) (h'.storeSlot b j w) := by
  have found := matching.array sound sound' alike
  unfold Heap.storeSlot
  cases alike with
  | null =>
      simp only [Heap.array, Heap.get, sound.get?_null, sound'.get?_null]
      exact .error _
  | paired pair =>
      generalize h.array a = x at found ⊢
      generalize h'.array b = y at found ⊢
      cases found with
      | error fault => exact .error fault
      | @ok o o' alike =>
          have fits : Heap.fits o.element v = Heap.fits o'.element w := by
            rw [alike.element]
            cases o'.element with
            | none => rfl
            | some d => exact stored.admits d
          dsimp only
          rw [same.elementSlot, alike.size, fits, stored.tagName, alike.tag]
          cases Heap.elementSlot j o'.fields.size with
          | error fault => exact .error fault
          | ok slot => exact .of_eq fun _ _ => ⟨rfl, pair⟩

end Access

end Matching

end StackMachine
