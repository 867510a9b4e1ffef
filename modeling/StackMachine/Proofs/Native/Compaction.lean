import Mathlib
import StackMachine.Proofs.Native.DeadCode

/-! # Compaction

Compaction keeps the flagged steps and points each jump at the first kept step that is not before
its target. The number of kept steps before a place says where the place lands, and these numbers
compose; so to compact code twice is to compact it once, with the flags of the steps that stay both
times.
-/

namespace StackMachine

/-! ## Where targets land -/

/-- The position, among the kept places, of the first one that is not before the target; or the end
of them, if all are before it. -/
def LandsAt (kept : List Nat) (target position : Nat) : Prop :=
  (∃ pc, kept[position]? = some pc ∧ target ≤ pc ∧ ∀ other ∈ kept, target ≤ other → pc ≤ other)
    ∨ position = kept.length ∧ ∀ other ∈ kept, other < target

inductive Step.MovesTo (kept : List Nat) : Step → Step → Prop where
  | push (v : Int64) : MovesTo kept (.push v) (.push v)
  | stay {i : Instruction} (other : i.opcode.isJump = false) : MovesTo kept (.op i) (.op i)
  | jump {i : Instruction} {target : UInt32} (jumps : i.opcode.isJump = true)
      (lands : LandsAt kept i.arg target.toNat) :
      MovesTo kept (.op i) (.op { i with operand := some target })

theorem landsAt_renumber {kept : List Nat} (sorted : kept.Pairwise (· < ·)) (target : Nat) :
    LandsAt kept target (renumber kept target) := by
  induction kept with
  | nil => exact .inr ⟨rfl, by simp⟩
  | cons first rest ih =>
      obtain ⟨below, sorted'⟩ := List.pairwise_cons.mp sorted
      by_cases before : first < target
      · have counted : renumber (first :: rest) target = renumber rest target + 1 :=
          List.countP_cons_of_pos (by simpa using before)
        rw [counted]
        rcases ih sorted' with ⟨pc, at_position, after, least⟩ | ⟨position, all⟩
        · refine .inl ⟨pc, by rw [List.getElem?_cons_succ, at_position], after, ?_⟩
          intro other member reached
          rcases List.mem_cons.mp member with rfl | later
          · omega
          · exact least other later reached
        · refine .inr ⟨by rw [position, List.length_cons], ?_⟩
          intro other member
          rcases List.mem_cons.mp member with rfl | later
          · exact before
          · exact all other later
      · have reached : target ≤ first := Nat.le_of_not_lt before
        rw [renumber_cons_of_le sorted reached]
        refine .inl ⟨first, rfl, reached, ?_⟩
        intro other member _
        rcases List.mem_cons.mp member with rfl | later
        · exact Nat.le_refl _
        · exact Nat.le_of_lt (below other later)

theorem Step.movesTo_retarget {kept : List Nat} (sorted : kept.Pairwise (· < ·))
    (below : ∀ pc, renumber kept pc ≤ pc) (step : Step) :
    step.MovesTo kept (step.retarget (renumber kept)) := by
  cases step with
  | push v => exact .push v
  | op i =>
      by_cases jumps : i.opcode.isJump = true
      · rw [Step.retarget_of_jump _ jumps]
        refine .jump jumps ?_
        have number : (UInt32.ofNat (renumber kept i.arg)).toNat = renumber kept i.arg :=
          Instruction.arg_retarget below i i.opcode
        rw [number]
        exact landsAt_renumber sorted i.arg
      · rw [Bool.not_eq_true] at jumps
        rw [Step.retarget_of_not_jump _ jumps]
        exact .stay jumps

/-! ## Flags -/

section Flags

variable {code : List Step} {keep : List Bool}

theorem landing_zip (lengths : keep.length = code.length) (pc : Nat) :
    landing (code.zip keep) pc = (keep.take pc).count true := by
  have flags : (code.zip keep).map Prod.snd = keep := List.map_snd_zip (Nat.le_of_eq lengths)
  calc landing (code.zip keep) pc
      = (((code.zip keep).map Prod.snd).take pc).countP id := by
        rw [landing, ← List.map_take, List.countP_map]
        rfl
    _ = (keep.take pc).count true := by
        rw [flags, List.count]
        congr 1
        funext kept
        cases kept <;> rfl

/-- The flags that are set before a place are those whose places come before it. -/
theorem countP_idxsOf (keep : List Bool) (start pc : Nat) :
    (keep.idxsOf true start).countP (· < start + pc) = (keep.take pc).count true := by
  induction keep generalizing start pc with
  | nil => simp
  | cons kept rest ih =>
      cases pc with
      | zero =>
          rw [List.take_zero, List.count_nil, List.countP_eq_zero]
          intro place member
          have := List.ge_of_mem_idxsOf place member
          simp only [decide_eq_true_eq]
          omega
      | succ pc =>
          have shifted := ih (start + 1) pc
          rw [Nat.add_right_comm, Nat.add_assoc] at shifted
          cases kept <;> simp [shifted]

theorem renumber_idxsOf (keep : List Bool) (pc : Nat) :
    renumber (keep.idxsOf true) pc = (keep.take pc).count true := by
  have counted := countP_idxsOf keep 0 pc
  rwa [Nat.zero_add] at counted

theorem landing_eq_renumber (lengths : keep.length = code.length) :
    landing (code.zip keep) = renumber (keep.idxsOf true) := by
  funext pc
  rw [landing_zip lengths, renumber_idxsOf]

theorem mem_idxsOf_true {pc : Nat} : pc ∈ keep.idxsOf true ↔ keep[pc]? = some true := by
  rw [List.mem_idxsOf_iff_exists_getElem_pos, List.getElem?_eq_some_iff]
  simp only [beq_iff_eq]

/-- A kept place stands after those that are kept before it. -/
theorem getElem?_idxsOf_true_iff {j pc : Nat} :
    (keep.idxsOf true)[j]? = some pc ↔ keep[pc]? = some true ∧ j = (keep.take pc).count true := by
  rw [← renumber_idxsOf, ← mem_idxsOf_true]
  constructor
  · intro at_j
    exact ⟨List.mem_of_getElem? at_j,
      (renumber_of_getElem? List.pairwise_idxsOf at_j).symm⟩
  · rintro ⟨member, rfl⟩
    obtain ⟨k, at_k⟩ := List.mem_iff_getElem?.mp member
    rwa [renumber_of_getElem? List.pairwise_idxsOf at_k]

/-- The kept steps stand in order, each as it moves. -/
theorem forall₂_compact (lengths : keep.length = code.length) :
    List.Forall₂ (fun pc moved => ∃ step, code[pc]? = some step
      ∧ step.MovesTo (keep.idxsOf true) moved) (keep.idxsOf true) (compact code keep) := by
  have lands := landing_eq_renumber lengths
  have below : ∀ pc, renumber (keep.idxsOf true) pc ≤ pc := by
    intro pc
    rw [← lands]
    exact landing_le _ pc
  have counted : (keep.idxsOf true).length = (compact code keep).length := by
    have whole : (code.zip keep).take code.length = code.zip keep :=
      List.take_of_length_le (by simp)
    have all : (compact code keep).length = landing (code.zip keep) code.length := by
      rw [← length_filterMap_take code.length (landing (code.zip keep)), whole]
      rfl
    rw [all, landing_zip lengths, List.take_of_length_le (Nat.le_of_eq lengths),
      List.length_idxsOf]
  refine List.forall₂_iff_get.mpr ⟨counted, ?_⟩
  intro j inside inside'
  obtain ⟨kept, position⟩ := getElem?_idxsOf_true_iff.mp (List.getElem?_eq_getElem inside)
  obtain ⟨bound, _⟩ := List.getElem?_eq_some_iff.mp kept
  have here : code[(keep.idxsOf true)[j]]? = some code[(keep.idxsOf true)[j]] :=
    List.getElem?_eq_getElem (lengths ▸ bound)
  have moved := getElem?_compactFlagged_of_kept (List.getElem?_zip_eq_some.mpr ⟨here, kept⟩)
  rw [landing_zip lengths, ← position, lands] at moved
  refine ⟨_, here, ?_⟩
  obtain ⟨_, at_j⟩ := List.getElem?_eq_some_iff.mp moved
  rw [List.get_eq_getElem, show (compact code keep)[j] = _ from at_j]
  exact Step.movesTo_retarget List.pairwise_idxsOf below _

end Flags

/-! ## Flags of flags -/

/-- Flags for the whole of which the second flags are for what the first ones leave. -/
def keepBoth : List Bool → List Bool → List Bool
  | [], _ => []
  | false :: first, second => false :: keepBoth first second
  | true :: first, [] => false :: keepBoth first []
  | true :: first, kept :: second => kept :: keepBoth first second

def itemsKept {α : Type} (keep : List Bool) (items : List α) : List α :=
  ((items.zip keep).filter (·.2)).map (·.1)

section Both

variable {α : Type} (first second : List Bool)

theorem length_keepBoth : (keepBoth first second).length = first.length := by
  fun_induction keepBoth first second with
  | case1 => rfl
  | case2 first second ih => simp [ih]
  | case3 first ih => simp [ih]
  | case4 first kept second ih => simp [ih]

theorem itemsKept_itemsKept (items : List α) :
    itemsKept second (itemsKept first items) = itemsKept (keepBoth first second) items := by
  fun_induction keepBoth first second generalizing items with
  | case1 => simp [itemsKept]
  | case2 first second ih =>
      cases items with
      | nil => rfl
      | cons item rest => simpa [itemsKept] using ih rest
  | case3 first ih =>
      cases items with
      | nil => rfl
      | cons item rest => simpa [itemsKept] using ih rest
  | case4 first kept second ih =>
      cases items with
      | nil => rfl
      | cons item rest => cases kept <;> simpa [itemsKept] using ih rest

/-- The second flags count among what the first ones leave. -/
theorem count_keepBoth (pc : Nat) :
    ((keepBoth first second).take pc).count true
      = (second.take ((first.take pc).count true)).count true := by
  fun_induction keepBoth first second generalizing pc with
  | case1 => simp
  | case2 first second ih => cases pc <;> simp [ih]
  | case3 first ih => cases pc <;> simp [ih]
  | case4 first kept second ih => cases pc <;> simp [ih, List.count_cons]

theorem getElem?_keepBoth (pc : Nat) :
    (keepBoth first second)[pc]? = some true
      ↔ first[pc]? = some true ∧ second[(first.take pc).count true]? = some true := by
  fun_induction keepBoth first second generalizing pc with
  | case1 => simp
  | case2 first second ih => cases pc <;> simp [ih]
  | case3 first ih => cases pc <;> simp [ih]
  | case4 first kept second ih => cases pc <;> simp [ih]

theorem itemsKept_map {β : Type} (keep : List Bool) (f : α → β) (items : List α) :
    itemsKept keep (items.map f) = (itemsKept keep items).map f := by
  simp [itemsKept, List.zip_map_left, List.filter_map, Function.comp_def]

end Both

theorem compact_eq_map_itemsKept (code : List Step) (keep : List Bool) :
    compact code keep = (itemsKept keep code).map (Step.retarget (landing (code.zip keep))) := by
  rw [compact, itemsKept, List.map_map, ← List.filterMap_eq_map, List.filterMap_filter]
  rfl

theorem compact_compact {code : List Step} {first second : List Bool}
    (lengths : first.length = code.length)
    (lengths' : second.length = (compact code first).length) :
    compact (compact code first) second = compact code (keepBoth first second) := by
  have lands : landing ((compact code first).zip second) ∘ landing (code.zip first)
      = landing (code.zip (keepBoth first second)) := by
    funext pc
    rw [Function.comp_apply, landing_zip lengths, landing_zip lengths',
      landing_zip (by rw [length_keepBoth, lengths]), count_keepBoth]
  calc compact (compact code first) second
      = (itemsKept second (compact code first)).map
          (Step.retarget (landing ((compact code first).zip second))) :=
        compact_eq_map_itemsKept (compact code first) second
    _ = (itemsKept second (itemsKept first code)).map (Step.retarget
          (landing ((compact code first).zip second) ∘ landing (code.zip first))) := by
        rw [compact_eq_map_itemsKept code first, itemsKept_map, List.map_map,
          ← compact_eq_map_itemsKept]
        congr 1
        funext step
        exact Step.retarget_retarget _ (landing_le _) step
    _ = compact code (keepBoth first second) := by
        rw [itemsKept_itemsKept, lands, ← compact_eq_map_itemsKept]

/-- The kept steps stand in order. A jump points at the position of the first kept step that is not
before its old target, or at the end if there is none. To drop more of what is left is to drop both
at once: what stays is kept the first time, and the second time where it then stands. -/
theorem compaction_composes (code : List Step) (first : List Bool)
    (lengths : first.length = code.length) :
    List.Forall₂ (fun pc moved => ∃ step, code[pc]? = some step
        ∧ step.MovesTo (first.idxsOf true) moved) (first.idxsOf true) (compact code first)
      ∧ ∀ second : List Bool, second.length = (compact code first).length →
          (keepBoth first second).length = code.length
            ∧ (∀ pc : Nat, (keepBoth first second)[pc]? = some true
                ↔ ∃ position : Nat, (first.idxsOf true)[position]? = some pc
                    ∧ second[position]? = some true)
            ∧ compact (compact code first) second = compact code (keepBoth first second) := by
  refine ⟨forall₂_compact lengths, ?_⟩
  intro second lengths'
  refine ⟨by rw [length_keepBoth, lengths], ?_, compact_compact lengths lengths'⟩
  intro pc
  simp only [getElem?_keepBoth, getElem?_idxsOf_true_iff]
  constructor
  · rintro ⟨kept, again⟩
    exact ⟨_, ⟨kept, rfl⟩, again⟩
  · rintro ⟨position, ⟨kept, rfl⟩, again⟩
    exact ⟨kept, again⟩

/-! Jumps forward to a step that is dropped, back to one, and past the end. -/

namespace Thinned

def code : List Step :=
  [.op ⟨.jmp, some 4⟩, .push 1, .push 2, .op ⟨.jz, some 9⟩, .push 3, .op ⟨.jnz, some 2⟩,
    .op ⟨.ret, none⟩]

def first : List Bool := [true, true, false, true, false, true, true]

def second : List Bool := [true, false, true, true, true]

theorem is_thinned_once_or_twice :
    compact code first = [.op ⟨.jmp, some 3⟩, .push 1, .op ⟨.jz, some 5⟩, .op ⟨.jnz, some 2⟩,
        .op ⟨.ret, none⟩]
      ∧ (Step.op ⟨.jmp, some 4⟩).MovesTo [0, 1, 3, 5, 6] (.op ⟨.jmp, some 3⟩)
      ∧ compact (compact code first) second
        = compact code [true, false, false, true, false, true, true] := by
  have once : compact code first = [.op ⟨.jmp, some 3⟩, .push 1, .op ⟨.jz, some 5⟩,
      .op ⟨.jnz, some 2⟩, .op ⟨.ret, none⟩] := by decide
  obtain ⟨moved, composes⟩ := compaction_composes code first rfl
  obtain ⟨_, _, twice⟩ := composes second (by rw [once]; rfl)
  refine ⟨once, ?_, twice⟩
  rw [once] at moved
  obtain ⟨⟨step, here, moves⟩, _⟩ := List.forall₂_cons.mp moved
  cases here
  exact moves

end Thinned

end StackMachine
