import StackMachine.Proofs.Native.Compilability

/-! # Dead code is dropped exactly

The blocks divide the code, and those that are marked hold just the steps that control can come to
from the start. Dropping the others renumbers the steps that stay, and control goes between them as
it did: every step that is left can be reached, so there is nothing left to drop.
-/

namespace StackMachine

inductive StepReachable (code : List Step) : Nat → Prop where
  | start (some_step : 0 < code.length) : StepReachable code 0
  | next {pc next : Nat} {step : Step} (before : StepReachable code pc)
      (here : code[pc]? = some step) (leads : step.LeadsTo pc next) (inside : next < code.length) :
      StepReachable code next

/-! ## Blocks divide the code -/

/-- The blocks follow one another from `first` to `last` without a gap, and none is empty. -/
def Block.Tile : List Block → Nat → Nat → Prop
  | [], first, last => first = last
  | b :: rest, first, last => b.start = first ∧ b.start < b.stop ∧ Tile rest b.stop last

/-- The blocks cover the code. Jumps within the code lead to starts of blocks, and a step that
jumps or returns is the last one of its block. -/
structure BlocksDivide (code : List Step) (blocks : List Block) : Prop where
  tile : Block.Tile blocks 0 code.length
  targets : ∀ (pc target : Nat) (step : Step), code[pc]? = some step →
    step.target? = some target → target < code.length → ∃ b ∈ blocks, b.start = target
  ends : ∀ b ∈ blocks, ∀ (pc : Nat) (step : Step), b.start ≤ pc → pc < b.stop →
    code[pc]? = some step → step.target?.isSome = true ∨ step.opcode? = some .ret →
    pc + 1 = b.stop

section Divide

variable {code : List Step}

theorem tile_blocksAt (starts : List Nat) {first : Nat} {rest : List Nat}
    (sorted : (first :: rest).Pairwise (· < ·)) (inside : ∀ pc ∈ first :: rest, pc < code.length) :
    Block.Tile (blocksAt code starts (first :: rest)) first code.length := by
  induction rest generalizing first with
  | nil => exact ⟨rfl, inside first List.mem_cons_self, rfl⟩
  | cons second rest ih =>
      obtain ⟨below, sorted⟩ := List.pairwise_cons.mp sorted
      refine ⟨rfl, below second List.mem_cons_self, ih sorted ?_⟩
      intro pc member
      exact inside pc (List.mem_cons_of_mem _ member)

theorem tile_buildBlocks (code : List Step) : Block.Tile (buildBlocks code) 0 code.length := by
  rcases Nat.eq_zero_or_pos code.length with none | some_step
  · obtain rfl := List.length_eq_zero_iff.mp none
    rfl
  · obtain ⟨rest, starts⟩ := List.head?_eq_some_iff.mp (head?_leaders some_step)
    have sorted := leaders_sorted code
    have inside : ∀ pc ∈ leaders code, pc < code.length := fun pc member =>
      (mem_leaders.mp member).1
    rw [starts] at sorted inside
    have tiled := tile_blocksAt (leaders code) sorted inside
    rw [← starts] at tiled
    exact tiled

theorem mem_buildBlocks {b : Block} :
    b ∈ buildBlocks code ↔ ∃ k start, (leaders code)[k]? = some start
      ∧ b = numberedBlock code (leaders code) k start := by
  rw [List.mem_iff_getElem?]
  simp only [getElem?_buildBlocks, Option.map_eq_some_iff]
  constructor
  · rintro ⟨k, start, at_start, rfl⟩
    exact ⟨k, start, at_start, rfl⟩
  · rintro ⟨k, start, at_start, rfl⟩
    exact ⟨k, start, at_start, rfl⟩

theorem blocksDivide_buildBlocks (code : List Step) : BlocksDivide code (buildBlocks code) where
  tile := tile_buildBlocks code
  targets := by
    intro pc target step here jumps inside
    have leader : target ∈ leaders code :=
      mem_leaders.mpr ⟨inside, isLeader_of_target here jumps⟩
    obtain ⟨k, at_start⟩ := List.mem_iff_getElem?.mp leader
    exact ⟨_, mem_buildBlocks.mpr ⟨k, target, at_start, rfl⟩, rfl⟩
  ends := by
    intro b member pc step after before here ends
    obtain ⟨k, start, at_start, rfl⟩ := mem_buildBlocks.mp member
    have terminates : step.isTerminator = true := by
      rw [Step.isTerminator, Bool.or_eq_true, beq_iff_eq]
      exact ends
    rcases Nat.lt_or_ge (pc + 1) (blockStop code (leaders code) k) with inner | last
    · exact absurd terminates (not_terminator_of_inner at_start after inner here)
    · exact Nat.le_antisymm before last

/-! ## Marked blocks hold what control can come to -/

theorem StepReachable.lt {pc : Nat} (reached : StepReachable code pc) : pc < code.length := by
  cases reached with
  | start some_step => exact some_step
  | next _ _ _ inside => exact inside

theorem stepReachable_iff_inMarkedBlock {pc : Nat} :
    StepReachable code pc ↔ InMarkedBlock code pc := by
  constructor
  · intro reached
    induction reached with
    | start some_step => exact inMarkedBlock_start some_step
    | next _ here leads inside ih => exact ih.leads here leads inside
  · intro marked
    have some_step : 0 < code.length := by
      obtain ⟨k, _, _, _, before, _⟩ := marked
      have stop : blockStop code (leaders code) k ≤ code.length := blockStop_le k
      omega
    refine marked.holds ?_ (.start some_step)
    intro pc step next here reached leads inside
    exact reached.next here leads inside

theorem inReachableBlock_eq_true_iff {pc : Nat} :
    inReachableBlock (markReachable (buildBlocks code)) pc = true ↔ StepReachable code pc := by
  rw [inReachableBlock_iff, stepReachable_iff_inMarkedBlock]

end Divide

/-! ## Renumbering -/

def reachablePlaces (code : List Step) : List Nat :=
  (List.range code.length).filter (inReachableBlock (markReachable (buildBlocks code)))

/-- The number that the step at a place gets, or would get, when only the kept ones are counted. -/
def renumber (kept : List Nat) (pc : Nat) : Nat := kept.countP (· < pc)

section Renumber

variable {code : List Step} {kept : List Nat}

theorem reachablePlaces_sorted (code : List Step) : (reachablePlaces code).Pairwise (· < ·) :=
  List.pairwise_lt_range.filter _

theorem mem_reachablePlaces {pc : Nat} : pc ∈ reachablePlaces code ↔ StepReachable code pc := by
  rw [reachablePlaces, List.mem_filter, List.mem_range, inReachableBlock_eq_true_iff]
  exact and_iff_right_of_imp StepReachable.lt

theorem renumber_le_length (kept : List Nat) (pc : Nat) : renumber kept pc ≤ kept.length :=
  List.countP_le_length

/-- No place of an increasing list comes before its first one. -/
theorem renumber_cons_of_le {first pc : Nat} (sorted : (first :: kept).Pairwise (· < ·))
    (start : pc ≤ first) : renumber (first :: kept) pc = 0 := by
  rw [renumber, List.countP_eq_zero]
  intro place member
  have least : first ≤ place := by
    rcases List.mem_cons.mp member with rfl | later
    · exact Nat.le_refl _
    · exact Nat.le_of_lt (List.rel_of_pairwise_cons sorted later)
  simp only [decide_eq_true_eq]
  omega

/-- In an increasing list, the place that stands at `k` has `k` places before it. -/
theorem renumber_of_getElem? {k pc : Nat} (sorted : kept.Pairwise (· < ·))
    (at_k : kept[k]? = some pc) : renumber kept pc = k := by
  induction kept generalizing k with
  | nil => simp at at_k
  | cons first rest ih =>
      cases k with
      | zero =>
          obtain rfl : first = pc := by simpa using at_k
          exact renumber_cons_of_le sorted (Nat.le_refl _)
      | succ k =>
          obtain ⟨below, sorted⟩ := List.pairwise_cons.mp sorted
          rw [List.getElem?_cons_succ] at at_k
          have counted := ih sorted at_k
          rw [renumber] at counted ⊢
          rw [List.countP_cons_of_pos (by simpa using below pc (List.mem_of_getElem? at_k)),
            counted]

/-- Of the first places, those before `pc` are the first `pc` of them. -/
theorem countP_range_lt (keeps : Nat → Bool) (n pc : Nat) :
    (List.range n).countP (fun place => decide (place < pc) && keeps place)
      = ((List.range n).take pc).countP keeps := by
  rw [List.take_range]
  induction n with
  | zero => simp
  | succ n ih =>
      rw [List.range_succ, List.countP_append, ih]
      by_cases inside : n < pc
      · have all : min pc (n + 1) = n + 1 ∧ min pc n = n := by omega
        rw [all.1, all.2, List.range_succ, List.countP_append]
        simp [inside]
      · have same : min pc (n + 1) = min pc n := by omega
        rw [same]
        simp [inside]

/-- Places land where they are numbered. -/
theorem landing_reachableFlags (code : List Step) :
    landing (code.zip (reachableFlags code)) = renumber (reachablePlaces code) := by
  funext pc
  have flags : (code.zip (reachableFlags code)).map Prod.snd = reachableFlags code :=
    List.map_snd_zip (by simp [reachableFlags])
  calc landing (code.zip (reachableFlags code)) pc
      = (((code.zip (reachableFlags code)).map Prod.snd).take pc).countP id := by
        rw [landing, ← List.map_take, List.countP_map]
        rfl
    _ = ((List.range code.length).take pc).countP
          (inReachableBlock (markReachable (buildBlocks code))) := by
        rw [flags, reachableFlags, ← List.map_take, List.countP_map]
        rfl
    _ = renumber (reachablePlaces code) pc := by
        rw [renumber, reachablePlaces, List.countP_filter, countP_range_lt]

end Renumber

/-! ## What is left -/

namespace Step

variable {g : Nat → Nat}

theorem fallsThrough_retarget (g : Nat → Nat) (step : Step) :
    (step.retarget g).fallsThrough = step.fallsThrough := by
  cases step with
  | push v => rfl
  | op i =>
      simp only [retarget]
      split <;> rfl

theorem target?_retarget (below : ∀ n, g n ≤ n) (step : Step) :
    (step.retarget g).target? = step.target?.map g := by
  cases step with
  | push v => rfl
  | op i =>
      by_cases jump : i.opcode.isJump = true
      · rw [retarget_of_jump g jump]
        simp only [target?, jump, if_true, Option.map_some]
        exact congrArg some (Instruction.arg_retarget below i i.opcode)
      · rw [Bool.not_eq_true] at jump
        rw [retarget_of_not_jump g jump]
        simp [target?, jump]

/-- Moving a target twice. -/
theorem retarget_retarget (g' : Nat → Nat) (below : ∀ n, g n ≤ n) (step : Step) :
    (step.retarget g).retarget g' = step.retarget (g' ∘ g) := by
  cases step with
  | push v => rfl
  | op i =>
      by_cases jump : i.opcode.isJump = true
      · rw [retarget_of_jump g jump, retarget_of_jump (g' ∘ g) jump]
        have moved := Instruction.arg_retarget below i i.opcode
        simp only [retarget, jump, if_true, moved, Function.comp]
      · rw [Bool.not_eq_true] at jump
        rw [retarget_of_not_jump g jump, retarget_of_not_jump (g' ∘ g) jump,
          retarget_of_not_jump g' jump]

end Step

section Removed

variable {code : List Step}

theorem renumber_le (code : List Step) (pc : Nat) : renumber (reachablePlaces code) pc ≤ pc := by
  rw [← landing_reachableFlags]
  exact landing_le _ pc

theorem zip_reachableFlags_of_reachable {pc : Nat} {step : Step} (reached : StepReachable code pc)
    (here : code[pc]? = some step) :
    (code.zip (reachableFlags code))[pc]? = some (step, true) := by
  refine List.getElem?_zip_eq_some.mpr ⟨here, ?_⟩
  rw [getElem?_reachableFlags reached.lt, inReachableBlock_eq_true_iff.mpr reached]

theorem getElem?_removeUnreachable_of_reachable {pc : Nat} {step : Step}
    (reached : StepReachable code pc) (here : code[pc]? = some step) :
    (removeUnreachable code)[renumber (reachablePlaces code) pc]?
      = some (step.retarget (renumber (reachablePlaces code))) := by
  have kept := getElem?_compactFlagged_of_kept (zip_reachableFlags_of_reachable reached here)
  rw [landing_reachableFlags] at kept
  exact kept

theorem length_removeUnreachable (code : List Step) :
    (removeUnreachable code).length = (reachablePlaces code).length := by
  have counted : (removeUnreachable code).length
      = landing (code.zip (reachableFlags code)) code.length := by
    rw [← length_filterMap_take code.length (landing (code.zip (reachableFlags code))),
      List.take_of_length_le (by rw [List.length_zip]; exact Nat.min_le_left ..)]
    rfl
  have all : renumber (reachablePlaces code) code.length = (reachablePlaces code).length := by
    rw [renumber, List.countP_eq_length]
    intro pc member
    simpa using (mem_reachablePlaces.mp member).lt
  rw [counted, landing_reachableFlags, all]

/-- The steps that control can come to are kept, in order, and their targets are renumbered. -/
theorem getElem?_removeUnreachable (code : List Step) (k : Nat) :
    (removeUnreachable code)[k]? = (reachablePlaces code)[k]?.bind fun pc =>
      code[pc]?.map (Step.retarget (renumber (reachablePlaces code))) := by
  cases at_k : (reachablePlaces code)[k]? with
  | none =>
      have beyond := List.getElem?_eq_none_iff.mp at_k
      exact List.getElem?_eq_none_iff.mpr (by rw [length_removeUnreachable]; exact beyond)
  | some pc =>
      have reached := mem_reachablePlaces.mp (List.mem_of_getElem? at_k)
      obtain ⟨step, here⟩ : ∃ step, code[pc]? = some step :=
        ⟨_, List.getElem?_eq_getElem reached.lt⟩
      have kept := getElem?_removeUnreachable_of_reachable reached here
      rw [renumber_of_getElem? (reachablePlaces_sorted code) at_k] at kept
      simp only [kept, Option.bind_some, here, Option.map_some]

theorem renumber_lt {pc : Nat} (reached : StepReachable code pc) :
    renumber (reachablePlaces code) pc < (removeUnreachable code).length := by
  have kept := getElem?_removeUnreachable_of_reachable reached (List.getElem?_eq_getElem reached.lt)
  exact (List.getElem?_eq_some_iff.mp kept).1

/-- Control goes between the steps that are left as it did before. -/
theorem Step.LeadsTo.renumber {pc next : Nat} {step : Step} (leads : step.LeadsTo pc next)
    (reached : StepReachable code pc) (here : code[pc]? = some step) :
    (step.retarget (renumber (reachablePlaces code))).LeadsTo (renumber (reachablePlaces code) pc)
      (renumber (reachablePlaces code) next) := by
  rcases leads with ⟨rfl, falls⟩ | target
  · refine .inl ⟨?_, by rw [fallsThrough_retarget, falls]⟩
    rw [← landing_reachableFlags]
    exact landing_succ_of_kept (zip_reachableFlags_of_reachable reached here)
  · refine .inr ?_
    rw [target?_retarget (renumber_le code), target, Option.map_some]

theorem StepReachable.renumber {pc : Nat} (reached : StepReachable code pc) :
    StepReachable (removeUnreachable code) (renumber (reachablePlaces code) pc) := by
  induction reached with
  | start some_step =>
      have bound := renumber_lt (.start some_step)
      have first : StackMachine.renumber (reachablePlaces code) 0 = 0 :=
        Nat.le_zero.mp (renumber_le code 0)
      rw [first] at bound ⊢
      exact .start bound
  | next before here leads inside ih =>
      have kept := getElem?_removeUnreachable_of_reachable before here
      exact ih.next kept (leads.renumber before here) (renumber_lt (before.next here leads inside))

/-- Every step that is left can be reached. -/
theorem stepReachable_removeUnreachable {k : Nat} (inside : k < (removeUnreachable code).length) :
    StepReachable (removeUnreachable code) k := by
  rw [length_removeUnreachable] at inside
  have at_k := List.getElem?_eq_getElem inside
  have reached := mem_reachablePlaces.mp (List.getElem_mem inside)
  rw [← renumber_of_getElem? (reachablePlaces_sorted code) at_k]
  exact reached.renumber

section AllReachable

variable (all : ∀ k < code.length, StepReachable code k)
include all

theorem reachablePlaces_of_all : reachablePlaces code = List.range code.length := by
  rw [reachablePlaces, List.filter_eq_self]
  intro k member
  exact inReachableBlock_eq_true_iff.mpr (all k (List.mem_range.mp member))

/-- Where every step can be reached, places keep their numbers. -/
theorem renumber_of_all {pc : Nat} (inside : pc ≤ code.length) :
    renumber (reachablePlaces code) pc = pc := by
  have counted := countP_range_lt (fun _ => true) code.length pc
  simp only [Bool.and_true, List.take_range, Nat.min_eq_left inside, List.countP_true,
    List.length_range] at counted
  rw [reachablePlaces_of_all all]
  exact counted

theorem getElem?_removeUnreachable_of_all (k : Nat) :
    (removeUnreachable code)[k]?
      = code[k]?.map (Step.retarget (renumber (reachablePlaces code))) := by
  rw [getElem?_removeUnreachable]
  cases here : code[k]? with
  | none =>
      have beyond := List.getElem?_eq_none_iff.mp here
      rw [reachablePlaces_of_all all, List.getElem?_eq_none_iff.mpr (by simpa using beyond)]
      rfl
  | some step =>
      have inside := (List.getElem?_eq_some_iff.mp here).1
      have at_k : (reachablePlaces code)[k]? = some k := by
        rw [reachablePlaces_of_all all, List.getElem?_range inside]
      rw [at_k, Option.bind_some, here]

end AllReachable

theorem removeUnreachable_removeUnreachable (code : List Step) :
    removeUnreachable (removeUnreachable code) = removeUnreachable code := by
  have all : ∀ k < (removeUnreachable code).length, StepReachable (removeUnreachable code) k :=
    fun _ => stepReachable_removeUnreachable
  have stays : renumber (reachablePlaces (removeUnreachable code)) ∘ renumber (reachablePlaces code)
      = renumber (reachablePlaces code) := by
    funext target
    rw [Function.comp_apply]
    refine renumber_of_all all ?_
    rw [length_removeUnreachable]
    exact renumber_le_length _ target
  refine List.ext_getElem? fun k => ?_
  rw [getElem?_removeUnreachable_of_all all]
  cases here : (removeUnreachable code)[k]? with
  | none => rfl
  | some left =>
      rw [getElem?_removeUnreachable, Option.bind_eq_some_iff] at here
      obtain ⟨pc, _, here⟩ := here
      obtain ⟨step, _, rfl⟩ := Option.map_eq_some_iff.mp here
      rw [Option.map_some, Step.retarget_retarget _ (renumber_le code), stays]

end Removed

/-- Blocks divide the code, marking them leaves their division as it is, and the marked ones hold
just the steps that control can come to. Those steps are kept, in order and with their targets
renumbered; all of them can still be reached, and doing it again changes nothing. -/
theorem dead_code_is_dropped_exactly (code : List Step) :
    BlocksDivide code (buildBlocks code)
      ∧ (markReachable (buildBlocks code)).map Block.shape = (buildBlocks code).map Block.shape
      ∧ (∀ pc, (∃ b ∈ markReachable (buildBlocks code),
            b.reachable = true ∧ b.start ≤ pc ∧ pc < b.stop) ↔ StepReachable code pc)
      ∧ (∃ kept : List Nat, kept.Pairwise (· < ·) ∧ (∀ pc, pc ∈ kept ↔ StepReachable code pc)
          ∧ ∀ k : Nat, (removeUnreachable code)[k]? = kept[k]?.bind fun pc =>
              code[pc]?.map (Step.retarget (renumber kept)))
      ∧ (∀ k < (removeUnreachable code).length, StepReachable (removeUnreachable code) k)
      ∧ removeUnreachable (removeUnreachable code) = removeUnreachable code := by
  refine ⟨blocksDivide_buildBlocks code, (markReachable_spec code).1, fun pc => ?_,
    ⟨reachablePlaces code, reachablePlaces_sorted code, fun pc => mem_reachablePlaces,
      getElem?_removeUnreachable code⟩,
    fun k => stepReachable_removeUnreachable, removeUnreachable_removeUnreachable code⟩
  rw [← inReachableBlock_eq_true_iff]
  simp only [inReachableBlock, List.any_eq_true, Bool.and_eq_true, decide_eq_true_eq, and_assoc]

end StackMachine
