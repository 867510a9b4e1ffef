import StackMachine.Proofs.Native.GappedCode

/-! # Steps that control cannot reach

The marked blocks are closed under the flow of control: from a step of a marked block control
goes to a step of a marked block, or out of the code. So dropping the other steps changes no run
from the start.
-/

namespace StackMachine

/-! ## Where blocks start -/

theorem leaders_sorted (code : List Step) : (leaders code).Pairwise (· < ·) :=
  List.pairwise_lt_range.filter _

theorem mem_leaders {code : List Step} {pc : Nat} :
    pc ∈ leaders code ↔ pc < code.length ∧ isLeader code pc = true := by
  simp [leaders]

theorem isLeader_after_terminator {code : List Step} {pc : Nat} {step : Step}
    (here : code[pc]? = some step) (terminates : step.isTerminator = true) :
    isLeader code (pc + 1) = true := by
  simp [isLeader, here, terminates]

/-- In a strictly increasing list of starts, the numbered block is the one that holds the
place. -/
theorem blockAt_spec {starts : List Nat} {first pc : Nat} (sorted : starts.Pairwise (· < ·))
    (head : starts.head? = some first) (le : first ≤ pc) :
    ∃ start, starts[blockAt starts pc]? = some start ∧ start ≤ pc
      ∧ ∀ stop, starts[blockAt starts pc + 1]? = some stop → pc < stop := by
  induction starts generalizing first with
  | nil => simp at head
  | cons s rest ih =>
      simp only [List.head?_cons, Option.some.injEq] at head
      subst head
      rw [List.pairwise_cons] at sorted
      have counted : blockAt (s :: rest) pc = rest.countP (· ≤ pc) := by
        simp [blockAt, le]
      rcases rest with _ | ⟨second, rest⟩
      · exact ⟨s, by simp [counted], le, by simp [counted]⟩
      · by_cases beyond : second ≤ pc
        · obtain ⟨start, at_start, start_le, before⟩ := ih sorted.2 rfl beyond
          have next : blockAt (s :: second :: rest) pc = blockAt (second :: rest) pc + 1 := by
            rw [counted]
            simp [blockAt, beyond]
          rw [next]
          exact ⟨start, by simpa using at_start, start_le, by simpa using before⟩
        · have none : (second :: rest).countP (· ≤ pc) = 0 := by
            rw [List.countP_eq_zero]
            intro x mem
            have above : second ≤ x := by
              rcases List.mem_cons.mp mem with rfl | later
              · exact Nat.le_refl _
              · exact Nat.le_of_lt ((List.pairwise_cons.mp sorted.2).1 x later)
            simp only [decide_eq_true_eq]
            omega
          rw [counted, none]
          refine ⟨s, rfl, le, ?_⟩
          intro stop at_stop
          simp only [Nat.zero_add, List.getElem?_cons_succ, List.getElem?_cons_zero,
            Option.some.injEq] at at_stop
          omega

/-- Nothing in a strictly increasing list lies between two neighbours. -/
theorem not_mem_between {starts : List Nat} {k start stop x : Nat}
    (sorted : starts.Pairwise (· < ·)) (at_start : starts[k]? = some start)
    (at_stop : ∀ s, starts[k + 1]? = some s → stop ≤ s) (after : start < x) (before : x < stop) :
    x ∉ starts := by
  intro mem
  obtain ⟨j, bound, at_j⟩ := List.getElem_of_mem mem
  obtain ⟨bound_k, at_k⟩ := List.getElem?_eq_some_iff.mp at_start
  have ordered : ∀ a b (ha : a < starts.length) (hb : b < starts.length), a < b →
      starts[a] < starts[b] := List.pairwise_iff_getElem.mp sorted
  rcases Nat.lt_trichotomy j k with lt | eq | gt
  · have := ordered j k bound bound_k lt
    omega
  · subst eq
    omega
  · have next_bound : k + 1 < starts.length := by omega
    have stop_le := at_stop _ (List.getElem?_eq_getElem next_bound)
    rcases Nat.lt_or_ge (k + 1) j with lt | ge
    · have := ordered (k + 1) j next_bound bound lt
      omega
    · have eq : j = k + 1 := by omega
      subst eq
      omega

/-! ## The blocks -/

def blockStop (code : List Step) (starts : List Nat) (k : Nat) : Nat :=
  starts[k + 1]?.getD code.length

def numberedBlock (code : List Step) (starts : List Nat) (k start : Nat) : Block :=
  let stop := blockStop code starts k
  ⟨start, stop, nextBlocks starts code.length code[stop - 1]? stop, false⟩

theorem getElem?_blocksAt (code : List Step) (starts from_ : List Nat) (k : Nat) :
    (blocksAt code starts from_)[k]? = from_[k]?.map fun start =>
      let stop := blockStop code from_ k
      ⟨start, stop, nextBlocks starts code.length code[stop - 1]? stop, false⟩ := by
  fun_induction blocksAt code starts from_ generalizing k with
  | case1 => rfl
  | case2 start =>
      cases k with
      | zero => rfl
      | succ k => simp
  | case3 start stop rest ih =>
      cases k with
      | zero => rfl
      | succ k =>
          rw [List.getElem?_cons_succ, ih]
          rfl

theorem getElem?_buildBlocks (code : List Step) (k : Nat) :
    (buildBlocks code)[k]? = (leaders code)[k]?.map (numberedBlock code (leaders code) k) :=
  getElem?_blocksAt code (leaders code) (leaders code) k

/-! ## Marking -/

def Block.shape (b : Block) : Nat × Nat × List Nat := (b.start, b.stop, b.next)

def IsMarked (blocks : List Block) (k : Nat) : Prop :=
  ∃ b, blocks[k]? = some b ∧ b.reachable = true

/-- The blocks that follow a marked block are marked or pending. -/
def MarkedUpTo (blocks : List Block) (pending : List Nat) : Prop :=
  ∀ (k : Nat) (b : Block), blocks[k]? = some b → b.reachable = true →
    ∀ j ∈ b.next, j < blocks.length →
    j ∈ pending ∨ IsMarked blocks j

section Mark

variable {blocks : List Block} {id : Nat}

theorem getElem?_set_mark (bound : id < blocks.length) (k : Nat) :
    (blocks.set id { blocks[id] with reachable := true })[k]?
      = if k = id then some { blocks[id] with reachable := true } else blocks[k]? := by
  rw [List.getElem?_set]
  by_cases eq : id = k
  · subst eq
    simp [bound]
  · simp [eq, Ne.symm eq]

theorem isMarked_set_mark (bound : id < blocks.length) {k : Nat}
    (marked : k = id ∨ IsMarked blocks k) :
    IsMarked (blocks.set id { blocks[id] with reachable := true }) k := by
  by_cases eq : k = id
  · exact ⟨_, by rw [getElem?_set_mark bound, if_pos eq], rfl⟩
  · obtain ⟨b, at_k, reachable⟩ := marked.resolve_left eq
    exact ⟨b, by rw [getElem?_set_mark bound, if_neg eq, at_k], reachable⟩

theorem map_shape_set_mark (bound : id < blocks.length) :
    (blocks.set id { blocks[id] with reachable := true }).map Block.shape
      = blocks.map Block.shape := by
  refine List.ext_getElem? fun k => ?_
  rw [List.getElem?_map, List.getElem?_map, getElem?_set_mark bound]
  split
  · rename_i eq
    subst eq
    rw [List.getElem?_eq_getElem bound]
    rfl
  · rfl

/-- Marking a block and putting off those that follow it. -/
theorem MarkedUpTo.set_mark {rest : List Nat} (upTo : MarkedUpTo blocks (id :: rest))
    (bound : id < blocks.length) :
    MarkedUpTo (blocks.set id { blocks[id] with reachable := true })
      (blocks[id].next ++ rest) := by
  intro k b at_k reachable j follows inside
  rw [List.length_set] at inside
  rw [getElem?_set_mark bound] at at_k
  split at at_k
  · cases at_k
    exact .inl (List.mem_append_left _ follows)
  · rcases upTo k b at_k reachable j follows inside with pending | marked
    · rcases List.mem_cons.mp pending with eq | later
      · exact .inr (isMarked_set_mark bound (.inl eq))
      · exact .inl (List.mem_append_right _ later)
    · exact .inr (isMarked_set_mark bound (.inr marked))

/-- Passing over a pending block that is marked, or that is none. -/
theorem MarkedUpTo.skip {rest : List Nat} (upTo : MarkedUpTo blocks (id :: rest))
    (done : id < blocks.length → IsMarked blocks id) : MarkedUpTo blocks rest := by
  intro k b at_k reachable j follows inside
  rcases upTo k b at_k reachable j follows inside with pending | marked
  · rcases List.mem_cons.mp pending with rfl | later
    · exact .inr (done inside)
    · exact .inl later
  · exact .inr marked

theorem covered_of_skip {rest : List Nat} {k : Nat} (done : id < blocks.length → IsMarked blocks id)
    (covered : IsMarked blocks k ∨ (k ∈ id :: rest ∧ k < blocks.length)) :
    IsMarked blocks k ∨ (k ∈ rest ∧ k < blocks.length) := by
  rcases covered with marked | ⟨pending, inside⟩
  · exact .inl marked
  · rcases List.mem_cons.mp pending with rfl | later
    · exact .inl (done inside)
    · exact .inr ⟨later, inside⟩

end Mark

/-- Marking ends with the shapes unchanged, with all that was marked or pending marked, and with
the marked blocks closed. -/
theorem markBlocks_spec {blocks : List Block} {pending : List Nat}
    (upTo : MarkedUpTo blocks pending) :
    (markBlocks blocks pending).map Block.shape = blocks.map Block.shape
      ∧ (∀ k, IsMarked blocks k ∨ (k ∈ pending ∧ k < blocks.length) →
          IsMarked (markBlocks blocks pending) k)
      ∧ MarkedUpTo (markBlocks blocks pending) [] := by
  fun_induction markBlocks blocks pending with
  | case1 blocks =>
      refine ⟨rfl, ?_, upTo⟩
      rintro k (marked | ⟨none, _⟩)
      · exact marked
      · exact absurd none (List.not_mem_nil)
  | case2 blocks id rest bound seen ih =>
      have done : id < blocks.length → IsMarked blocks id :=
        fun _ => ⟨_, List.getElem?_eq_getElem bound, seen⟩
      obtain ⟨shapes, covered, closed⟩ := ih (upTo.skip done)
      exact ⟨shapes, fun k before => covered k (covered_of_skip done before), closed⟩
  | case3 blocks id rest bound unseen ih =>
      obtain ⟨shapes, covered, closed⟩ := ih (upTo.set_mark bound)
      refine ⟨shapes.trans (map_shape_set_mark bound), ?_, closed⟩
      rintro k (marked | ⟨pending, inside⟩)
      · exact covered k (.inl (isMarked_set_mark bound (.inr marked)))
      · rcases List.mem_cons.mp pending with eq | later
        · exact covered k (.inl (isMarked_set_mark bound (.inl eq)))
        · exact covered k
            (.inr ⟨List.mem_append_right _ later, by rw [List.length_set]; exact inside⟩)
  | case4 blocks id rest outside ih =>
      have done : id < blocks.length → IsMarked blocks id := fun inside => absurd inside outside
      obtain ⟨shapes, covered, closed⟩ := ih (upTo.skip done)
      exact ⟨shapes, fun k before => covered k (covered_of_skip done before), closed⟩

/-! ## The flow of control between marked blocks -/

section Marked

variable {code : List Step}

def InMarkedBlock (code : List Step) (pc : Nat) : Prop :=
  ∃ k start, (leaders code)[k]? = some start ∧ start ≤ pc
    ∧ pc < blockStop code (leaders code) k ∧ IsMarked (markReachable (buildBlocks code)) k

theorem markReachable_spec (code : List Step) :
    (markReachable (buildBlocks code)).map Block.shape = (buildBlocks code).map Block.shape
      ∧ (0 < (buildBlocks code).length → IsMarked (markReachable (buildBlocks code)) 0)
      ∧ MarkedUpTo (markReachable (buildBlocks code)) [] := by
  have unmarked : MarkedUpTo (buildBlocks code) [0] := by
    intro k b at_k reachable
    rw [getElem?_buildBlocks, Option.map_eq_some_iff] at at_k
    obtain ⟨start, _, rfl⟩ := at_k
    simp [numberedBlock] at reachable
  obtain ⟨shapes, covered, closed⟩ := markBlocks_spec unmarked
  exact ⟨shapes, fun some => covered 0 (.inr ⟨by simp, some⟩), closed⟩

/-- Marked blocks have the shape they were built with. -/
theorem shape_of_marked {k : Nat} {b : Block}
    (at_k : (markReachable (buildBlocks code))[k]? = some b) :
    ∃ start, (leaders code)[k]? = some start
      ∧ b.shape = (numberedBlock code (leaders code) k start).shape := by
  have shapes := congrArg (·[k]?) (markReachable_spec code).1
  simp only [List.getElem?_map, at_k, getElem?_buildBlocks, Option.map_some] at shapes
  cases at_start : (leaders code)[k]? with
  | none => simp [at_start] at shapes
  | some start =>
      refine ⟨start, rfl, ?_⟩
      simpa [at_start] using shapes

theorem inReachableBlock_iff (pc : Nat) :
    inReachableBlock (markReachable (buildBlocks code)) pc = true ↔ InMarkedBlock code pc := by
  simp only [inReachableBlock, List.any_eq_true, Bool.and_eq_true, decide_eq_true_eq]
  constructor
  · rintro ⟨b, mem, ⟨reachable, after⟩, before⟩
    obtain ⟨k, bound, at_k⟩ := List.getElem_of_mem mem
    have at_k? : (markReachable (buildBlocks code))[k]? = some b :=
      List.getElem?_eq_some_iff.mpr ⟨bound, at_k⟩
    obtain ⟨start, at_start, shape⟩ := shape_of_marked at_k?
    simp only [Block.shape, numberedBlock, Prod.mk.injEq] at shape
    exact ⟨k, start, at_start, by omega, by omega, b, at_k?, reachable⟩
  · rintro ⟨k, start, at_start, after, before, b, at_k, reachable⟩
    obtain ⟨start', at_start', shape⟩ := shape_of_marked at_k
    rw [at_start] at at_start'
    cases at_start'
    simp only [Block.shape, numberedBlock, Prod.mk.injEq] at shape
    exact ⟨b, List.mem_of_getElem? at_k, ⟨reachable, by omega⟩, by omega⟩

theorem head?_leaders (some_step : 0 < code.length) : (leaders code).head? = some 0 := by
  obtain ⟨n, length_eq⟩ : ∃ n, code.length = n + 1 := ⟨code.length - 1, by omega⟩
  have zero : isLeader code 0 = true := by simp [isLeader]
  rw [leaders, length_eq, List.range_succ_eq_map, List.filter_cons_of_pos zero, List.head?_cons]

/-- The block with the number of a place holds the place. -/
theorem mem_blockAt {pc : Nat} (bound : pc < code.length) :
    ∃ start, (leaders code)[blockAt (leaders code) pc]? = some start ∧ start ≤ pc
      ∧ pc < blockStop code (leaders code) (blockAt (leaders code) pc) := by
  obtain ⟨start, at_start, after, before⟩ :=
    blockAt_spec (leaders_sorted code) (head?_leaders (by omega)) (Nat.zero_le pc)
  refine ⟨start, at_start, after, ?_⟩
  rw [blockStop]
  cases at_stop : (leaders code)[blockAt (leaders code) pc + 1]? with
  | none => exact bound
  | some stop => exact before stop at_stop

theorem inMarkedBlock_start (some_step : 0 < code.length) : InMarkedBlock code 0 := by
  have head := head?_leaders some_step
  rw [List.head?_eq_getElem?] at head
  have block : 0 < (buildBlocks code).length := by
    have at_zero := getElem?_buildBlocks code 0
    rw [head] at at_zero
    exact (List.getElem?_eq_some_iff.mp at_zero).1
  obtain ⟨start, at_start, _, before⟩ := mem_blockAt some_step
  have first : blockAt (leaders code) 0 = 0 := by
    obtain ⟨bound, _⟩ := List.getElem?_eq_some_iff.mp at_start
    rcases Nat.eq_zero_or_pos (blockAt (leaders code) 0) with zero | pos
    · exact zero
    · have ordered := List.pairwise_iff_getElem.mp (leaders_sorted code) 0 _ (by omega) bound pos
      have := (List.getElem?_eq_some_iff.mp at_start).2
      omega
  rw [first] at before
  exact ⟨0, 0, head, Nat.le_refl 0, before, (markReachable_spec code).2.1 block⟩

theorem le_blockStop (k : Nat) : ∀ s, (leaders code)[k + 1]? = some s →
    blockStop code (leaders code) k ≤ s := by
  intro s at_s
  simp [blockStop, at_s]

theorem blockStop_le (k : Nat) : blockStop code (leaders code) k ≤ code.length := by
  rw [blockStop]
  cases at_stop : (leaders code)[k + 1]? with
  | none => exact Nat.le_refl _
  | some stop => exact Nat.le_of_lt (mem_leaders.mp (List.mem_of_getElem? at_stop)).1

/-- Only the last step of a block can end it. -/
theorem not_terminator_of_inner {k start pc : Nat} {step : Step}
    (at_start : (leaders code)[k]? = some start) (after : start ≤ pc)
    (inner : pc + 1 < blockStop code (leaders code) k) (here : code[pc]? = some step) :
    ¬ step.isTerminator = true := by
  intro terminates
  have bound : pc + 1 < code.length := Nat.lt_of_lt_of_le inner (blockStop_le k)
  exact not_mem_between (leaders_sorted code) at_start (le_blockStop k) (by omega) inner
    (mem_leaders.mpr ⟨bound, isLeader_after_terminator here terminates⟩)

/-- Where control goes from a marked block, the block is marked. -/
theorem inMarkedBlock_of_follows {k start pc : Nat} (at_start : (leaders code)[k]? = some start)
    (marked : IsMarked (markReachable (buildBlocks code)) k) (bound : pc < code.length)
    (follows : blockAt (leaders code) pc ∈ (numberedBlock code (leaders code) k start).next) :
    InMarkedBlock code pc := by
  obtain ⟨b, at_k, reachable⟩ := marked
  obtain ⟨start', at_start', shape⟩ := shape_of_marked at_k
  rw [at_start] at at_start'
  cases at_start'
  have next_eq : b.next = (numberedBlock code (leaders code) k start).next :=
    congrArg (·.2.2) shape
  obtain ⟨next_start, at_next, after, before⟩ := mem_blockAt bound
  have is_block :
      blockAt (leaders code) pc < (markReachable (buildBlocks code)).length := by
    have lengths := congrArg List.length (markReachable_spec code).1
    have built := getElem?_buildBlocks code (blockAt (leaders code) pc)
    rw [at_next] at built
    have := (List.getElem?_eq_some_iff.mp built).1
    simp only [List.length_map] at lengths
    omega
  rcases (markReachable_spec code).2.2 k b at_k reachable _ (next_eq ▸ follows) is_block with
    none | marked
  · exact absurd none List.not_mem_nil
  · exact ⟨_, next_start, at_next, after, before, marked⟩

/-- From a step of a marked block control goes to a step of a marked block, or out of the
code. -/
theorem InMarkedBlock.leads {pc next : Nat} {step : Step} (inside : InMarkedBlock code pc)
    (here : code[pc]? = some step) (leads : step.LeadsTo pc next) (bound : next < code.length) :
    InMarkedBlock code next := by
  obtain ⟨k, start, at_start, after, before, marked⟩ := inside
  rcases leads with ⟨rfl, falls⟩ | target
  · by_cases last : pc + 1 < blockStop code (leaders code) k
    · exact ⟨k, start, at_start, by omega, last, marked⟩
    · have stop_eq : blockStop code (leaders code) k = pc + 1 := by omega
      refine inMarkedBlock_of_follows at_start marked bound ?_
      simp [numberedBlock, stop_eq, nextBlocks, here, falls, bound]
  · have terminates : step.isTerminator = true := by simp [Step.isTerminator, target]
    have stop_eq : blockStop code (leaders code) k = pc + 1 := by
      rcases Nat.lt_or_ge (pc + 1) (blockStop code (leaders code) k) with inner | outer
      · exact absurd terminates (not_terminator_of_inner at_start after inner here)
      · omega
    refine inMarkedBlock_of_follows at_start marked bound ?_
    simp [numberedBlock, stop_eq, nextBlocks, here, target, bound]

end Marked

/-! ## Dropping the other steps -/

theorem getElem?_reachableFlags {code : List Step} {pc : Nat} (bound : pc < code.length) :
    (reachableFlags code)[pc]?
      = some (inReachableBlock (markReachable (buildBlocks code)) pc) := by
  simp [reachableFlags, bound]

/-- In a marked block, and outside of the code, the code is unchanged. -/
theorem getElem?_ofFlagged_reachable {code : List Step} {pc : Nat}
    (inside : pc < code.length → InMarkedBlock code pc) :
    (GappedCode.ofFlagged (code.zip (reachableFlags code)))[pc]? = (GappedCode.full code)[pc]? := by
  rw [GappedCode.full, List.getElem?_map]
  cases here : code[pc]? with
  | none => exact GappedCode.getElem?_ofFlagged_zip_none _ here
  | some step =>
      have bound := (List.getElem?_eq_some_iff.mp here).1
      have marked := (inReachableBlock_iff pc).mpr (inside bound)
      rw [GappedCode.getElem?_ofFlagged_zip here (getElem?_reachableFlags bound), marked]
      rfl

theorem condenses_removeUnreachable (c : NativeContext) (code : List Step) :
    GappedCode.Condenses c (.full code) (.full (removeUnreachable code)) := by
  refine .trans (.of_eq fun fuel s start => ?_) (.compactFlagged (code.zip (reachableFlags code)))
  let inside (s : NativeState) : Prop := s.pc < code.length → InMarkedBlock code s.pc
  have same : ∀ s, inside s → (GappedCode.full code).next c s
      = (GappedCode.ofFlagged (code.zip (reachableFlags code))).next c s := by
    intro s inside
    simp only [GappedCode.next, getElem?_ofFlagged_reachable inside]
  have kept : ∀ s t, inside s → (GappedCode.full code).next c s = .ok (.next t) → inside t := by
    intro s t inside next bound
    cases here : code[s.pc]? with
    | none =>
        rw [GappedCode.next_of_end (by simp [GappedCode.full, here])] at next
        cases next
    | some step =>
        have at_pc : (GappedCode.full code)[s.pc]? = some (some step) := by
          simp [GappedCode.full, here]
        rw [GappedCode.next_of_step at_pc] at next
        have in_block := inside (List.getElem?_eq_some_iff.mp here).1
        exact in_block.leads here (NativeState.leadsTo_of_step next) bound
  have started : inside s := by
    intro some_step
    rw [start] at some_step ⊢
    exact inMarkedBlock_start some_step
  exact GappedCode.run_congr same kept fuel started

end StackMachine
