import StackMachine.Proofs.Native.Invocation

/-! # Functions that can be compiled are compiled

The blocks and the kinds are found by two searches of the same code. Every step of a marked block
is one that control can reach from the start, so its kinds are known, and kinds are known only of
what native code can hold. What is left after the passes is therefore native, and the compiler
compiles every function that it says it can.
-/

namespace StackMachine

/-! ## Only what control can reach is marked -/

/-- What holds of the marked and the pending blocks, and of the blocks that follow one of which
it holds, holds of all that marking marks. -/
theorem IsMarked.of_markBlocks {blocks : List Block} {pending : List Nat} {holds : Nat → Prop}
    (before : ∀ k, IsMarked blocks k → holds k)
    (waiting : ∀ k ∈ pending, k < blocks.length → holds k)
    (follow : ∀ k b, blocks[k]? = some b → holds k → ∀ j ∈ b.next, j < blocks.length → holds j)
    {k : Nat} (marked : IsMarked (markBlocks blocks pending) k) : holds k := by
  fun_induction markBlocks blocks pending with
  | case1 blocks => exact before k marked
  | case2 blocks id rest bound seen ih =>
      exact ih before (fun j member => waiting j (List.mem_cons_of_mem _ member)) follow marked
  | case3 blocks id rest bound unseen ih =>
      have here : holds id := waiting id List.mem_cons_self bound
      refine ih ?_ ?_ ?_ marked
      · rintro j ⟨b, at_j, reachable⟩
        by_cases same : j = id
        · rw [same]
          exact here
        · rw [getElem?_set_mark bound, if_neg same] at at_j
          exact before j ⟨b, at_j, reachable⟩
      · intro j member inside
        rw [List.length_set] at inside
        rcases List.mem_append.mp member with follows | later
        · exact follow id _ (List.getElem?_eq_getElem bound) here j follows inside
        · exact waiting j (List.mem_cons_of_mem _ later) inside
      · intro j b at_j holds_j next follows inside
        rw [List.length_set] at inside
        rw [getElem?_set_mark bound] at at_j
        split at at_j
        · cases at_j
          exact follow id _ (List.getElem?_eq_getElem bound) here next follows inside
        · exact follow j b at_j holds_j next follows inside
  | case4 blocks id rest outside ih =>
      exact ih before (fun j member => waiting j (List.mem_cons_of_mem _ member)) follow marked

section Reached

variable {code : List Step} {pc : Nat}

theorem Step.fallsThrough_of_not_terminator {step : Step} (goes : ¬ step.isTerminator = true) :
    step.fallsThrough = true := by
  cases step with
  | push v => rfl
  | op i =>
      cases opcode : i.opcode with
      | ret | jmp =>
          simp [Step.isTerminator, Step.target?, Step.opcode?, opcode, Opcode.isJump] at goes
      | _ => simp [Step.fallsThrough, Step.opcode?, opcode]

/-- A place where a block starts is the start of the block that it has the number of. -/
theorem start_blockAt {pc : Nat} (leader : pc ∈ leaders code) :
    (leaders code)[blockAt (leaders code) pc]? = some pc := by
  obtain ⟨start, at_start, after, before⟩ := mem_blockAt (mem_leaders.mp leader).1
  rcases Nat.lt_or_eq_of_le after with inner | rfl
  · exact absurd leader
      (not_mem_between (leaders_sorted code) at_start (le_blockStop _) inner before)
  · exact at_start

theorem isLeader_of_target {pc target : Nat} {step : Step} (here : code[pc]? = some step)
    (jumps : step.target? = some target) : isLeader code target = true := by
  have member := List.mem_of_getElem? here
  simp only [isLeader, Bool.or_eq_true, List.any_eq_true, beq_iff_eq]
  exact .inl (.inr ⟨step, member, jumps⟩)

theorem lt_blockStop {k start : Nat} (at_start : (leaders code)[k]? = some start) :
    start < blockStop code (leaders code) k := by
  rw [blockStop]
  cases at_stop : (leaders code)[k + 1]? with
  | none => exact (mem_leaders.mp (List.mem_of_getElem? at_start)).1
  | some stop =>
      obtain ⟨bound, rfl⟩ := List.getElem?_eq_some_iff.mp at_start
      obtain ⟨bound', rfl⟩ := List.getElem?_eq_some_iff.mp at_stop
      exact List.pairwise_iff_getElem.mp (leaders_sorted code) k (k + 1) bound bound' (by omega)

/-- After a block that is not the last one, a block starts. -/
theorem blockStop_mem_leaders {k : Nat} (inside : blockStop code (leaders code) k < code.length) :
    blockStop code (leaders code) k ∈ leaders code := by
  rw [blockStop] at inside ⊢
  cases at_stop : (leaders code)[k + 1]? with
  | none =>
      rw [at_stop] at inside
      exact absurd inside (Nat.lt_irrefl _)
  | some stop => exact List.mem_of_getElem? at_stop

/-- What holds at a step holds wherever control goes from there. -/
def FlowClosed (code : List Step) (known : Nat → Prop) : Prop :=
  ∀ (pc : Nat) (step : Step) (next : Nat), code[pc]? = some step → known pc →
    step.LeadsTo pc next → next < code.length → known next

variable {known : Nat → Prop}

/-- Control goes through a block from its start to its last step. -/
theorem FlowClosed.inBlock (closed : FlowClosed code known) {k start pc : Nat}
    (at_start : (leaders code)[k]? = some start) (known_start : known start) (after : start ≤ pc)
    (before : pc < blockStop code (leaders code) k) : known pc := by
  induction pc with
  | zero =>
      obtain rfl : start = 0 := by omega
      exact known_start
  | succ pc ih =>
      by_cases first : start = pc + 1
      · rw [← first]
        exact known_start
      · have bound : pc + 1 < code.length := Nat.lt_of_lt_of_le before (blockStop_le k)
        have here : code[pc]? = some code[pc] := List.getElem?_eq_getElem (by omega)
        have falls := Step.fallsThrough_of_not_terminator
          (not_terminator_of_inner at_start (by omega) before here)
        have known_pc : known pc := ih (by omega) (by omega)
        exact closed pc _ _ here known_pc (.inl ⟨rfl, falls⟩) bound

/-- From a block control goes to the starts of the blocks that follow. -/
theorem FlowClosed.nextBlock (closed : FlowClosed code known) {k start j first : Nat}
    (at_start : (leaders code)[k]? = some start) (known_start : known start)
    (follows : j ∈ (numberedBlock code (leaders code) k start).next)
    (at_first : (leaders code)[j]? = some first) : known first := by
  have some_step := lt_blockStop at_start
  simp only [numberedBlock, nextBlocks] at follows
  cases here : code[blockStop code (leaders code) k - 1]? with
  | none => simp [here] at follows
  | some step =>
      have known_last : known (blockStop code (leaders code) k - 1) :=
        closed.inBlock at_start known_start (by omega) (by omega)
      have last : blockStop code (leaders code) k - 1 + 1 = blockStop code (leaders code) k := by
        omega
      simp only [here, List.mem_append] at follows
      rcases follows with jumped | fallen
      · cases jumps : step.target? with
        | none => simp [jumps] at jumped
        | some target =>
            simp only [jumps] at jumped
            split at jumped
            · rename_i bound
              obtain rfl := List.mem_singleton.mp jumped
              rw [start_blockAt (mem_leaders.mpr ⟨bound, isLeader_of_target here jumps⟩)]
                at at_first
              cases at_first
              exact closed _ step _ here known_last (.inr jumps) bound
            · cases jumped
      · split at fallen
        · rename_i goes
          simp only [Bool.and_eq_true, decide_eq_true_eq] at goes
          obtain rfl := List.mem_singleton.mp fallen
          rw [start_blockAt (blockStop_mem_leaders goes.2)] at at_first
          cases at_first
          exact closed _ step _ here known_last (.inl ⟨last.symm, goes.1⟩) goes.2
        · cases fallen

/-- What holds at the start of the code, and wherever control goes from there, holds in all marked
blocks. -/
theorem InMarkedBlock.holds (inside : InMarkedBlock code pc) (closed : FlowClosed code known)
    (at_zero : known 0) : known pc := by
  obtain ⟨k, start, at_start, after, before, marked⟩ := inside
  let startsKnown (j : Nat) : Prop := ∀ first, (leaders code)[j]? = some first → known first
  have known_starts : startsKnown k := by
    refine marked.of_markBlocks ?_ ?_ ?_
    · rintro j ⟨b, at_j, reachable⟩
      rw [getElem?_buildBlocks, Option.map_eq_some_iff] at at_j
      obtain ⟨_, _, rfl⟩ := at_j
      simp [numberedBlock] at reachable
    · intro j member _ first at_first
      obtain rfl : j = 0 := by simpa using member
      have some_step : 0 < code.length :=
        Nat.zero_lt_of_lt (mem_leaders.mp (List.mem_of_getElem? at_first)).1
      have head := head?_leaders some_step
      rw [List.head?_eq_getElem?, at_first] at head
      cases head
      exact at_zero
    · intro j b at_j known_j next follows _ first at_first
      rw [getElem?_buildBlocks, Option.map_eq_some_iff] at at_j
      obtain ⟨start_j, at_start_j, rfl⟩ := at_j
      exact closed.nextBlock at_start_j (known_j start_j at_start_j) follows at_first
  exact closed.inBlock at_start (known_starts start at_start) after before

end Reached

/-! ## What the passes keep -/

def AllNative (code : List Step) : Prop := ∀ step ∈ code, step.isNative = true

theorem checkSteps_of_allNative {code : List Step} (native : AllNative code) :
    checkSteps code = .ok () := by
  induction code with
  | nil => rfl
  | cons step rest ih =>
      have rest_ok := ih fun other member => native other (List.mem_cons_of_mem _ member)
      have here := native step List.mem_cons_self
      cases step with
      | push v => exact rest_ok
      | op i => simp only [checkSteps, here, if_true, rest_ok]

theorem Step.isNative_retarget (g : Nat → Nat) (step : Step) :
    (step.retarget g).isNative = step.isNative := by
  cases step with
  | push v => rfl
  | op i =>
      simp only [Step.retarget]
      split <;> rfl

/-- Compacted code is native if the kept steps are. -/
theorem allNative_compact {code : List Step} {keep : List Bool}
    (native : ∀ (pc : Nat) (step : Step), code[pc]? = some step → keep[pc]? = some true →
      step.isNative = true) : AllNative (compact code keep) := by
  intro step member
  simp only [compact, List.mem_filterMap] at member
  obtain ⟨⟨plain, kept⟩, zipped, image⟩ := member
  split at image
  · rename_i is_kept
    cases image
    obtain ⟨pc, at_pc⟩ := List.mem_iff_getElem?.mp zipped
    obtain ⟨here, flag⟩ := List.getElem?_zip_eq_some.mp at_pc
    obtain rfl : kept = true := is_kept
    rw [Step.isNative_retarget]
    exact native pc plain here flag
  · cases image

theorem AllNative.removeRedundantJumps {code : List Step} (native : AllNative code) :
    AllNative (removeRedundantJumps code) :=
  allNative_compact fun _ step here _ => native step (List.mem_of_getElem? here)

theorem AllNative.foldConstants {lane : Lane} {code : List Step} (native : AllNative code) :
    AllNative (foldConstants lane code) := by
  obtain ⟨_, folded⟩ := (Folding.Invariant.initially ⟨"", lane, false, .empty 0 false⟩ code).run
    (fun _ => .nil 0) List.drop_zero
  refine allNative_compact fun pc step here _ => ?_
  rw [Array.getElem?_toList] at here
  cases step with
  | push v => rfl
  | op i => exact native _ (List.mem_of_getElem? (folded.operations pc i here))

/-! ## Known kinds -/

section Kinds

variable {p : Program} {f : LinkedFunction} {lane : Lane} {steps : List Step}
  {states : Array (Option (KindState f.locals))}

theorem opcode_of_lowered_push {i : Instruction} {w : Int64}
    (lowered : lowerInstruction p f i = .ok (.push w)) : i.opcode = .ldc := by
  unfold lowerInstruction at lowered
  split at lowered
  · assumption
  · cases lowered

def KindsKnown (states : Array (Option (KindState f.locals))) (pc : Nat) : Prop :=
  ∃ kinds, states[pc]? = some (some kinds)

/-- Kinds that go well go through an instruction that native code can hold. -/
theorem isNative_of_after {n : Nat} {kinds after : KindState n} {i : Instruction}
    (goes : kinds.after f i = .ok after) (other : i.opcode ≠ .ldc) :
    (Step.op i).isNative = true := by
  cases opcode : i.opcode with
  | ldc => exact absurd opcode other
  | call | newarr | print | halt =>
      simp only [KindState.after, opcode] at goes
      cases goes
  | _ => simp [Step.isNative, opcode]

theorem Compiled.known_step (compiled : Compiled p f lane steps states) {pc : Nat} {step : Step}
    (known : KindsKnown states pc) (here : steps[pc]? = some step) :
    step.isNative = true ∧ ∀ next, step.LeadsTo pc next → KindsKnown states next := by
  obtain ⟨kinds, at_pc⟩ := known
  obtain ⟨i, code, lowered⟩ := getElem?_of_lowerAll compiled.lowered here
  have at_code : f.code[pc]? = some i := by simpa using code
  obtain ⟨after, goes, edges⟩ := compiled.settled pc kinds i at_pc at_code
  have arrives : ∀ next ∈ i.branches pc, KindsKnown states next := by
    intro next branch
    obtain ⟨assumed, at_next, _⟩ := edges next branch
    exact ⟨assumed, at_next⟩
  cases step with
  | push w =>
      have opcode := opcode_of_lowered_push lowered
      refine ⟨rfl, fun next leads => arrives next ?_⟩
      rcases leads with ⟨rfl, _⟩ | target
      · simp [Instruction.branches, opcode]
      · cases target
  | op i' =>
      obtain ⟨rfl, other⟩ := lowerInstruction_op lowered
      have native := isNative_of_after (KindState.after_of_step other goes) other
      exact ⟨native, fun next leads => arrives next (branches_of_leadsTo leads)⟩

theorem Compiled.flowClosed (compiled : Compiled p f lane steps states) :
    FlowClosed steps (KindsKnown states) :=
  fun _ _ next here known leads _ => (compiled.known_step known here).2 next leads

theorem Compiled.allNative_removeUnreachable (compiled : Compiled p f lane steps states)
    (at_start : KindsKnown states 0) : AllNative (removeUnreachable steps) := by
  refine allNative_compact fun pc step here flag => ?_
  have bound := (List.getElem?_eq_some_iff.mp here).1
  rw [getElem?_reachableFlags bound, Option.some.injEq, inReachableBlock_iff] at flag
  have known := flag.holds compiled.flowClosed at_start
  exact (compiled.known_step known here).1

end Kinds

/-! ## Lowering -/

def LinkedFunction.Decodes (p : Program) (f : LinkedFunction) : Prop :=
  ∀ i ∈ f.code.toList, i.opcode = .ldc → ∃ v, p.constantValue i.arg = .ok v

section Lowering

variable {p : Program} {f : LinkedFunction} {lane : Lane}

theorem toLane?_of_constant {c : Constant} {index : Nat} {v : Value}
    (tag : c.tag = .int lane.kind ∨ c.tag = .bool) (value : c.value index = .ok v) :
    ∃ w, v.toLane? = some w := by
  unfold Constant.value at value
  split at value
  · cases value
  · rcases tag with tag | tag
    · rw [tag] at value
      cases value
      exact ⟨_, (toLane?_of_lane rfl).1⟩
    · rw [tag] at value
      cases value
      exact ⟨_, rfl⟩

theorem lowerInstruction_of_decodes {i : Instruction} (takes : lane.TakesConstant p i)
    (decodes : i.opcode = .ldc → ∃ v, p.constantValue i.arg = .ok v) :
    ∃ step, lowerInstruction p f i = .ok step := by
  by_cases opcode : i.opcode = .ldc
  · obtain ⟨v, decoded⟩ := decodes opcode
    obtain ⟨c, constant, tag⟩ := takes opcode
    have value : c.value i.arg = .ok v := by
      simpa only [Program.constantValue, constant, bind, Except.bind] using decoded
    obtain ⟨w, word⟩ := toLane?_of_constant tag value
    exact ⟨.push w, by simp only [lowerInstruction, opcode, if_true, decoded, word]⟩
  · exact ⟨.op i, by simp only [lowerInstruction, opcode, if_false]⟩

theorem lowerAll_of_forall {code : List Instruction}
    (each : ∀ i ∈ code, ∃ step, lowerInstruction p f i = .ok step) :
    ∃ steps, lowerAll p f code = .ok steps := by
  induction code with
  | nil => exact ⟨[], rfl⟩
  | cons i rest ih =>
      obtain ⟨step, first⟩ := each i List.mem_cons_self
      obtain ⟨steps, others⟩ := ih fun j member => each j (List.mem_cons_of_mem _ member)
      exact ⟨step :: steps, by simp only [lowerAll, first, others, bind, Except.bind, pure,
        Except.pure]⟩

/-- A function that can be compiled, and whose constants can be decoded, is compiled. -/
theorem compileFunction_of_analyze (decodes : f.Decodes p) (able : analyze p f = .ok lane) :
    ∃ native, compileFunction p f = .ok native := by
  obtain ⟨fits, states, stack, _, fit⟩ := fits_of_analyze able
  obtain ⟨steps, lowered⟩ : ∃ steps, lower p f = .ok steps :=
    lowerAll_of_forall fun i member =>
      lowerInstruction_of_decodes (fits.constants i member) (decodes i member)
  obtain ⟨assumed, at_start, _⟩ := fit.entry
  have compiled : Compiled p f lane steps states := ⟨fits, fit.size, fit.settled, lowered⟩
  have reachable := compiled.allNative_removeUnreachable ⟨assumed, at_start⟩
  have native : AllNative (optimize lane steps) := reachable.foldConstants.removeRedundantJumps
  refine ⟨⟨f.name, f.arity, f.locals, lane, f.returnsValue, (optimize lane steps).toArray⟩, ?_⟩
  simp only [compileFunction, able, lowered, checkSteps_of_allNative native, bind, Except.bind,
    pure, Except.pure]

end Lowering

end StackMachine
