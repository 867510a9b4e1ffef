import StackMachine.Proofs.Native.GappedCode

/-! # Arithmetic done in advance

A fold replaces two pushed words and an operation on them by one pushed word, where nothing but
gaps stands between the three and no jump leads in between. The scan knows exactly such words,
so that every fold that it makes keeps all runs from the start.
-/

namespace StackMachine

theorem BinaryOp.onWords_of_fold {lane : Lane} {op : BinaryOp} {a b v : Int64}
    (folded : foldWords lane op a b = some v) : op.onWords lane a b = .ok v := by
  cases op with
  | add | sub | mul =>
      simp only [foldWords, Option.some.injEq] at folded
      simp only [onWords, folded]
  | div =>
      by_cases zero : b = 0
      · simp [foldWords, zero] at folded
      · simp only [foldWords, zero, if_false, Option.some.injEq] at folded
        simp only [onWords, zero, if_false, folded]
  | _ => simp [foldWords] at folded

/-! ## Stretches of code that are passed without a branch -/

namespace GappedCode

inductive Passes (c : NativeContext) (code : GappedCode) : Nat → NativeState → NativeState → Prop
  where
  | refl (s : NativeState) : Passes c code 0 s s
  | head {n : Nat} {s u t : NativeState} (first : code.next c s = .ok (.next u))
      (rest : Passes c code n u t) : Passes c code (n + 1) s t

variable {c : NativeContext} {code code' : GappedCode}

theorem Passes.trans {n m : Nat} {s u t : NativeState} (first : Passes c code n s u)
    (rest : Passes c code m u t) : Passes c code (n + m) s t := by
  induction first with
  | refl s => simpa using rest
  | head step _ ih =>
      rw [Nat.add_right_comm]
      exact .head step (ih rest)

/-- A passed stretch takes its steps from the fuel; too little fuel gives nothing either way. -/
theorem Passes.run_eq {n : Nat} {s t : NativeState} (passes : Passes c code n s t) (fuel : Nat) :
    code.run c fuel s = code.run c (fuel - n) t := by
  induction passes generalizing fuel with
  | refl s => rfl
  | @head n s u t first _ ih =>
      cases fuel with
      | zero => simp [run]
      | succ fuel =>
          rw [run_of_next fuel first, ih fuel]
          congr 1
          omega

/-- Gaps are passed without effect. -/
theorem passes_gaps {s : NativeState} {last : Nat} (le : s.pc ≤ last)
    (gaps : ∀ q, s.pc ≤ q → q < last → code[q]? = some none) :
    Passes c code (last - s.pc) s { s with pc := last } := by
  induction ahead : last - s.pc generalizing s with
  | zero =>
      have same : s.pc = last := by omega
      subst same
      exact .refl s
  | succ ahead ih =>
      have gap : code[s.pc]? = some none := gaps s.pc (Nat.le_refl _) (by omega)
      refine .head (next_of_gap gap) (ih ?_ ?_ ?_)
      · dsimp only
        omega
      · intro q ge lt
        exact gaps q (by dsimp only at ge; omega) lt
      · dsimp only
        omega

/-- A push followed by gaps. -/
theorem passes_push {s : NativeState} {last : Nat} {v : Int64} (lt : s.pc < last)
    (pushes : code[s.pc]? = some (some (.push v)))
    (gaps : ∀ q, s.pc < q → q < last → code[q]? = some none) :
    Passes c code (last - s.pc) s { s with pc := last, stack := v :: s.stack } := by
  have pushed : code.next c s = .ok (.next { s with pc := s.pc + 1, stack := v :: s.stack }) := by
    rw [next_of_step pushes]
    rfl
  have count : last - s.pc = last - (s.pc + 1) + 1 := by omega
  have passed : Passes c code (last - (s.pc + 1)) { s with pc := s.pc + 1, stack := v :: s.stack }
      { s with pc := last, stack := v :: s.stack } :=
    passes_gaps (s := { s with pc := s.pc + 1, stack := v :: s.stack }) lt gaps
  rw [count]
  exact .head pushed passed

/-! ## One fold -/

/-- The second code has the result of an operation where the first has its operands. -/
structure Folds (c : NativeContext) (code code' : GappedCode) (lower upper pc : Nat) : Prop where
  ordered : lower < upper ∧ upper < pc
  gaps : ∀ q, lower < q → q < pc → q ≠ upper → code[q]? = some none
  operation : ∃ (a b v : Int64) (op : BinaryOp) (i : Instruction),
    code[lower]? = some (some (.push a)) ∧ code[upper]? = some (some (.push b))
      ∧ code[pc]? = some (some (.op i)) ∧ i.opcode = .binary op
      ∧ op.onWords c.lane a b = .ok v ∧ code'[lower]? = some (some (.push v))
  cleared : ∀ q, lower < q → q ≤ pc → code'[q]? = some none
  same : ∀ q, q < lower ∨ pc < q → code'[q]? = code[q]?
  /-- No jump leads between the operands and the operation. -/
  untargeted : ∀ (q : Nat) (step : Step) (target : Nat),
    code[q]? = some (some step) → step.target? = some target → target ≤ lower ∨ pc < target

namespace Folds

variable {lower upper pc : Nat}

/-- Both codes pass the fold in the same number of steps, with the same word on the stack. -/
theorem passes (folds : Folds c code code' lower upper pc) {s : NativeState}
    (here : s.pc = lower) :
    ∃ t, t.pc = pc + 1 ∧ Passes c code (pc + 1 - lower) s t
      ∧ Passes c code' (pc + 1 - lower) s t := by
  obtain ⟨before, after⟩ := folds.ordered
  obtain ⟨a, b, v, op, i, push_a, push_b, at_pc, opcode, result, push_v⟩ := folds.operation
  subst here
  refine ⟨{ s with pc := pc + 1, stack := v :: s.stack }, rfl, ?_, ?_⟩
  · have first : Passes c code (upper - s.pc) s { s with pc := upper, stack := a :: s.stack } :=
      passes_push before push_a (fun q gt lt => folds.gaps q gt (by omega) (by omega))
    have second : Passes c code (pc - upper) { s with pc := upper, stack := a :: s.stack }
        { s with pc := pc, stack := b :: a :: s.stack } :=
      passes_push (s := { s with pc := upper, stack := a :: s.stack }) after push_b
        (fun q gt lt => folds.gaps q (Nat.lt_trans before gt) lt (Nat.ne_of_gt gt))
    have third : code.next c { s with pc := pc, stack := b :: a :: s.stack }
        = .ok (.next { s with pc := pc + 1, stack := v :: s.stack }) := by
      rw [next_of_step at_pc]
      simp only [NativeState.step, NativeState.instruction, opcode, result]
      rfl
    have count : pc + 1 - s.pc = upper - s.pc + (pc - upper) + 1 := by omega
    rw [count]
    exact (first.trans second).trans (.head third (.refl _))
  · exact passes_push (by omega) push_v (fun q gt lt => folds.cleared q gt (by omega))

/-- Outside of the fold, control does not get into the middle of it. -/
theorem next_outside (folds : Folds c code code' lower upper pc) {s t : NativeState}
    (outside : s.pc < lower ∨ pc < s.pc) (next : code.next c s = .ok (.next t)) :
    t.pc ≤ lower ∨ pc < t.pc := by
  cases here : code[s.pc]? with
  | none =>
      rw [next_of_end here] at next
      cases next
  | some entry =>
      cases entry with
      | none =>
          rw [next_of_gap here] at next
          cases next
          dsimp only
          omega
      | some step =>
          rw [next_of_step here] at next
          rcases NativeState.leadsTo_of_step next with ⟨after, _⟩ | target
          · omega
          · exact folds.untargeted s.pc step t.pc here target

/-- A fold keeps every run that does not start in the middle of it. -/
theorem run_eq (folds : Folds c code code' lower upper pc) (fuel : Nat) {s : NativeState}
    (start : s.pc ≤ lower ∨ pc < s.pc) : code.run c fuel s = code'.run c fuel s := by
  induction fuel using Nat.strongRecOn generalizing s with
  | ind fuel ih =>
      cases fuel with
      | zero => rfl
      | succ fuel =>
          by_cases here : s.pc = lower
          · obtain ⟨t, after, passes, passes'⟩ := folds.passes here
            rw [passes.run_eq, passes'.run_eq]
            have ordered := folds.ordered
            exact ih _ (by omega) (.inr (by omega))
          · have outside : s.pc < lower ∨ pc < s.pc := by omega
            have same : code'.next c s = code.next c s := by
              simp only [GappedCode.next, folds.same s.pc outside]
            simp only [run, same]
            split
            · rfl
            · rfl
            · rename_i t next
              exact ih fuel (Nat.lt_succ_self fuel) (folds.next_outside outside next)

end Folds

end GappedCode

/-! ## What the scan knows -/

/-- The words on top of the stack, as far as they are known at `pc`: each is pushed by a step
that nothing but gaps follows up to the next, and no jump leads in between. Nothing is said of
what lies below a word that is not known. -/
inductive Knows (code : GappedCode) (targets : List Nat) :
    Nat → List (Option Int64 × Nat) → Prop where
  | nil (pc : Nat) : Knows code targets pc []
  | unknown (pc place : Nat) (below : List (Option Int64 × Nat)) :
      Knows code targets pc ((none, place) :: below)
  | word {pc place : Nat} {v : Int64} {below : List (Option Int64 × Nat)} (before : place < pc)
      (pushes : code[place]? = some (some (.push v)))
      (gaps : ∀ q, place < q → q < pc → code[q]? = some none)
      (untargeted : ∀ q, place < q → q ≤ pc → q ∉ targets)
      (rest : Knows code targets place below) : Knows code targets pc ((some v, place) :: below)

theorem Knows.congr {code code' : GappedCode} {targets : List Nat} {pc : Nat}
    {known : List (Option Int64 × Nat)} (knows : Knows code targets pc known)
    (same : ∀ q, q < pc → code'[q]? = code[q]?) : Knows code' targets pc known := by
  induction knows with
  | nil pc => exact .nil pc
  | unknown pc place below => exact .unknown pc place below
  | word before pushes gaps untargeted _ ih =>
      refine .word before ?_ ?_ untargeted (ih fun q lt => same q (by omega))
      · rw [same _ before, pushes]
      · intro q gt lt
        rw [same q lt, gaps q gt lt]

namespace Folding

def gapped (s : Folding) : GappedCode := .ofFlagged (s.code.toList.zip s.keep.toList)

theorem getElem?_gapped {s : Folding} {q : Nat} {step : Step} {kept : Bool}
    (here : s.code[q]? = some step) (flag : s.keep[q]? = some kept) :
    s.gapped[q]? = some (if kept then some step else none) :=
  GappedCode.getElem?_ofFlagged_zip (by simpa using here) (by simpa using flag)

theorem getElem?_gapped_congr {s t : Folding} {q : Nat} (code : t.code[q]? = s.code[q]?)
    (keep : t.keep[q]? = s.keep[q]?) : t.gapped[q]? = s.gapped[q]? := by
  simp only [gapped, GappedCode.ofFlagged, List.getElem?_map, List.zip, List.getElem?_zipWith',
    Array.getElem?_toList, code, keep]

theorem gapped_start (code : List Step) : (start code).gapped = .full code := by
  refine List.ext_getElem? fun q => ?_
  rw [GappedCode.full, List.getElem?_map]
  cases here : code[q]? with
  | none => exact GappedCode.getElem?_ofFlagged_zip_none _ (by simpa [start] using here)
  | some step =>
      have bound := (List.getElem?_eq_some_iff.mp here).1
      have at_q : (start code).code[q]? = some step := by simpa [start] using here
      have kept : (start code).keep[q]? = some true := by simp [start, bound]
      rw [getElem?_gapped at_q kept]
      rfl

/-- A step that stands in the code with gaps is one that is kept. -/
theorem of_getElem?_gapped {s : Folding} {q : Nat} {step : Step}
    (here : s.gapped[q]? = some (some step)) :
    s.code[q]? = some step ∧ s.keep[q]? = some true := by
  rw [gapped, GappedCode.ofFlagged, List.getElem?_map, Option.map_eq_some_iff] at here
  obtain ⟨⟨step', kept⟩, zipped, eq⟩ := here
  obtain ⟨at_q, flag⟩ := List.getElem?_zip_eq_some.mp zipped
  rw [Array.getElem?_toList] at at_q flag
  cases kept with
  | false => cases eq
  | true =>
      cases eq
      exact ⟨at_q, flag⟩

/-- What is so when the scan comes to `pc`: nothing has changed from there on, only words were
put into the code, and all runs from the start are as they were. -/
structure Invariant (c : NativeContext) (code : List Step) (s : Folding) (pc : Nat) : Prop where
  ahead : ∀ q, pc ≤ q → q < code.length → s.code[q]? = code[q]? ∧ s.keep[q]? = some true
  operations : ∀ (q : Nat) (i : Instruction), s.code[q]? = some (.op i) → code[q]? = some (.op i)
  runs : ∀ (fuel : Nat) (t : NativeState), t.pc = 0 →
    (GappedCode.full code).run c fuel t = s.gapped.run c fuel t

namespace Invariant

variable {c : NativeContext} {code : List Step} {s : Folding} {pc : Nat}

/-- What is known does not matter for the invariant. -/
theorem with_known (inv : Invariant c code s pc) (known : List (Option Int64 × Nat)) :
    Invariant c code { s with known := known } (pc + 1) where
  ahead q ge lt := inv.ahead q (by omega) lt
  operations := inv.operations
  runs := inv.runs

theorem mem_targets (inv : Invariant c code s pc) {q target : Nat} {step : Step}
    (here : s.gapped[q]? = some (some step)) (jumps : step.target? = some target) :
    target ∈ code.filterMap Step.target? := by
  cases step with
  | push v => cases jumps
  | op i =>
      have at_q := inv.operations q i (of_getElem?_gapped here).1
      exact List.mem_filterMap.mpr ⟨_, List.mem_of_getElem? at_q, jumps⟩

end Invariant

def foldInto (s : Folding) (lower upper pc : Nat) (v : Int64)
    (below : List (Option Int64 × Nat)) : Folding where
  code := s.code.setIfInBounds lower (.push v)
  keep := (s.keep.setIfInBounds upper false).setIfInBounds pc false
  known := (some v, lower) :: below

section FoldInto

variable {s : Folding} {lower upper pc : Nat} {a b v : Int64}
  {below : List (Option Int64 × Nat)}

theorem getElem?_foldInto_other {q : Nat} (not_lower : q ≠ lower) (not_upper : q ≠ upper)
    (not_pc : q ≠ pc) :
    (s.foldInto lower upper pc v below).gapped[q]? = s.gapped[q]? := by
  refine getElem?_gapped_congr ?_ ?_
  · simp only [foldInto, Array.getElem?_setIfInBounds, Ne.symm not_lower, if_false]
  · simp only [foldInto, Array.getElem?_setIfInBounds, Ne.symm not_upper, Ne.symm not_pc, if_false]

theorem getElem?_foldInto_lower (before : lower < upper) (after : upper < pc)
    (pushes : s.gapped[lower]? = some (some (.push a))) :
    (s.foldInto lower upper pc v below).gapped[lower]? = some (some (.push v)) := by
  obtain ⟨at_lower, kept⟩ := of_getElem?_gapped pushes
  have bound : lower < s.code.size := (Array.getElem?_eq_some_iff.mp at_lower).1
  have at_lower' : (s.foldInto lower upper pc v below).code[lower]? = some (.push v) := by
    simp [foldInto, bound]
  have kept' : (s.foldInto lower upper pc v below).keep[lower]? = some true := by
    have not_upper : upper ≠ lower := by omega
    have not_pc : pc ≠ lower := by omega
    simp only [foldInto, Array.getElem?_setIfInBounds, not_upper, not_pc, if_false, kept]
  rw [getElem?_gapped at_lower' kept']
  rfl

/-- The second push and the operation are cleared. -/
theorem getElem?_foldInto_cleared {q : Nat} {step : Step} (not_lower : q ≠ lower)
    (cleared : q = upper ∨ q = pc) (here : s.gapped[q]? = some (some step)) :
    (s.foldInto lower upper pc v below).gapped[q]? = some none := by
  obtain ⟨at_q, kept⟩ := of_getElem?_gapped here
  have bound : q < s.keep.size := (Array.getElem?_eq_some_iff.mp kept).1
  have at_q' : (s.foldInto lower upper pc v below).code[q]? = some step := by
    simp only [foldInto, Array.getElem?_setIfInBounds, Ne.symm not_lower, if_false, at_q]
  have dropped : (s.foldInto lower upper pc v below).keep[q]? = some false := by
    by_cases last : pc = q
    · simp [foldInto, last, bound]
    · have is_upper : q = upper := by omega
      subst is_upper
      simp [foldInto, last, bound]
  rw [getElem?_gapped at_q' dropped]
  rfl

end FoldInto

/-! ## The scan -/

section Scan

variable {c : NativeContext} {code : List Step} {s : Folding} {pc : Nat}

/-- A fold of the scan is one that keeps runs. -/
theorem folds_foldInto {lower upper : Nat} {a b v : Int64}
    {below : List (Option Int64 × Nat)} {i : Instruction} {op : BinaryOp}
    (inv : Invariant c code s pc)
    (knows : Knows s.gapped (code.filterMap Step.target?) pc
      ((some b, upper) :: (some a, lower) :: below))
    (here : code[pc]? = some (.op i)) (opcode : i.opcode = .binary op)
    (folded : foldWords c.lane op a b = some v) :
    s.gapped.Folds c (s.foldInto lower upper pc v below).gapped lower upper pc := by
  obtain _ | _ | ⟨after, push_b, gaps, fresh, rest⟩ := knows
  obtain _ | _ | ⟨before, push_a, gaps', fresh', _⟩ := rest
  have bound := (List.getElem?_eq_some_iff.mp here).1
  obtain ⟨same_step, kept⟩ := inv.ahead pc (Nat.le_refl pc) bound
  have at_pc : s.gapped[pc]? = some (some (.op i)) :=
    getElem?_gapped (same_step.trans here) kept
  have gaps_between : ∀ q, lower < q → q < pc → q ≠ upper → s.gapped[q]? = some none := by
    intro q gt lt other
    rcases Nat.lt_or_ge q upper with low | high
    · exact gaps' q gt low
    · exact gaps q (by omega) lt
  refine
    { ordered := ⟨before, after⟩
      gaps := gaps_between
      operation := ⟨a, b, v, op, i, push_a, push_b, at_pc, opcode,
        BinaryOp.onWords_of_fold folded, getElem?_foldInto_lower before after push_a⟩
      cleared := ?_
      same := ?_
      untargeted := ?_ }
  · intro q gt le
    by_cases is_upper : q = upper
    · subst is_upper
      exact getElem?_foldInto_cleared (by omega) (.inl rfl) push_b
    · by_cases is_pc : q = pc
      · subst is_pc
        exact getElem?_foldInto_cleared (by omega) (.inr rfl) at_pc
      · rw [getElem?_foldInto_other (by omega) is_upper is_pc]
        exact gaps_between q gt (by omega) is_upper
  · intro q outside
    exact getElem?_foldInto_other (by omega) (by omega) (by omega)
  · intro q step target at_q jumps
    have is_target := inv.mem_targets at_q jumps
    rcases Nat.lt_or_ge lower target with gt | le
    · rcases Nat.lt_or_ge upper target with above | within
      · rcases Nat.lt_or_ge pc target with beyond | inside
        · exact .inr beyond
        · exact absurd is_target (fresh target above inside)
      · exact absurd is_target (fresh' target gt within)
    · exact .inl le

theorem Invariant.foldInto {lower upper : Nat} {v : Int64} {below : List (Option Int64 × Nat)}
    (inv : Invariant c code s pc)
    (folds : s.gapped.Folds c (s.foldInto lower upper pc v below).gapped lower upper pc) :
    Invariant c code (s.foldInto lower upper pc v below) (pc + 1) where
  ahead q ge lt := by
    obtain ⟨before, after⟩ := folds.ordered
    have not_lower : lower ≠ q := by omega
    have not_upper : upper ≠ q := by omega
    have not_pc : pc ≠ q := by omega
    simp only [Folding.foldInto, Array.getElem?_setIfInBounds, not_lower, not_upper, not_pc,
      if_false]
    exact inv.ahead q (by omega) lt
  operations q i at_q := by
    simp only [Folding.foldInto, Array.getElem?_setIfInBounds] at at_q
    split at at_q
    · split at at_q <;> cases at_q
    · exact inv.operations q i at_q
  runs fuel t start := by
    rw [inv.runs fuel t start]
    exact folds.run_eq fuel (.inl (by omega))

/-- The folded word is known after the fold. -/
theorem knows_foldInto {lower upper : Nat} {a b v : Int64} {below : List (Option Int64 × Nat)}
    (knows : Knows s.gapped (code.filterMap Step.target?) pc
      ((some b, upper) :: (some a, lower) :: below))
    (folds : s.gapped.Folds c (s.foldInto lower upper pc v below).gapped lower upper pc)
    (untargeted : pc + 1 ∉ code.filterMap Step.target?) :
    Knows (s.foldInto lower upper pc v below).gapped (code.filterMap Step.target?) (pc + 1)
      ((some v, lower) :: below) := by
  obtain _ | _ | ⟨after, _, _, fresh, rest⟩ := knows
  obtain _ | _ | ⟨before, push_a, _, fresh', rest⟩ := rest
  refine .word (by omega) (getElem?_foldInto_lower before after push_a) ?_ ?_ ?_
  · intro q gt lt
    exact folds.cleared q gt (by omega)
  · intro q gt le
    rcases Nat.lt_or_ge upper q with above | within
    · rcases Nat.lt_or_ge pc q with beyond | inside
      · have last : q = pc + 1 := by omega
        exact last ▸ untargeted
      · exact fresh q above inside
    · exact fresh' q gt within
  · exact rest.congr fun q lt => folds.same q (.inl lt)

/-- One step of the scan. -/
theorem Invariant.step (inv : Invariant c code s pc)
    (knows : Knows s.gapped (code.filterMap Step.target?) pc s.known) {here : Step}
    (at_pc : code[pc]? = some here) :
    Invariant c code (s.step c.lane pc here) (pc + 1)
      ∧ (pc + 1 ∉ code.filterMap Step.target? →
        Knows (s.step c.lane pc here).gapped (code.filterMap Step.target?) (pc + 1)
          (s.step c.lane pc here).known) := by
  have bound := (List.getElem?_eq_some_iff.mp at_pc).1
  obtain ⟨same_step, kept⟩ := inv.ahead pc (Nat.le_refl pc) bound
  have forgets : Invariant c code s.forget (pc + 1)
      ∧ (pc + 1 ∉ code.filterMap Step.target? →
        Knows s.forget.gapped (code.filterMap Step.target?) (pc + 1) s.forget.known) :=
    ⟨inv.with_known [], fun _ => .nil _⟩
  cases here with
  | push v =>
      refine ⟨inv.with_known _, fun untargeted => ?_⟩
      refine .word (Nat.lt_succ_self pc) (getElem?_gapped (same_step.trans at_pc) kept) ?_ ?_ knows
      · intro q gt lt
        omega
      · intro q gt le
        have last : q = pc + 1 := by omega
        exact last ▸ untargeted
  | op i =>
      simp only [Folding.step]
      split
      · rename_i op opcode
        split
        · have unknown : ∀ below, Invariant c code { s with known := (none, pc) :: below } (pc + 1)
              ∧ (pc + 1 ∉ code.filterMap Step.target? →
                Knows s.gapped (code.filterMap Step.target?) (pc + 1) ((none, pc) :: below)) :=
            fun below => ⟨inv.with_known _, fun _ => .unknown _ _ _⟩
          simp only [operation]
          split
          · rename_i b upper a lower below known
            split
            · rename_i a b
              split
              · rename_i v folded
                rw [known] at knows
                have folds := folds_foldInto inv knows at_pc opcode folded
                exact ⟨inv.foldInto folds, knows_foldInto knows folds⟩
              · exact unknown below
            · exact unknown below
          · exact forgets
        · exact forgets
      · exact forgets

/-- The whole scan, from `pc` on. What is known there was forgotten if a jump leads there. -/
theorem Invariant.run (inv : Invariant c code s pc)
    (knows : pc ∉ code.filterMap Step.target? →
      Knows s.gapped (code.filterMap Step.target?) pc s.known) {rest : List Step}
    (ahead : code.drop pc = rest) :
    ∃ last, Invariant c code (s.run c.lane (code.filterMap Step.target?) pc rest) last := by
  induction rest generalizing s pc with
  | nil => exact ⟨pc, inv⟩
  | cons here rest ih =>
      have at_pc : code[pc]? = some here := by
        rw [← List.head?_drop, ahead, List.head?_cons]
      have ahead' : code.drop (pc + 1) = rest := by
        rw [← List.tail_drop, ahead, List.tail_cons]
      by_cases target : pc ∈ code.filterMap Step.target?
      · have forgotten : Invariant c code s.forget pc := ⟨inv.ahead, inv.operations, inv.runs⟩
        obtain ⟨inv', knows'⟩ := forgotten.step (.nil pc) at_pc
        simp only [Folding.run, List.contains_iff_mem.mpr target, if_true]
        exact ih inv' knows' ahead'
      · obtain ⟨inv', knows'⟩ := inv.step (knows target) at_pc
        simp only [Folding.run, List.contains_iff_mem, target, if_false]
        exact ih inv' knows' ahead'

end Scan

theorem Invariant.initially (c : NativeContext) (code : List Step) :
    Invariant c code (start code) 0 where
  ahead q _ lt := by simp [start, lt]
  operations q i at_q := by simpa [start] using at_q
  runs fuel t _ := by rw [gapped_start]

end Folding

theorem condenses_foldConstants (c : NativeContext) (code : List Step) :
    GappedCode.Condenses c (.full code) (.full (foldConstants c.lane code)) := by
  obtain ⟨_, inv⟩ :=
    (Folding.Invariant.initially c code).run (fun _ => .nil 0) List.drop_zero
  exact .trans (.of_eq inv.runs) (.compactFlagged _)

end StackMachine
