import Mathlib
import StackMachine.Proofs.VerifiedRuns

/-! # What the verifier accepts, exactly

A function is accepted if and only if all of its operands fit, and its reachable instructions can
be given stack heights that hold along every edge of the control flow. The search for heights
finds them in whatever order it visits the pending places, and ends in every order.
-/

namespace StackMachine

/-- Control can come to the place, starting at the first instruction. Control that runs past the
end of the code is not followed. -/
inductive LinkedFunction.FlowsTo (f : LinkedFunction) : Nat → Prop where
  | entry (inside : 0 < f.code.size) : FlowsTo f 0
  | edge {pc next : Nat} {i : Instruction} (reached : FlowsTo f pc) (here : f.code[pc]? = some i)
      (successor : next ∈ i.successors pc) (inside : next < f.code.size) : FlowsTo f next

namespace Program

/-- What the operand of an instruction refers to is there, and is of the right sort. -/
def OperandFits (p : Program) (f : LinkedFunction) (i : Instruction) : Prop :=
  match i.opcode with
  | .ldc => ∃ v, p.constantValue i.arg = .ok v
  | .newarr => ∃ element, p.descriptor i.arg = .ok element ∧ element ≠ .void
  | .halt => ∃ c, p.constant i.arg = .ok c ∧ c.tag.isInteger = true
  | .ldv | .store => i.arg < f.locals
  | .jmp | .jz | .jnz => i.arg < f.code.size
  | .call => ∃ callee, p.function i.arg = .ok callee
  | _ => True

/-- The heights are right for the reachable instructions: the first one has the arguments, none
pops more than it has, and each passes on to its successors what it leaves. -/
structure Balances (p : Program) (f : LinkedFunction) (height : Nat → Nat) : Prop where
  entry : height 0 = f.arity
  enough : ∀ {pc i}, f.FlowsTo pc → f.code[pc]? = some i → (p.stackEffect f i).1 ≤ height pc
  edge : ∀ {pc next i}, f.FlowsTo pc → f.code[pc]? = some i → next ∈ i.successors pc →
    next < f.code.size → height next = height pc - (p.stackEffect f i).1 + (p.stackEffect f i).2

/-! ## Operands -/

section Operands

variable {p : Program} {f : LinkedFunction} {i : Instruction}

theorem operandProblem_eq_none_iff : p.operandProblem? f i = none ↔ p.OperandFits f i := by
  unfold operandProblem? OperandFits
  cases i.opcode with
  | ldc => cases p.constantValue i.arg <;> simp
  | newarr =>
      cases p.descriptor i.arg with
      | error fault => simp
      | ok element => cases element <;> simp [Descriptor.isVoid]
  | halt =>
      cases p.constant i.arg with
      | error fault => simp
      | ok c => simp
  | call => cases p.function i.arg <;> simp
  | ldv | store | jmp | jz | jnz => simp
  | _ => simp

theorem checkOperands_eq_ok_iff {pc : Nat} {code : List Instruction} :
    p.checkOperands f pc code = .ok () ↔ ∀ i ∈ code, p.OperandFits f i := by
  constructor
  · intro checked i member
    exact operandProblem_eq_none_iff.mp (operands_of_checkOperands checked i member)
  · intro fits
    induction code generalizing pc with
    | nil => rfl
    | cons i rest ih =>
        have fine := operandProblem_eq_none_iff.mpr (fits i (List.mem_cons_self ..))
        rw [checkOperands, fine]
        exact ih fun j later => fits j (List.mem_cons_of_mem i later)

end Operands

end Program

/-! ## Heights that a search finds -/

section Found

variable {p : Program} {f : LinkedFunction} {heights : Array (Option Nat)}

theorem HeightsFit.known_of_flowsTo (fit : HeightsFit p f heights) {pc : Nat}
    (reached : f.FlowsTo pc) : ∃ height, heights[pc]? = some (some height) := by
  induction reached with
  | entry inside => exact ⟨f.arity, fit.entry inside⟩
  | edge reached here successor inside ih =>
      obtain ⟨height, known⟩ := ih
      have settled := (fit.settled _ height _ known here).2
      exact ⟨_, settled _ successor (fit.size ▸ inside)⟩

/-- Heights that fit everywhere are right for the reachable instructions. -/
theorem HeightsFit.balances (fit : HeightsFit p f heights) :
    p.Balances f fun pc => if pc = 0 then f.arity else (heights[pc]?.join).getD 0 := by
  have value : ∀ {pc height : Nat}, f.FlowsTo pc → heights[pc]? = some (some height) →
      (if pc = 0 then f.arity else (heights[pc]?.join).getD 0) = height := by
    intro pc height reached known
    split
    · rename_i first
      subst first
      have inside : 0 < f.code.size := by
        rw [← fit.size]
        exact (Array.getElem?_eq_some_iff.mp known).1
      have same := (fit.entry inside).symm.trans known
      simpa using same
    · simp [known]
  refine ⟨rfl, ?_, ?_⟩
  · intro pc i reached here
    obtain ⟨height, known⟩ := fit.known_of_flowsTo reached
    rw [value reached known]
    exact (fit.settled pc height i known here).1
  · intro pc next i reached here successor inside
    obtain ⟨height, known⟩ := fit.known_of_flowsTo reached
    have arrived := (fit.settled pc height i known here).2 next successor (fit.size ▸ inside)
    rw [value reached known, value (.edge reached here successor inside) arrived]

end Found

namespace HeightSearch

/-! ## Searches under an assignment -/

structure Follows (f : LinkedFunction) (height : Nat → Nat) (s : HeightSearch) : Prop where
  size : s.heights.size = f.code.size
  known : ∀ {pc k}, s.heights[pc]? = some (some k) → f.FlowsTo pc ∧ height pc = k

section Follow

variable {p : Program} {f : LinkedFunction} {height : Nat → Nat} {s : HeightSearch}

theorem Follows.start (entry : height 0 = f.arity) : Follows f height (start f) := by
  refine ⟨by simp [HeightSearch.start], ?_⟩
  intro pc k known
  simp only [HeightSearch.start] at known
  by_cases first : pc = 0
  · subst first
    by_cases inside : 0 < f.code.size
    · have same : f.arity = k := by simpa [inside] using known
      exact ⟨.entry inside, entry.trans same⟩
    · simp [inside] at known
  · rw [Array.getElem?_setIfInBounds_ne (by omega)] at known
    simp [Array.getElem?_replicate] at known

/-- An arrival with the height of the place is never refused. -/
theorem Follows.arrive (follows : Follows f height s) {k pc : Nat}
    (agrees : pc < f.code.size → f.FlowsTo pc ∧ height pc = k) :
    ∃ t, arrive f.name k s pc = .ok t ∧ Follows f height t := by
  unfold HeightSearch.arrive
  split
  · rename_i bound
    have here := agrees (follows.size ▸ bound)
    split
    · refine ⟨_, rfl, by simpa using follows.size, ?_⟩
      intro q k' known
      rw [Array.getElem?_set bound] at known
      split at known
      · rename_i same
        subst same
        have heights : k = k' := by simpa using known
        exact ⟨here.1, here.2.trans heights⟩
      · exact follows.known known
    · rename_i known entered
      have same : known = k := by
        have there : s.heights[pc]? = some (some known) := by
          rw [Array.getElem?_eq_getElem bound, entered]
        rw [← (follows.known there).2, here.2]
      rw [if_pos same]
      exact ⟨s, rfl, follows⟩
  · exact ⟨s, rfl, follows⟩

theorem Follows.arriveAll (follows : Follows f height s) {k : Nat} {places : List Nat}
    (agrees : ∀ pc ∈ places, pc < f.code.size → f.FlowsTo pc ∧ height pc = k) :
    ∃ t, arriveAll f.name k s places = .ok t ∧ Follows f height t := by
  induction places generalizing s with
  | nil => exact ⟨s, rfl, follows⟩
  | cons pc rest ih =>
      obtain ⟨u, arrived, follows⟩ := follows.arrive (agrees pc (List.mem_cons_self ..))
      obtain ⟨t, others, follows⟩ :=
        ih follows fun q later => agrees q (List.mem_cons_of_mem pc later)
      refine ⟨t, ?_, follows⟩
      rw [HeightSearch.arriveAll, arrived]
      exact others

/-- Where the heights are right, no visit is refused. -/
theorem Follows.visit (balanced : p.Balances f height) (follows : Follows f height s)
    (pc : Nat) : ∃ t, visit p f s pc = .ok t ∧ Follows f height t := by
  unfold HeightSearch.visit
  split
  · rename_i k i known here
    obtain ⟨reached, same⟩ := follows.known (Option.join_eq_some_iff.mp known)
    have enough := balanced.enough reached here
    rw [if_neg (by omega)]
    refine follows.arriveAll ?_
    intro next successor inside
    refine ⟨.edge reached here successor inside, ?_⟩
    rw [balanced.edge reached here successor inside, same]
  · exact ⟨s, rfl, follows⟩

end Follow

/-! ## Searches in any order -/

/-- The second search is the first after the given number of visits, each to one of the places
that were pending, whichever. -/
inductive Visits (p : Program) (f : LinkedFunction) (s : HeightSearch) :
    Nat → HeightSearch → Prop where
  | none : Visits p f s 0 s
  | step {n : Nat} {t u : HeightSearch} {pc : Nat} {rest : List Nat} (before : Visits p f s n t)
      (picked : t.pending.Perm (pc :: rest)) (visited : visit p f ⟨t.heights, rest⟩ pc = .ok u) :
      Visits p f s (n + 1) u

section AnyOrder

variable {p : Program} {f : LinkedFunction} {s t : HeightSearch} {n : Nat}

theorem Invariant.of_perm (invariant : Invariant p f s) {pending : List Nat}
    (same : s.pending.Perm pending) : Invariant p f ⟨s.heights, pending⟩ where
  size := invariant.size
  entry := invariant.entry
  covered pc := (invariant.covered pc).imp_left same.mem_iff.mp

theorem Invariant.visits (invariant : Invariant p f s) (visits : Visits p f s n t) :
    Invariant p f t := by
  induction visits with
  | none => exact invariant
  | step before picked visited ih => exact (ih.of_perm picked).visit visited

theorem Follows.visits {height : Nat → Nat} (balanced : p.Balances f height)
    (follows : Follows f height s) (visits : Visits p f s n t) : Follows f height t := by
  induction visits with
  | none => exact follows
  | @step n t u pc rest before picked visited ih =>
      have rested : Follows f height ⟨t.heights, rest⟩ := ⟨ih.size, ih.known⟩
      obtain ⟨u', ok, follows'⟩ := rested.visit balanced pc
      obtain rfl : u' = u := Except.ok.inj (ok.symm.trans visited)
      exact follows'

/-- Every visit leaves one less to do, whatever the order. -/
theorem work_of_visits (visits : Visits p f s n t) : t.work + n = s.work := by
  induction visits with
  | none => rfl
  | @step n t u pc rest before picked visited ih =>
      have same := work_of_visit visited
      have length := picked.length_eq
      simp only [work, List.length_cons] at same length ih ⊢
      omega

theorem work_start (f : LinkedFunction) : (start f).work = max 1 f.code.size := by
  by_cases inside : 0 < f.code.size
  · have counted : unknown (start f).heights = f.code.size - 1 := by
      have bound : 0 < (Array.replicate f.code.size (none : Option Nat)).size := by simpa
      simp only [unknown, start, Array.setIfInBounds, dif_pos bound, Array.countP_set bound]
      simp [Array.countP_replicate]
    simp only [work, counted]
    simp only [start, List.length_singleton]
    omega
  · have empty : f.code.size = 0 := by omega
    simp [work, unknown, start, empty]

/-- A search that has no place left to visit has found heights that are right. -/
theorem balances_of_visits (visits : Visits p f (start f) n t) (done : t.pending = []) :
    ∃ height, p.Balances f height := by
  have invariant := (Invariant.start p f).visits visits
  have settled : ∀ pc, HeightSettled p f t.heights pc := fun pc =>
    (invariant.covered pc).resolve_left (by simp [done])
  have fit : HeightsFit p f t.heights := ⟨invariant.size, invariant.entry, settled⟩
  exact ⟨_, fit.balances⟩

/-- Where there are heights that are right, no search is refused. -/
theorem not_refused_of_balances {height : Nat → Nat} (balanced : p.Balances f height)
    (visits : Visits p f (start f) n t) (rest : List Nat) (pc : Nat) (e : VerifyError) :
    visit p f ⟨t.heights, rest⟩ pc ≠ .error e := by
  have follows := (Follows.start balanced.entry).visits balanced visits
  have rested : Follows f height ⟨t.heights, rest⟩ := ⟨follows.size, follows.known⟩
  obtain ⟨u, ok, _⟩ := rested.visit balanced pc
  rw [ok]
  simp

end AnyOrder

/-! ## The order of the verifier -/

/-- The verifier's own search takes its places from those that are pending: it has visited all of
them, or it is refused at one. -/
theorem visits_of_finish {p : Program} {f : LinkedFunction} {s t : HeightSearch} {n : Nat}
    (visits : Visits p f s n t) :
    (∃ m heights, finish p f t = .ok heights ∧ Visits p f s m ⟨heights, []⟩)
      ∨ ∃ m u rest pc e, finish p f t = .error e ∧ Visits p f s m u
          ∧ u.pending = pc :: rest ∧ visit p f ⟨u.heights, rest⟩ pc = .error e := by
  induction t using finish.induct p f generalizing n with
  | case1 t done =>
      obtain ⟨heights, pending⟩ := t
      cases done
      exact .inl ⟨n, heights, finish_nil p f heights, visits⟩
  | case2 t pc rest pending u visited ih =>
      obtain ⟨heights, _⟩ := t
      cases pending
      rw [finish_cons, visited]
      exact ih (visits.step (List.Perm.refl _) visited)
  | case3 t pc rest pending e refused =>
      obtain ⟨heights, _⟩ := t
      cases pending
      rw [finish_cons, refused]
      exact .inr ⟨n, _, rest, pc, e, rfl, visits, rfl, refused⟩

end HeightSearch

theorem Program.stackHeights_isOk_iff {p : Program} {f : LinkedFunction} :
    (∃ heights, p.stackHeights f = .ok heights) ↔ ∃ height, p.Balances f height := by
  constructor
  · rintro ⟨heights, found⟩
    exact ⟨_, (heightsFit_of_stackHeights found).balances⟩
  · rintro ⟨height, balanced⟩
    rcases HeightSearch.visits_of_finish (HeightSearch.Visits.none (p := p) (f := f)) with
      ⟨_, heights, found, _⟩ | ⟨_, u, rest, pc, e, _, visits, _, refused⟩
    · exact ⟨heights, found⟩
    · exact absurd refused (HeightSearch.not_refused_of_balances balanced visits rest pc e)

theorem Program.verifyFunction_eq_ok_iff {p : Program} {f : LinkedFunction} :
    p.verifyFunction f = .ok ()
      ↔ p.checkOperands f 0 f.code.toList = .ok ()
        ∧ ∃ heights, p.stackHeights f = .ok heights := by
  unfold verifyFunction
  cases p.checkOperands f 0 f.code.toList with
  | error e => simp
  | ok _ => cases p.stackHeights f <;> simp

/-- A function is accepted if and only if all operands fit, those of instructions that control
cannot reach included, and the reachable instructions can be given heights that are right. The
order of the search does not matter: in any order it ends after as many visits as there are
instructions, at most, or one; it has no place left only if there are heights that are right, and
is refused at a place only if there are none. -/
theorem verdict_is_exact (p : Program) (f : LinkedFunction) :
    (p.verifyFunction f = .ok ()
        ↔ (∀ i ∈ f.code, p.OperandFits f i) ∧ ∃ height, p.Balances f height)
      ∧ ∀ n s, HeightSearch.Visits p f (.start f) n s →
          n ≤ max 1 f.code.size
            ∧ (s.pending = [] → ∃ height, p.Balances f height)
            ∧ ∀ pc rest e, s.pending.Perm (pc :: rest) →
                HeightSearch.visit p f ⟨s.heights, rest⟩ pc = .error e →
                ¬ ∃ height, p.Balances f height := by
  refine ⟨?_, ?_⟩
  · rw [Program.verifyFunction_eq_ok_iff, Program.checkOperands_eq_ok_iff,
      Program.stackHeights_isOk_iff]
    simp only [Array.mem_toList_iff]
  · intro n s visits
    refine ⟨?_, HeightSearch.balances_of_visits visits, ?_⟩
    · have counted := HeightSearch.work_of_visits visits
      rw [HeightSearch.work_start] at counted
      omega
    · rintro pc rest e _ refused ⟨height, balanced⟩
      exact HeightSearch.not_refused_of_balances balanced visits rest pc e refused

end StackMachine
