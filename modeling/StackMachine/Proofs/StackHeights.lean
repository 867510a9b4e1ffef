import StackMachine.Program.Verify

/-! # Stack heights of accepted code

The search for stack heights ends in an assignment that every edge of the control flow respects,
whatever loops and joins the code has. A place that has a height is either pending or settled:
it pops no more than its height, and its successors have the height that it leaves.
-/

namespace StackMachine

def HeightSettled (p : Program) (f : LinkedFunction) (heights : Array (Option Nat)) (pc : Nat) :
    Prop :=
  ∀ height i, heights[pc]? = some (some height) → f.code[pc]? = some i →
    (p.stackEffect f i).1 ≤ height ∧
      ∀ next ∈ i.successors pc, next < heights.size →
        heights[next]? = some (some (height - (p.stackEffect f i).1 + (p.stackEffect f i).2))

/-- Heights that hold at the start of the code and along every edge of its control flow. -/
structure HeightsFit (p : Program) (f : LinkedFunction) (heights : Array (Option Nat)) : Prop where
  size : heights.size = f.code.size
  entry : 0 < f.code.size → heights[0]? = some (some f.arity)
  settled : ∀ pc, HeightSettled p f heights pc

namespace HeightSearch

/-- The second search knows what the first one does, and what is new in it is pending. -/
structure Extends (s t : HeightSearch) : Prop where
  size : t.heights.size = s.heights.size
  kept : ∀ (pc height : Nat),
    s.heights[pc]? = some (some height) → t.heights[pc]? = some (some height)
  fresh : ∀ (pc height : Nat), t.heights[pc]? = some (some height) →
    s.heights[pc]? = some (some height) ∨ pc ∈ t.pending
  pending : ∀ pc ∈ s.pending, pc ∈ t.pending

theorem Extends.refl (s : HeightSearch) : Extends s s :=
  ⟨rfl, fun _ _ known => known, fun _ _ known => .inl known, fun _ member => member⟩

theorem Extends.trans {s t u : HeightSearch} (first : Extends s t) (second : Extends t u) :
    Extends s u where
  size := second.size.trans first.size
  kept pc height known := second.kept pc height (first.kept pc height known)
  fresh pc height known := by
    rcases second.fresh pc height known with known | member
    · rcases first.fresh pc height known with known | member
      · exact .inl known
      · exact .inr (second.pending pc member)
    · exact .inr member
  pending pc member := second.pending pc (first.pending pc member)

theorem extends_of_arrive {function : String} {height : Nat} {s t : HeightSearch} {pc : Nat}
    (h : arrive function height s pc = .ok t) :
    Extends s t ∧ (pc < s.heights.size → t.heights[pc]? = some (some height)) := by
  unfold arrive at h
  split at h
  · rename_i bound
    split at h
    · rename_i unset
      cases h
      refine ⟨⟨by simp, ?_, ?_, fun _ member => List.mem_cons_of_mem _ member⟩, ?_⟩
      · intro q known knownAt
        have other : pc ≠ q := by
          rintro rfl
          simp [Array.getElem?_eq_getElem bound, unset] at knownAt
        simpa [Array.getElem?_set_ne bound other] using knownAt
      · intro q known knownAt
        by_cases same : pc = q
        · subst same
          exact .inr (List.mem_cons_self ..)
        · left
          simpa [Array.getElem?_set_ne bound same] using knownAt
      · intro _
        simp
    · rename_i known entered
      split at h
      · rename_i same
        cases h
        refine ⟨.refl s, fun _ => ?_⟩
        rw [Array.getElem?_eq_getElem bound, entered, same]
      · cases h
  · rename_i outside
    cases h
    exact ⟨.refl s, fun inside => absurd inside outside⟩

theorem extends_of_arriveAll {function : String} {height : Nat} {s t : HeightSearch}
    {places : List Nat} (h : arriveAll function height s places = .ok t) :
    Extends s t ∧ ∀ pc ∈ places, pc < s.heights.size → t.heights[pc]? = some (some height) := by
  induction places generalizing s with
  | nil =>
      cases h
      exact ⟨.refl t, fun _ member => by cases member⟩
  | cons pc rest ih =>
      simp only [arriveAll] at h
      split at h
      · rename_i u step
        obtain ⟨first, here⟩ := extends_of_arrive step
        obtain ⟨others, there⟩ := ih h
        refine ⟨first.trans others, ?_⟩
        intro q member inside
        rcases List.mem_cons.mp member with rfl | member
        · exact others.kept _ _ (here inside)
        · exact there q member (by rw [first.size]; exact inside)
      · cases h

/-- Every place with a height is pending or settled. -/
structure Invariant (p : Program) (f : LinkedFunction) (s : HeightSearch) : Prop where
  size : s.heights.size = f.code.size
  entry : 0 < f.code.size → s.heights[0]? = some (some f.arity)
  covered : ∀ pc, pc ∈ s.pending ∨ HeightSettled p f s.heights pc

theorem HeightSettled.extend {p : Program} {f : LinkedFunction} {s t : HeightSearch} {pc : Nat}
    (step : Extends s t) (settled : HeightSettled p f s.heights pc) (quiet : pc ∉ t.pending) :
    HeightSettled p f t.heights pc := by
  intro height i known here
  have before : s.heights[pc]? = some (some height) := by
    rcases step.fresh pc height known with before | member
    · exact before
    · exact absurd member quiet
  obtain ⟨enough, edges⟩ := settled height i before here
  refine ⟨enough, fun next successor inside => ?_⟩
  exact step.kept _ _ (edges next successor (by rw [← step.size]; exact inside))

/-- A visit settles its place. -/
theorem settled_of_visit {p : Program} {f : LinkedFunction} {s t : HeightSearch} {pc : Nat}
    (h : visit p f s pc = .ok t) :
    Extends s t ∧ (pc ∈ t.pending ∨ HeightSettled p f t.heights pc) := by
  unfold visit at h
  split at h
  · rename_i height i known here
    split at h
    · cases h
    · rename_i enough
      obtain ⟨step, edges⟩ := extends_of_arriveAll h
      refine ⟨step, ?_⟩
      by_cases again : pc ∈ t.pending
      · exact .inl again
      · right
        intro height' i' known' here'
        have before := (step.fresh pc height' known').resolve_right again
        have same : height' = height := by simpa [before] using known
        have sameInstruction : i' = i := by simpa [here] using here'.symm
        subst same sameInstruction
        refine ⟨by omega, fun next successor inside => ?_⟩
        exact edges next successor (by rw [← step.size]; exact inside)
  · rename_i undefined
    cases h
    refine ⟨.refl _, .inr ?_⟩
    intro height i known here
    exact (undefined height i (by simp [known]) here).elim

theorem Invariant.visit {p : Program} {f : LinkedFunction} {heights : Array (Option Nat)}
    {rest : List Nat} {pc : Nat} {t : HeightSearch}
    (before : Invariant p f ⟨heights, pc :: rest⟩) (h : visit p f ⟨heights, rest⟩ pc = .ok t) :
    Invariant p f t := by
  obtain ⟨step, here⟩ := settled_of_visit h
  refine ⟨step.size.trans before.size, fun inside => step.kept _ _ (before.entry inside), ?_⟩
  intro q
  by_cases quiet : q ∈ t.pending
  · exact .inl quiet
  · right
    rcases before.covered q with member | settled
    · rcases List.mem_cons.mp member with rfl | member
      · exact here.resolve_left quiet
      · exact absurd (step.pending q member) quiet
    · exact HeightSettled.extend step settled quiet

theorem finish_nil (p : Program) (f : LinkedFunction) (heights : Array (Option Nat)) :
    finish p f ⟨heights, []⟩ = .ok heights := by
  rw [finish]

theorem finish_cons (p : Program) (f : LinkedFunction) (heights : Array (Option Nat)) (pc : Nat)
    (rest : List Nat) :
    finish p f ⟨heights, pc :: rest⟩ = (visit p f ⟨heights, rest⟩ pc).bind (finish p f) := by
  rw [finish]
  dsimp only
  split <;> rename_i visited <;> rw [visited] <;> rfl

theorem heightsFit_of_finish {p : Program} {f : LinkedFunction} {s : HeightSearch}
    {heights : Array (Option Nat)} (before : Invariant p f s) (h : finish p f s = .ok heights) :
    HeightsFit p f heights := by
  induction s using finish.induct p f with
  | case1 s done =>
      obtain ⟨known, _⟩ := s
      cases done
      rw [finish_nil] at h
      cases h
      exact ⟨before.size, before.entry, fun pc => (before.covered pc).resolve_left (by simp)⟩
  | case2 s pc rest pending t visited ih =>
      obtain ⟨known, _⟩ := s
      cases pending
      rw [finish_cons, visited] at h
      exact ih (before.visit visited) h
  | case3 s pc rest pending e visited =>
      obtain ⟨known, _⟩ := s
      cases pending
      rw [finish_cons, visited] at h
      cases h

theorem Invariant.start (p : Program) (f : LinkedFunction) : Invariant p f (start f) := by
  refine ⟨by simp [HeightSearch.start], fun inside => by simp [HeightSearch.start, inside], ?_⟩
  intro pc
  by_cases first : pc = 0
  · exact .inl (by simp [HeightSearch.start, first])
  · right
    intro height i known _
    simp only [HeightSearch.start] at known
    rw [Array.getElem?_setIfInBounds_ne (by omega)] at known
    simp [Array.getElem?_replicate] at known

end HeightSearch

theorem Program.heightsFit_of_stackHeights {p : Program} {f : LinkedFunction}
    {heights : Array (Option Nat)} (h : p.stackHeights f = .ok heights) :
    HeightsFit p f heights :=
  HeightSearch.heightsFit_of_finish (.start p f) h

end StackMachine
