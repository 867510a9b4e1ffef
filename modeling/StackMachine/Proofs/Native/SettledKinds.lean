import StackMachine.Native.Compiler

/-! # Kinds of compiled code

The search for kinds ends in an assignment that holds along every edge of the control flow: each
instruction goes well on the kinds before it, and what is known after it is all that is assumed
where control goes next.
-/

namespace StackMachine

namespace KindState

variable {n : Nat}

/-- The first state assumes no more than what the second one knows. -/
structure Covers (assumed known : KindState n) : Prop where
  stack : assumed.stack = known.stack
  locals : ∀ (i : Nat) (k : Kind), assumed.locals[i]? = some (some k) →
    known.locals[i]? = some (some k)

theorem Covers.refl (s : KindState n) : s.Covers s := ⟨rfl, fun _ _ known => known⟩

theorem Covers.trans {s t u : KindState n} (first : s.Covers t) (second : t.Covers u) :
    s.Covers u :=
  ⟨first.stack.trans second.stack, fun i k known => second.locals i k (first.locals i k known)⟩

theorem meetKind_eq_some {known incoming : Option Kind} {k : Kind} :
    meetKind known incoming = some k ↔ known = some k ∧ incoming = some k := by
  cases known with
  | none => simp [meetKind]
  | some k' =>
      simp only [meetKind, Option.some.injEq]
      constructor
      · intro met
        split at met
        · rename_i agree
          cases met
          exact ⟨rfl, agree⟩
        · cases met
      · rintro ⟨rfl, agree⟩
        rw [if_pos agree]

/-- Where two paths meet, no more is assumed than either of them knows. -/
theorem covers_merged {known incoming : KindState n} (same : known.stack = incoming.stack) :
    Covers ⟨known.stack, known.locals.zipWith meetKind incoming.locals⟩ known
      ∧ Covers ⟨known.stack, known.locals.zipWith meetKind incoming.locals⟩ incoming := by
  have met : ∀ (i : Nat) (k : Kind),
      (known.locals.zipWith meetKind incoming.locals)[i]? = some (some k) →
        known.locals[i]? = some (some k) ∧ incoming.locals[i]? = some (some k) := by
    intro i k merged
    rw [Vector.getElem?_zipWith] at merged
    split at merged
    · rename_i a b at_a at_b
      obtain ⟨rfl, rfl⟩ := meetKind_eq_some.mp (Option.some.inj merged)
      exact ⟨at_a, at_b⟩
    · cases merged
  exact ⟨⟨rfl, fun i k merged => (met i k merged).1⟩, ⟨same, fun i k merged => (met i k merged).2⟩⟩

end KindState

def KindSettled (p : Program) (f : LinkedFunction) {n : Nat}
    (states : Array (Option (KindState n))) (pc : Nat) : Prop :=
  ∀ state i, states[pc]? = some (some state) → f.code[pc]? = some i →
    ∃ after, state.step p f pc i = .ok after ∧
      ∀ next ∈ i.branches pc, ∃ assumed, states[next]? = some (some assumed) ∧ assumed.Covers after

/-- Kinds that hold at the start of the code and along every edge of its control flow. -/
structure KindsFit (p : Program) (f : LinkedFunction) {n : Nat} (entry : KindState n)
    (states : Array (Option (KindState n))) : Prop where
  size : states.size = f.code.size
  entry : ∃ assumed, states[0]? = some (some assumed) ∧ assumed.Covers entry
  settled : ∀ pc, KindSettled p f states pc

namespace KindSearch

variable {n : Nat}

/-- The second search assumes no more than the first one, and what has changed in it is
pending. -/
structure Extends (s t : KindSearch n) : Prop where
  size : t.states.size = s.states.size
  kept : ∀ (pc : Nat) (known : KindState n), s.states[pc]? = some (some known) →
    ∃ assumed, t.states[pc]? = some (some assumed) ∧ assumed.Covers known
  fresh : ∀ (pc : Nat) (known : KindState n), t.states[pc]? = some (some known) →
    s.states[pc]? = some (some known) ∨ pc ∈ t.pending
  pending : ∀ pc ∈ s.pending, pc ∈ t.pending

theorem Extends.refl (s : KindSearch n) : Extends s s :=
  ⟨rfl, fun _ known at_pc => ⟨known, at_pc, .refl known⟩, fun _ _ known => .inl known,
    fun _ member => member⟩

theorem Extends.trans {s t u : KindSearch n} (first : Extends s t) (second : Extends t u) :
    Extends s u where
  size := second.size.trans first.size
  kept pc known at_pc := by
    obtain ⟨between, at_between, covers⟩ := first.kept pc known at_pc
    obtain ⟨assumed, at_assumed, covers'⟩ := second.kept pc between at_between
    exact ⟨assumed, at_assumed, covers'.trans covers⟩
  fresh pc known at_pc := by
    rcases second.fresh pc known at_pc with at_pc | member
    · rcases first.fresh pc known at_pc with at_pc | member
      · exact .inl at_pc
      · exact .inr (second.pending pc member)
    · exact .inr member
  pending pc member := second.pending pc (first.pending pc member)

/-- Replacing the state of a place by one that assumes no more, and asking for a visit. -/
theorem extends_of_set {s : KindSearch n} {next : Nat} {state : KindState n}
    (bound : next < s.states.size)
    (covers : ∀ known, s.states[next]? = some (some known) → state.Covers known) :
    Extends s ⟨s.states.set next (some state), next :: s.pending⟩ := by
  refine ⟨by simp, ?_, ?_, fun _ member => List.mem_cons_of_mem _ member⟩
  · intro pc known at_pc
    by_cases same : next = pc
    · subst same
      exact ⟨state, by simp, covers known at_pc⟩
    · exact ⟨known, by simpa [Array.getElem?_set_ne bound same] using at_pc, .refl known⟩
  · intro pc known at_pc
    by_cases same : next = pc
    · subst same
      exact .inr (List.mem_cons_self ..)
    · left
      simpa [Array.getElem?_set_ne bound same] using at_pc

theorem extends_of_arrive {f : LinkedFunction} {pc next : Nat} {incoming : KindState n}
    {s t : KindSearch n} (h : arrive f pc incoming s next = .ok t) :
    Extends s t ∧ ∃ assumed, t.states[next]? = some (some assumed) ∧ assumed.Covers incoming := by
  obtain ⟨bound, ⟨unset, rfl⟩ | ⟨known, entered, same, merged⟩⟩ := arrive_eq_ok h
  · refine ⟨extends_of_set bound ?_, incoming, by simp, .refl incoming⟩
    intro known at_next
    simp [Array.getElem?_eq_getElem bound, unset] at at_next
  · have at_next : s.states[next]? = some (some known) := by
      rw [Array.getElem?_eq_getElem bound, entered]
    obtain ⟨covers_known, covers_incoming⟩ := KindState.covers_merged same
    obtain ⟨unchanged, rfl⟩ | ⟨_, rfl⟩ := merged
    · rw [unchanged] at covers_incoming
      exact ⟨.refl t, known, at_next, covers_incoming⟩
    · refine ⟨extends_of_set bound ?_, _, by simp, covers_incoming⟩
      intro known' at_next'
      rw [at_next] at at_next'
      cases at_next'
      exact covers_known

theorem extends_of_arriveAll {f : LinkedFunction} {pc : Nat} {incoming : KindState n}
    {s t : KindSearch n} {places : List Nat} (h : arriveAll f pc incoming s places = .ok t) :
    Extends s t ∧ ∀ next ∈ places,
      ∃ assumed, t.states[next]? = some (some assumed) ∧ assumed.Covers incoming := by
  induction places generalizing s with
  | nil =>
      cases h
      exact ⟨.refl t, fun _ member => by cases member⟩
  | cons next rest ih =>
      simp only [arriveAll] at h
      split at h
      · rename_i u step
        obtain ⟨first, assumed, at_next, covers⟩ := extends_of_arrive step
        obtain ⟨others, there⟩ := ih h
        refine ⟨first.trans others, ?_⟩
        intro q member
        rcases List.mem_cons.mp member with rfl | member
        · obtain ⟨later, at_later, covers'⟩ := others.kept q assumed at_next
          exact ⟨later, at_later, covers'.trans covers⟩
        · exact there q member
      · cases h

/-- Every place with kinds is pending or settled. -/
structure Invariant (p : Program) (f : LinkedFunction) (entry : KindState n) (s : KindSearch n) :
    Prop where
  size : s.states.size = f.code.size
  entry : ∃ assumed, s.states[0]? = some (some assumed) ∧ assumed.Covers entry
  covered : ∀ pc, pc ∈ s.pending ∨ KindSettled p f s.states pc

theorem KindSettled.extend {p : Program} {f : LinkedFunction} {s t : KindSearch n} {pc : Nat}
    (step : Extends s t) (settled : KindSettled p f s.states pc) (quiet : pc ∉ t.pending) :
    KindSettled p f t.states pc := by
  intro state i known here
  have before := (step.fresh pc state known).resolve_right quiet
  obtain ⟨after, goes_well, edges⟩ := settled state i before here
  refine ⟨after, goes_well, fun next branch => ?_⟩
  obtain ⟨assumed, at_next, covers⟩ := edges next branch
  obtain ⟨later, at_later, covers'⟩ := step.kept next assumed at_next
  exact ⟨later, at_later, covers'.trans covers⟩

/-- A visit settles its place, unless the place has led to itself. -/
theorem settled_of_visit {p : Program} {f : LinkedFunction} {s t : KindSearch n} {pc : Nat}
    (h : visit p f s pc = .ok t) :
    Extends s t ∧ (pc ∈ t.pending ∨ KindSettled p f t.states pc) := by
  unfold visit at h
  split at h
  · rename_i state i known here
    split at h
    · rename_i after goes_well
      obtain ⟨step, edges⟩ := extends_of_arriveAll h
      refine ⟨step, ?_⟩
      by_cases again : pc ∈ t.pending
      · exact .inl again
      · right
        intro state' i' known' here'
        have before := (step.fresh pc state' known').resolve_right again
        have same : state' = state := by simpa [before] using known
        have same_instruction : i' = i := by simpa [here] using here'.symm
        subst same same_instruction
        exact ⟨after, goes_well, edges⟩
    · cases h
  · rename_i undefined
    cases h
    refine ⟨.refl _, .inr ?_⟩
    intro state i known here
    exact (undefined state i (by simp [known]) here).elim

theorem Invariant.visit {p : Program} {f : LinkedFunction} {entry : KindState n}
    {states : Array (Option (KindState n))} {rest : List Nat} {pc : Nat} {t : KindSearch n}
    (before : Invariant p f entry ⟨states, pc :: rest⟩)
    (h : visit p f ⟨states, rest⟩ pc = .ok t) : Invariant p f entry t := by
  obtain ⟨step, here⟩ := settled_of_visit h
  obtain ⟨assumed, at_start, covers⟩ := before.entry
  obtain ⟨later, at_later, covers'⟩ := step.kept 0 assumed at_start
  refine ⟨step.size.trans before.size, ⟨later, at_later, covers'.trans covers⟩, ?_⟩
  intro q
  by_cases quiet : q ∈ t.pending
  · exact .inl quiet
  · right
    rcases before.covered q with member | settled
    · rcases List.mem_cons.mp member with rfl | member
      · exact here.resolve_left quiet
      · exact absurd (step.pending q member) quiet
    · exact KindSettled.extend step settled quiet

theorem finish_nil (p : Program) (f : LinkedFunction) (states : Array (Option (KindState n))) :
    finish p f ⟨states, []⟩ = .ok states := by
  rw [finish]

theorem finish_cons (p : Program) (f : LinkedFunction) (states : Array (Option (KindState n)))
    (pc : Nat) (rest : List Nat) :
    finish p f ⟨states, pc :: rest⟩ = (visit p f ⟨states, rest⟩ pc).bind (finish p f) := by
  rw [finish]
  dsimp only
  split <;> rename_i visited <;> rw [visited] <;> rfl

theorem kindsFit_of_finish {p : Program} {f : LinkedFunction} {entry : KindState n}
    {s : KindSearch n} {states : Array (Option (KindState n))} (before : Invariant p f entry s)
    (h : finish p f s = .ok states) : KindsFit p f entry states := by
  induction s using finish.induct p f with
  | case1 s done =>
      obtain ⟨known, _⟩ := s
      cases done
      rw [finish_nil] at h
      cases h
      exact ⟨before.size, before.entry, fun pc => (before.covered pc).resolve_left (by simp)⟩
  | case2 s pc rest pending t visited ih =>
      obtain ⟨known, _⟩ := s
      cases pending
      rw [finish_cons, visited] at h
      exact ih (before.visit visited) h
  | case3 s pc rest pending e visited =>
      obtain ⟨known, _⟩ := s
      cases pending
      rw [finish_cons, visited] at h
      cases h

theorem Invariant.start {p : Program} {f : LinkedFunction} (entry : KindState n)
    (body : 0 < f.code.size) :
    Invariant p f entry
      ⟨(Array.replicate f.code.size none).setIfInBounds 0 (some entry), [0]⟩ := by
  refine ⟨by simp, ⟨entry, by simp [body], .refl entry⟩, ?_⟩
  intro pc
  by_cases first : pc = 0
  · exact .inl (by simp [first])
  · right
    intro state i known _
    dsimp only at known
    rw [Array.getElem?_setIfInBounds_ne (by omega)] at known
    simp [Array.getElem?_replicate] at known

end KindSearch

def LinkedFunction.entryKinds (f : LinkedFunction) (lane : Lane) (stack : List Kind) :
    KindState f.locals := ⟨stack, Vector.replicate f.locals lane.initialLocal⟩

namespace LinkedFunction

def firstSearch (f : LinkedFunction) (lane : Lane) : Except NativeError (KindSearch f.locals) :=
  match f.parameterKinds with
  | .error e => .error e
  | .ok stack =>
      if f.code.isEmpty then .error (f.refusal 0 .emptyBody)
      else
        .ok ⟨(Array.replicate f.code.size none).setIfInBounds 0 (some (f.entryKinds lane stack)),
          [0]⟩

theorem kinds_eq_bind (f : LinkedFunction) (p : Program) (lane : Lane) :
    f.kinds p lane = (f.firstSearch lane).bind (KindSearch.finish p f) := by
  unfold kinds firstSearch
  cases f.parameterKinds with
  | error e => rfl
  | ok stack => by_cases empty : f.code.isEmpty <;> simp only [empty] <;> rfl

theorem firstSearch_eq_ok {f : LinkedFunction} {lane : Lane} {s : KindSearch f.locals}
    (first : f.firstSearch lane = .ok s) :
    ∃ stack, f.parameterKinds = .ok stack ∧ 0 < f.code.size
      ∧ s = ⟨(Array.replicate f.code.size none).setIfInBounds 0
        (some (f.entryKinds lane stack)), [0]⟩ := by
  unfold firstSearch at first
  cases parameters : f.parameterKinds with
  | error e => simp [parameters] at first
  | ok stack =>
      by_cases empty : f.code.isEmpty
      · simp [parameters, empty] at first
      · simp only [parameters, empty] at first
        cases first
        rw [Array.isEmpty_iff_size_eq_zero] at empty
        exact ⟨stack, rfl, by omega, rfl⟩

theorem kindsFit_of_kinds {f : LinkedFunction} {p : Program} {lane : Lane}
    {states : Array (Option (KindState f.locals))} (h : f.kinds p lane = .ok states) :
    ∃ stack, f.parameterKinds = .ok stack ∧ KindsFit p f (f.entryKinds lane stack) states := by
  rw [kinds_eq_bind] at h
  cases first : f.firstSearch lane with
  | error e =>
      rw [first] at h
      cases h
  | ok s =>
      rw [first] at h
      obtain ⟨stack, parameters, body, rfl⟩ := firstSearch_eq_ok first
      exact ⟨stack, parameters, KindSearch.kindsFit_of_finish (.start _ body) h⟩

end LinkedFunction

end StackMachine
