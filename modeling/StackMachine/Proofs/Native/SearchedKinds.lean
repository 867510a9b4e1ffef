import Mathlib
import StackMachine.Proofs.Native.SettledKinds

/-! # Searches for kinds, move by move

A search takes a place from its list and follows control from there to each place that comes next.
A place is put on the list when control first enters it, and again only when some of its locals
become unknown, so at most once more often than there are locals. Every search ends, and what it
has found by then holds along every edge of the control flow.
-/

namespace StackMachine

/-- What is assumed of a local is nothing, or what is known of it. -/
theorem KindState.Covers.local_eq {n : Nat} {assumed known : KindState n}
    (covers : assumed.Covers known) {slot : Nat} (h : slot < n) :
    assumed.locals[slot] = none ∨ assumed.locals[slot] = known.locals[slot] := by
  cases kind : assumed.locals[slot] with
  | none => exact .inl rfl
  | some k =>
      right
      have here := covers.locals slot k (by rw [Vector.getElem?_eq_getElem h, kind])
      rw [Vector.getElem?_eq_getElem h] at here
      exact (Option.some.inj here).symm

namespace KindSearch

/-- Control comes from `pc` to `next`, and `known` is what is known on the way. -/
structure Arrival (n : Nat) where
  pc : Nat
  known : KindState n
  next : Nat

/-- A moment of a search. Of the visit under way, some arrivals may be left. The places that have
been visited and those that have been put on the list are kept, the latest first. -/
structure Moment (n : Nat) where
  search : KindSearch n
  left : List (Arrival n)
  visited : List Nat
  pushed : List Nat

variable {n : Nat}

/-- The ways on from a place. There are none if control has not come to the place. -/
def departures (p : Program) (f : LinkedFunction) (states : Array (Option (KindState n)))
    (pc : Nat) : Except NativeError (List (Arrival n)) :=
  match states[pc]?.join, f.code[pc]? with
  | some state, some i =>
      match state.step p f pc i with
      | .ok after => .ok ((i.branches pc).map (Arrival.mk pc after))
      | .error e => .error e
  | _, _ => .ok []

def added (s t : KindSearch n) : List Nat :=
  t.pending.take (t.pending.length - s.pending.length)

namespace Moment

def start (s : KindSearch n) : Moment n := ⟨s, [], [], s.pending⟩

/-- The next move of a search, if there is one: the next arrival of the visit under way, or else
a visit to the place on top of the list. -/
def next (p : Program) (f : LinkedFunction) (m : Moment n) :
    Except NativeError (Option (Moment n)) :=
  match m.left, m.search.pending with
  | way :: left, _ =>
      match arrive f way.pc way.known m.search way.next with
      | .ok t => .ok (some ⟨t, left, m.visited, added m.search t ++ m.pushed⟩)
      | .error e => .error e
  | [], pc :: rest =>
      match departures p f m.search.states pc with
      | .ok left => .ok (some ⟨⟨m.search.states, rest⟩, left, pc :: m.visited, m.pushed⟩)
      | .error e => .error e
  | [], [] => .ok none

end Moment

inductive ComesTo (p : Program) (f : LinkedFunction) (s : KindSearch n) : Moment n → Prop where
  | start : ComesTo p f s (.start s)
  | move {m m' : Moment n} (before : ComesTo p f s m) (moved : m.next p f = .ok (some m')) :
      ComesTo p f s m'

/-! ## What has been put on the list -/

section Budget

variable {p : Program} {f : LinkedFunction} {s t : KindSearch n} {m m' : Moment n}

theorem added_self (s : KindSearch n) : added s s = [] := by
  simp [added]

theorem pending_of_arrive {pc next : Nat} {incoming : KindState n}
    (h : arrive f pc incoming s next = .ok t) : t.pending = added s t ++ s.pending := by
  obtain rfl | ⟨state, bound, _, rfl⟩ := lighter_of_arrive h
  · rw [added_self, List.nil_append]
  · simp [added]

/-- Each time a place is put on the list, its state gets lighter. -/
theorem weight_of_arrive {pc next : Nat} {incoming : KindState n}
    (h : arrive f pc incoming s next = .ok t) (q : Nat) :
    (added s t).count q + weight t.states[q]?.join ≤ weight s.states[q]?.join := by
  obtain rfl | ⟨state, bound, lighter, rfl⟩ := lighter_of_arrive h
  · simp [added_self]
  · have top : added s ⟨s.states.set next (some state), next :: s.pending⟩ = [next] := by
      simp [added]
    rw [top]
    by_cases same : next = q
    · subst same
      simp only [List.count_singleton_self, Array.getElem?_set_self bound,
        Array.getElem?_eq_getElem bound, Option.join_some]
      omega
    · simp [Array.getElem?_set_ne bound same, same]

/-- The books of a search over a number of places. Whatever was put on the list has been visited or
is still there. How often a place was put there and what its state still weighs come to no more
than what a place that was never entered weighs. -/
structure Moment.Accounted (places : Nat) (m : Moment n) : Prop where
  size : m.search.states.size = places
  balance : m.pushed.Perm (m.visited ++ m.search.pending)
  budget : ∀ pc, m.pushed.count pc + weight m.search.states[pc]?.join ≤ n + 1

namespace Moment

/-- A move is an arrival, or a visit to the place on top of the list. -/
theorem next_eq_some (moved : m.next p f = .ok (some m')) :
    (∃ way left t, m.left = way :: left
        ∧ arrive f way.pc way.known m.search way.next = .ok t
        ∧ m' = ⟨t, left, m.visited, added m.search t ++ m.pushed⟩)
      ∨ ∃ pc rest left, m.left = [] ∧ m.search.pending = pc :: rest
        ∧ departures p f m.search.states pc = .ok left
        ∧ m' = ⟨⟨m.search.states, rest⟩, left, pc :: m.visited, m.pushed⟩ := by
  unfold next at moved
  cases ways : m.left with
  | cons way left =>
      rw [ways] at moved
      cases arrived : arrive f way.pc way.known m.search way.next with
      | error e => simp [arrived] at moved
      | ok t =>
          simp only [arrived, Except.ok.injEq, Option.some.injEq] at moved
          exact .inl ⟨way, left, t, rfl, arrived, moved.symm⟩
  | nil =>
      rw [ways] at moved
      cases pending : m.search.pending with
      | nil => simp [pending] at moved
      | cons pc rest =>
          cases departed : departures p f m.search.states pc with
          | error e => simp [pending, departed] at moved
          | ok left =>
              simp only [pending, departed, Except.ok.injEq, Option.some.injEq] at moved
              exact .inr ⟨pc, rest, left, rfl, rfl, departed, moved.symm⟩

theorem Accounted.next {places : Nat} (before : m.Accounted places)
    (moved : m.next p f = .ok (some m')) : m'.Accounted places := by
  obtain ⟨way, left, t, _, arrived, rfl⟩ | ⟨pc, rest, left, _, pending, _, rfl⟩ :=
    next_eq_some moved
  · refine ⟨(extends_of_arrive arrived).1.size.trans before.size, ?_, fun pc => ?_⟩
    · have balance := before.balance
      rw [pending_of_arrive arrived]
      exact (balance.append_left _).trans (List.perm_append_comm_assoc ..)
    · have paid := weight_of_arrive arrived pc
      have budget := before.budget pc
      simp only [List.count_append]
      omega
  · refine ⟨before.size, ?_, before.budget⟩
    have balance := before.balance
    rw [pending] at balance
    exact balance.trans List.perm_middle

theorem Accounted.comesTo {places : Nat} (first : (start s).Accounted places)
    (comes : ComesTo p f s m) : m.Accounted places := by
  induction comes with
  | start => exact first
  | move _ moved ih => exact ih.next moved

section Accounts

variable {places : Nat} (accounted : m.Accounted places)

include accounted

theorem Accounted.count_le (pc : Nat) : m.pushed.count pc ≤ 1 + n := by
  have budget := accounted.budget pc
  omega

theorem Accounted.lt_of_mem {pc : Nat} (member : pc ∈ m.pushed) : pc < places := by
  by_contra outside
  have unknown : m.search.states[pc]? = none := by
    rw [Array.getElem?_eq_none_iff, accounted.size]
    omega
  have budget := accounted.budget pc
  have once := List.count_pos_iff.mpr member
  simp only [unknown, Option.join_none, weight] at budget
  omega

/-- Every visit has been paid for when its place was put on the list. -/
theorem Accounted.visited_le : m.visited.length ≤ places * (1 + n) := by
  have inside : m.pushed.toFinset ⊆ Finset.range places := by
    intro pc member
    exact Finset.mem_range.mpr (accounted.lt_of_mem (List.mem_toFinset.mp member))
  have length := accounted.balance.length_eq
  rw [List.length_append] at length
  calc m.visited.length
      ≤ m.pushed.length := by omega
    _ = ∑ pc ∈ m.pushed.toFinset, m.pushed.count pc :=
        (List.sum_toFinset_count_eq_length m.pushed).symm
    _ ≤ m.pushed.toFinset.card * (1 + n) :=
        Finset.sum_le_card_nsmul _ _ _ fun pc _ => accounted.count_le pc
    _ ≤ places * (1 + n) := by
        gcongr
        simpa using Finset.card_le_card inside

end Accounts

end Moment

end Budget

/-! ## How a search ends -/

section Endings

variable {p : Program} {f : LinkedFunction} {s : KindSearch n} {m : Moment n}

def Yields (p : Program) (f : LinkedFunction) (s : KindSearch n) :
    Except NativeError (KindSearch n) → Prop
  | .ok t => ∃ m, ComesTo p f s m ∧ m.left = [] ∧ m.search = t
  | .error e => ∃ m, ComesTo p f s m ∧ m.next p f = .error e

theorem yields_arriveAll (comes : ComesTo p f s m) {pc : Nat} {known : KindState n}
    {places : List Nat} (left : m.left = places.map (Arrival.mk pc known)) :
    Yields p f s (arriveAll f pc known m.search places) := by
  induction places generalizing m with
  | nil => exact ⟨m, comes, left, rfl⟩
  | cons next rest ih =>
      rw [List.map_cons] at left
      rw [arriveAll]
      cases arrived : arrive f pc known m.search next with
      | error e => exact ⟨m, comes, by simp [Moment.next, left, arrived]⟩
      | ok t =>
          have moved : m.next p f = .ok (some ⟨t, rest.map (Arrival.mk pc known), m.visited,
              added m.search t ++ m.pushed⟩) := by
            simp [Moment.next, left, arrived]
          exact ih (comes.move moved) rfl

theorem yields_visit (comes : ComesTo p f s m) (left : m.left = []) {pc : Nat} {rest : List Nat}
    (pending : m.search.pending = pc :: rest) :
    Yields p f s (visit p f ⟨m.search.states, rest⟩ pc) := by
  have taken : ∀ ways, departures p f m.search.states pc = .ok ways →
      ComesTo p f s ⟨⟨m.search.states, rest⟩, ways, pc :: m.visited, m.pushed⟩ := by
    intro ways departed
    exact comes.move (by simp [Moment.next, left, pending, departed])
  rw [visit]
  cases known : m.search.states[pc]?.join with
  | none => exact ⟨_, taken [] (by simp [departures, known]), rfl, rfl⟩
  | some state =>
      cases here : f.code[pc]? with
      | none => exact ⟨_, taken [] (by simp [departures, known, here]), rfl, rfl⟩
      | some i =>
          cases went : state.step p f pc i with
          | error e =>
              have refused : departures p f m.search.states pc = .error e := by
                simp only [departures, known, here, went]
              simp only [went]
              exact ⟨m, comes, by simp [Moment.next, left, pending, refused]⟩
          | ok after =>
              have departed : departures p f m.search.states pc
                  = .ok ((i.branches pc).map (Arrival.mk pc after)) := by
                simp only [departures, known, here, went]
              simp only [went]
              exact yields_arriveAll (taken _ departed) rfl

/-- The last move leaves what the search has found, or is refused as the search is. -/
theorem comesTo_end (comes : ComesTo p f s m) (left : m.left = []) :
    ∃ last, ComesTo p f s last
      ∧ (last.next p f = .ok none ∧ finish p f m.search = .ok last.search.states
        ∨ ∃ e, last.next p f = .error e ∧ finish p f m.search = .error e) := by
  generalize search : m.search = u
  induction u using finish.induct p f generalizing m with
  | case1 u done =>
      obtain ⟨states, _⟩ := u
      cases done
      refine ⟨m, comes, .inl ⟨by simp [Moment.next, left, search], ?_⟩⟩
      rw [finish_nil, search]
  | case2 u pc rest pending t visited ih =>
      obtain ⟨states, _⟩ := u
      cases pending
      have yields : Yields p f s (visit p f ⟨m.search.states, rest⟩ pc) :=
        yields_visit comes left (by rw [search])
      rw [search, visited] at yields
      obtain ⟨m', comes', left', search'⟩ := yields
      rw [finish_cons, visited]
      exact ih comes' left' search'
  | case3 u pc rest pending e refused =>
      obtain ⟨states, _⟩ := u
      cases pending
      have yields : Yields p f s (visit p f ⟨m.search.states, rest⟩ pc) :=
        yields_visit comes left (by rw [search])
      rw [search, refused] at yields
      obtain ⟨last, comes', refused'⟩ := yields
      refine ⟨last, comes', .inr ⟨e, refused', ?_⟩⟩
      rw [finish_cons, refused]
      rfl

end Endings

end KindSearch

/-! ## Searches of functions -/

theorem LinkedFunction.accounted_firstSearch {f : LinkedFunction} {lane : Lane}
    {s : KindSearch f.locals} (first : f.firstSearch lane = .ok s) :
    (KindSearch.Moment.start s).Accounted f.code.size := by
  obtain ⟨stack, _, body, rfl⟩ := firstSearch_eq_ok first
  refine ⟨by simp [KindSearch.Moment.start], .refl _, fun pc => ?_⟩
  simp only [KindSearch.Moment.start]
  by_cases entry : pc = 0
  · subst entry
    have le := KindSearch.weight_some_le (f.entryKinds lane stack)
    simp only [List.count_singleton_self, Array.getElem?_setIfInBounds_self_of_lt, body,
      Array.size_replicate, Option.join_some]
    omega
  · have unknown : ((Array.replicate f.code.size none).setIfInBounds 0
        (some (f.entryKinds lane stack)))[pc]?.join = none := by
      rw [Array.getElem?_setIfInBounds_ne (by omega), Array.getElem?_replicate]
      split <;> rfl
    rw [unknown, List.count_singleton, KindSearch.weight]
    simp [Ne.symm entry]

/-- The search for the kinds of a function ends, with the kinds of the function or with the error
with which it is refused. Up to any moment of it, also of a search that is refused in the end, each
place has been put on the list at most once more often than there are locals. If the function is
accepted, kinds are recorded at the start, and wherever they are recorded the instruction goes
well. Each place where control can go from there then has kinds recorded too: on the stack those
that the instruction leaves, and for each local the one that it leaves, or none. -/
theorem kind_search_ends_at_a_fixpoint (f : LinkedFunction) (p : Program) (lane : Lane) :
    f.kinds p lane = (f.firstSearch lane).bind (KindSearch.finish p f)
      ∧ (∀ s, f.firstSearch lane = .ok s →
          (∀ m, KindSearch.ComesTo p f s m →
            (∀ pc, m.pushed.count pc ≤ 1 + f.locals)
              ∧ m.visited.length ≤ f.code.size * (1 + f.locals))
          ∧ ∃ last, KindSearch.ComesTo p f s last
            ∧ (last.next p f = .ok none ∧ f.kinds p lane = .ok last.search.states
              ∨ ∃ e, last.next p f = .error e ∧ f.kinds p lane = .error e))
      ∧ ∀ states, f.kinds p lane = .ok states →
          (∃ stack assumed, f.parameterKinds = .ok stack ∧ states[0]? = some (some assumed)
            ∧ assumed.Covers (f.entryKinds lane stack))
          ∧ ∀ (pc : Nat) (state : KindState f.locals), states[pc]? = some (some state) →
              ∃ i after, f.code[pc]? = some i ∧ state.step p f pc i = .ok after
                ∧ ∀ next ∈ i.branches pc, ∃ assumed, states[next]? = some (some assumed)
                  ∧ assumed.stack = after.stack
                  ∧ ∀ (slot : Nat) (h : slot < f.locals),
                      assumed.locals[slot] = none ∨ assumed.locals[slot] = after.locals[slot] := by
  refine ⟨f.kinds_eq_bind p lane, ?_, ?_⟩
  · intro s first
    have books := LinkedFunction.accounted_firstSearch first
    refine ⟨fun m comes => ?_, ?_⟩
    · have accounted := books.comesTo comes
      exact ⟨accounted.count_le, accounted.visited_le⟩
    · rw [f.kinds_eq_bind, first]
      exact KindSearch.comesTo_end .start rfl
  · intro states found
    obtain ⟨stack, parameters, fit⟩ := f.kindsFit_of_kinds found
    obtain ⟨assumed, at_start, covers⟩ := fit.entry
    refine ⟨⟨stack, assumed, parameters, at_start, covers⟩, ?_⟩
    intro pc state recorded
    have inside : pc < f.code.size := by
      rw [← fit.size]
      exact (Array.getElem?_eq_some_iff.mp recorded).1
    have here := Array.getElem?_eq_getElem inside
    obtain ⟨after, goes_well, edges⟩ := fit.settled pc state _ recorded here
    refine ⟨_, after, here, goes_well, fun next branch => ?_⟩
    obtain ⟨assumed, at_next, covers⟩ := edges next branch
    exact ⟨assumed, at_next, covers.stack, fun slot h => covers.local_eq h⟩

/-! A loop whose local is an integer at first, and a truth value when control comes back. -/

namespace Wavering

def program : Program := ⟨#[.ofBool true], #[], #[], .empty, .empty⟩

def function : LinkedFunction :=
  ⟨"Wavering", ⟨0, 0, 0, 1, 1,
    #[⟨.ldc, some 0⟩, ⟨.store, some 0⟩, ⟨.ldv, some 0⟩, ⟨.jnz, some 0⟩, ⟨.ret, none⟩]⟩, [], .void⟩

def entered : KindSearch 1 := ⟨#[some ⟨[], #v[some .int]⟩, none, none, none, none], [0]⟩

def back : KindSearch.Moment 1 :=
  ⟨⟨#[some ⟨[], #v[none]⟩, some ⟨[.bool], #v[some .int]⟩, some ⟨[], #v[some .bool]⟩,
      some ⟨[.bool], #v[some .bool]⟩, none], [0]⟩,
    [⟨3, ⟨[], #v[some .bool]⟩, 4⟩], [3, 2, 1, 0], [0, 3, 2, 1, 0]⟩

def kinds : Array (Option (KindState 1)) :=
  #[some ⟨[], #v[none]⟩, some ⟨[.bool], #v[none]⟩, some ⟨[], #v[some .bool]⟩,
    some ⟨[.bool], #v[some .bool]⟩, some ⟨[], #v[some .bool]⟩]

theorem comesTo_back : KindSearch.ComesTo program function entered back :=
  (((((((KindSearch.ComesTo.start.move rfl).move rfl).move rfl).move rfl).move rfl).move rfl).move
    rfl).move (by cbv)

theorem comes_back_as_often_as_it_can :
    function.firstSearch .i32 = .ok entered
      ∧ KindSearch.ComesTo program function entered back
      ∧ back.pushed.count 0 = 1 + function.locals
      ∧ (∀ pc, back.pushed.count pc ≤ 1 + function.locals) ∧ back.visited.length ≤ 10
      ∧ function.kinds program .i32 = .ok kinds
      ∧ ∃ assumed : KindState 1, kinds[0]? = some (some assumed) ∧ assumed.stack = []
        ∧ (assumed.locals[0] = none ∨ assumed.locals[0] = some .bool) := by
  have first : function.firstSearch .i32 = .ok entered := by cbv
  have found : function.kinds program .i32 = .ok kinds := by decide +kernel
  obtain ⟨_, ends, fixpoint⟩ := kind_search_ends_at_a_fixpoint function program .i32
  obtain ⟨count, visits⟩ := (ends entered first).1 back comesTo_back
  refine ⟨first, comesTo_back, by decide, count, visits, found, ?_⟩
  obtain ⟨i, after, here, went, edges⟩ := (fixpoint kinds found).2 3 _ rfl
  cases here
  cases went
  obtain ⟨assumed, at_start, stack, locals⟩ := edges 0 (by decide)
  exact ⟨assumed, at_start, stack, locals 0 (by decide)⟩

end Wavering

end StackMachine
