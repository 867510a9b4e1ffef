import Mathlib
import StackMachine.Proofs.Native.Dialogue
import StackMachine.Proofs.NativeTransparency

/-! # Guards on questions

Each question about native code has a guard on what is known of the function, and each answer
changes what is known. A dialogue that keeps to the guards keeps the record of the function in
order: it is compiled at most once, its code is not called before it has been called often enough,
and once its native code is given up nothing is asked any more.
-/

namespace StackMachine

/-! ## Guards and answers -/

namespace Question

def isCompile : Question → Bool
  | .compile _ _ => true
  | _ => false

def isInvoke : Question → Bool
  | .invoke _ _ _ => true
  | _ => false

def IsAbout (p : Program) (f : LinkedFunction) : Question → Prop
  | .canCompile p' f' => p' = p ∧ f' = f
  | .compile p' f' => p' = p ∧ f' = f
  | .invoke _ _ _ => True

/-- Compilation is asked about if there is no code, and the code that there is is called. -/
def Suits (status : NativeStatus) : Question → Prop
  | .canCompile _ _ => status.code = none
  | .compile _ _ => status.code = none
  | .invoke code _ _ => status.code = some code

end Question

/-- A question may be asked only while native code is not given up, and after more calls than the
threshold. -/
structure Asks (p : Program) (f : LinkedFunction) (threshold : Nat) (status : NativeStatus)
    (q : Question) : Prop where
  enabled : status.disabled = false
  ripe : threshold < status.calls
  about : q.IsAbout p f
  code : q.Suits status

/-- The answers after which native code of the function is given up. -/
inductive Exchange.GivesUp (f : LinkedFunction) : Exchange → Prop where
  | refused {p : Program} {g : LinkedFunction} {log : List LogEntry} :
      GivesUp f ⟨.canCompile p g, some (false, log)⟩
  | uncompiled {p : Program} {g : LinkedFunction} {e : NativeError} {log : List LogEntry} :
      GivesUp f ⟨.compile p g, some (.error e, log)⟩
  | failed {code : NativeCode} {words : List Int64} {h h' : Heap} {e : NativeError} :
      GivesUp f ⟨.invoke code words h, some (h', .error e)⟩
  | formless {code : NativeCode} {words : List Int64} {h h' : Heap} {raw : Int64}
      (solid : f.result.isVoid = false) (none : Value.ofLane? raw f.result = none) :
      GivesUp f ⟨.invoke code words h, some (h', .ok raw)⟩

namespace NativeStatus

/-- What is known after a call is counted, which is not done once native code is given up. -/
def called (status : NativeStatus) : NativeStatus :=
  if status.disabled then status else status.recordCall

def told (f : LinkedFunction) (status : NativeStatus) : (q : Question) → q.Answer → NativeStatus
  | .canCompile _ _, able => if able.1 then status else status.disable
  | .compile _ _, compiled =>
      match compiled.1 with
      | .ok code => status.install code
      | .error _ => status.disable
  | .invoke _ _ _, answer =>
      match answer.2 with
      | .ok raw =>
          if f.result.isVoid || (Value.ofLane? raw f.result).isSome then status
          else status.disable
      | .error _ => status.disable

variable {f : LinkedFunction} {status : NativeStatus}

/-- An answer gives native code up, or brings it, or changes nothing. -/
theorem told_cases (f : LinkedFunction) (status : NativeStatus) (q : Question)
    (answer : q.Answer) :
    status.told f q answer = status.disable
      ∨ (∃ p g code log, (⟨q, some answer⟩ : Exchange) = ⟨.compile p g, some (.ok code, log)⟩
        ∧ status.told f q answer = status.install code)
      ∨ status.told f q answer = status ∧ q.isCompile = false := by
  cases q with
  | canCompile p g =>
      simp only [told]
      split
      · exact .inr (.inr ⟨rfl, rfl⟩)
      · exact .inl rfl
  | compile p g =>
      obtain ⟨compiled, log⟩ := answer
      cases compiled with
      | ok code => exact .inr (.inl ⟨p, g, code, log, rfl, rfl⟩)
      | error e => exact .inl rfl
  | invoke code words h =>
      simp only [told]
      split
      · split
        · exact .inr (.inr ⟨rfl, rfl⟩)
        · exact .inl rfl
      · exact .inl rfl

theorem disabled_told_of_givesUp {q : Question} {answer : q.Answer}
    (givesUp : Exchange.GivesUp f ⟨q, some answer⟩) : (status.told f q answer).disabled = true := by
  cases givesUp with
  | refused => rfl
  | uncompiled => rfl
  | failed => rfl
  | formless solid none => simp [told, solid, none, disable]

end NativeStatus

/-! ## Dialogues that keep to the guards -/

def NativeTable.Becomes (before : NativeTable) (index : Nat) (status : NativeStatus)
    (after : NativeTable) : Prop :=
  ∀ j, after.get j = if j = index then status else before.get j

namespace NativeTable.Becomes

variable {before between after : NativeTable} {index : Nat} {status status' : NativeStatus}

theorem same (t : NativeTable) (index : Nat) : t.Becomes index (t.get index) t := by
  intro j
  split
  · rename_i here
    rw [here]
  · rfl

theorem put (t : NativeTable) (index : Nat) (status : NativeStatus) :
    t.Becomes index status (t.put index status) :=
  fun j => NativeTable.get_put t index j status

theorem trans (first : before.Becomes index status between)
    (second : between.Becomes index status' after) : before.Becomes index status' after := by
  intro j
  rw [second, first]
  split <;> rfl

theorem here (becomes : before.Becomes index status after) : after.get index = status := by
  rw [becomes, if_pos rfl]

end NativeTable.Becomes

def NativeCall.state? : NativeCall → Option State
  | .returned _ s => some s
  | .unavailable s => some s
  | .outOfFuel => none

/-- From a status on, a dialogue keeps to the guards, whatever the answers are; where it is done,
its result and the status then are as required. -/
inductive Talk.Heeds (p : Program) (f : LinkedFunction) (threshold : Nat) {α : Type}
    (ends : NativeStatus → α → Prop) : NativeStatus → Talk α → Prop where
  | done {status : NativeStatus} {a : α} (end_ : ends status a) :
      Heeds p f threshold ends status (.done a)
  | ask {status : NativeStatus} {q : Question} {rest : q.Answer → Talk α}
      (guard : Asks p f threshold status q)
      (heeds : ∀ answer, Heeds p f threshold ends (status.told f q answer) (rest answer)) :
      Heeds p f threshold ends status (.ask q rest)

section Heeds

variable {p : Program} {f : LinkedFunction} {threshold : Nat} {α β : Type}

theorem Talk.Heeds.bind {between : NativeStatus → α → Prop} {ends : NativeStatus → β → Prop}
    {status : NativeStatus} {talk : Talk α} {next : α → Talk β}
    (heeds : Heeds p f threshold between status talk)
    (then_ : ∀ status' a, between status' a → Heeds p f threshold ends status' (next a)) :
    Heeds p f threshold ends status (talk.bind next) := by
  induction heeds with
  | done end_ => exact then_ _ _ end_
  | ask guard _ ih => exact .ask guard ih

theorem Talk.Heeds.imp {ends ends' : NativeStatus → α → Prop} {status : NativeStatus}
    {talk : Talk α} (heeds : Heeds p f threshold ends status talk)
    (imp : ∀ status' a, ends status' a → ends' status' a) :
    Heeds p f threshold ends' status talk := by
  induction heeds with
  | done end_ => exact .done (imp _ _ end_)
  | ask guard _ ih => exact .ask guard ih

theorem Talk.Heeds.ends_of_answered {ends : NativeStatus → α → Prop} {status : NativeStatus}
    {talk : Talk α} (heeds : Heeds p f threshold ends status talk) {answers : Answers} {a : α}
    (answered : (talk.answered answers).2 = some a) : ∃ status', ends status' a := by
  induction heeds with
  | done end_ =>
      cases answered
      exact ⟨_, end_⟩
  | @ask status q rest guard _ ih =>
      simp only [Talk.answered] at answered
      cases answer : answers q with
      | none => simp [answer] at answered
      | some answer' =>
          simp only [answer] at answered
          exact ih answer' answered

variable {s : State} {index : Nat}

/-- The table has the status, and code that was found is the code that it has, ready to be
called. -/
def State.Knows (s : State) (index threshold : Nat) (status : NativeStatus)
    (found : State × Option NativeCode) : Prop :=
  s.natives.Becomes index status found.1.natives
    ∧ ∀ code, found.2 = some code →
      status.disabled = false ∧ threshold < status.calls ∧ status.code = some code

/-- Compilation is asked about, then asked for, and what comes of it is written down. -/
theorem State.heeds_compileTalk {status : NativeStatus} (known : s.natives.get index = status)
    (enabled : status.disabled = false) (ripe : threshold < status.calls)
    (uncompiled : status.code = none) :
    (s.compileTalk p index f).Heeds p f threshold (s.Knows index threshold) status := by
  have able : Asks p f threshold status (.canCompile p f) :=
    ⟨enabled, ripe, ⟨rfl, rfl⟩, uncompiled⟩
  have compile : Asks p f threshold status (.compile p f) :=
    ⟨enabled, ripe, ⟨rfl, rfl⟩, uncompiled⟩
  subst known
  refine .ask able ?_
  rintro ⟨able, log⟩
  cases able with
  | false => exact .done ⟨.put _ _ _, fun code found => by cases found⟩
  | true =>
      refine .ask compile ?_
      rintro ⟨compiled, log'⟩
      cases compiled with
      | error e => exact .done ⟨.put _ _ _, fun code found => by cases found⟩
      | ok code =>
          refine .done ⟨.put _ _ _, ?_⟩
          intro code' found
          cases found
          exact ⟨enabled, ripe, rfl⟩

theorem State.heeds_codeTalk (config : Config) :
    (s.codeTalk config p index f).Heeds p f config.jitThreshold
      (s.Knows index config.jitThreshold) (s.natives.get index).called := by
  unfold State.codeTalk NativeStatus.called
  by_cases given : (s.natives.get index).disabled = true
  · simp only [if_pos given]
    exact .done ⟨.same _ _, fun code found => by cases found⟩
  · simp only [if_neg given]
    have enabled : (s.natives.get index).disabled = false := by simpa using given
    have counted : s.natives.Becomes index (s.natives.get index).recordCall
        (s.setNative index (s.natives.get index).recordCall).natives := .put _ _ _
    by_cases early : (s.natives.get index).recordCall.calls ≤ config.jitThreshold
    · rw [if_pos early]
      exact .done ⟨counted, fun code found => by cases found⟩
    · rw [if_neg early]
      have ripe : config.jitThreshold < (s.natives.get index).recordCall.calls := by omega
      cases installed : (s.natives.get index).code with
      | some code =>
          refine .done ⟨counted, ?_⟩
          intro code' found
          cases found
          exact ⟨enabled, ripe, installed⟩
      | none =>
          refine (State.heeds_compileTalk counted.here enabled ripe installed).imp ?_
          intro status' found knows
          exact ⟨counted.trans knows.1, knows.2⟩

/-- Code is called if there are words for the arguments, and its answer is written down. -/
theorem State.heeds_invokeTalk {code : NativeCode} {args : List Value}
    (enabled : (s.natives.get index).disabled = false)
    (ripe : threshold < (s.natives.get index).calls)
    (installed : (s.natives.get index).code = some code) :
    (s.invokeTalk index f code args).Heeds p f threshold
      (fun status call => ∀ t, call.state? = some t → s.natives.Becomes index status t.natives)
      (s.natives.get index) := by
  unfold State.invokeTalk
  cases converted : nativeArguments s.heap f.params args with
  | none =>
      refine .done fun t left => ?_
      cases left
      exact .same _ _
  | some words =>
      have guard : Asks p f threshold (s.natives.get index) (.invoke code words s.heap) :=
        ⟨enabled, ripe, trivial, installed⟩
      refine .ask guard ?_
      rintro ⟨h, e | raw⟩
      · refine .done fun t left => ?_
        simp only [State.invokeNative, converted, NativeCode.giving] at left
        cases left
        exact .put _ _ _
      · refine .done fun t left => ?_
        simp only [State.invokeNative, converted, NativeCode.giving] at left
        simp only [NativeStatus.told]
        by_cases void : f.result.isVoid = true
        · simp only [void, if_true, Bool.true_or] at left ⊢
          cases left
          exact .same _ _
        · simp only [Bool.not_eq_true] at void
          simp only [void, Bool.false_eq_true, if_false, Bool.false_or] at left ⊢
          cases form : Value.ofLane? raw f.result with
          | some v =>
              simp only [form] at left
              cases left
              exact .same _ _
          | none =>
              simp only [form] at left
              cases left
              exact .put _ _ _

theorem State.heeds_tryTalk (config : Config) (args : List Value) :
    (s.tryTalk config p index f args).Heeds p f config.jitThreshold
      (fun status call => ∀ t, call.state? = some t → s.natives.Becomes index status t.natives)
      (s.natives.get index).called := by
  refine (State.heeds_codeTalk config).bind ?_
  rintro status ⟨u, code⟩ ⟨becomes, ready⟩
  cases code with
  | none =>
      refine .done fun t left => ?_
      cases left
      exact becomes
  | some code =>
      obtain ⟨enabled, ripe, installed⟩ := ready code rfl
      have here : u.natives.get index = status := becomes.here
      rw [← here] at enabled ripe installed ⊢
      refine (State.heeds_invokeTalk enabled ripe installed).imp ?_
      intro status' call left t state
      exact becomes.trans (left t state)

end Heeds

/-! ## The record of a function -/

/-- A call of a function, or something asked for that call, in a run with the given threshold. -/
structure Event where
  threshold : Nat
  function : Nat
  /-- None for the call itself. -/
  exchange : Option Exchange

namespace Event

def isCall (e : Event) : Bool := e.exchange.isNone

def isCompile (e : Event) : Bool := e.exchange.any (·.question.isCompile)

def isInvoke (e : Event) : Bool := e.exchange.any (·.question.isInvoke)

def GivesUp (f : LinkedFunction) (e : Event) : Prop :=
  ∃ x, e.exchange = some x ∧ x.GivesUp f

def Brings (p : Program) (f : LinkedFunction) (code : NativeCode) (e : Event) : Prop :=
  ∃ log, e.exchange = some ⟨.compile p f, some (.ok code, log)⟩

end Event

structure Disciplined (p : Program) (f : LinkedFunction) (events : List Event) : Prop where
  about : ∀ e ∈ events, ∀ x, e.exchange = some x → x.question.IsAbout p f
  compiled : events.countP Event.isCompile ≤ 1
  /-- Code that is called was made of the function. -/
  own : ∀ before e after, events = before ++ e :: after → ∀ code words h answer,
    e.exchange = some ⟨.invoke code words h, answer⟩ → ∃ made ∈ before, made.Brings p f code
  /-- Code is called only after more calls than the threshold, this one included. -/
  patient : ∀ before e after, events = before ++ e :: after → e.isInvoke = true →
    e.threshold < before.countP Event.isCall
  /-- Once native code is given up, there are only calls. -/
  final : ∀ before e after, events = before ++ e :: after → e.GivesUp f →
    ∀ later ∈ after, later.exchange = none

structure Recorded (p : Program) (f : LinkedFunction) (events : List Event)
    (status : NativeStatus) : Prop where
  counted : status.calls ≤ events.countP Event.isCall
  bare : status.disabled = true → status.code = none
  installed : ∀ code, status.code = some code → ∃ made ∈ events, made.Brings p f code
  uncompiled : status.disabled = false → status.code = none → events.countP Event.isCompile = 0
  givenUp : ∀ e ∈ events, e.GivesUp f → status.disabled = true

section Record

variable {p : Program} {f : LinkedFunction} {events : List Event} {status : NativeStatus}

theorem split_concat {α : Type} {all before after : List α} {last x : α}
    (split : all ++ [last] = before ++ x :: after) :
    (before = all ∧ x = last ∧ after = [])
      ∨ ∃ rest, after = rest ++ [last] ∧ all = before ++ x :: rest := by
  rcases List.eq_nil_or_concat after with rfl | ⟨rest, newest, rfl⟩
  · obtain ⟨rfl, last_eq⟩ := List.append_inj' split rfl
    cases last_eq
    exact .inl ⟨rfl, rfl, rfl⟩
  · have regrouped : all ++ [last] = (before ++ x :: rest) ++ [newest] := by
      simpa using split
    obtain ⟨rfl, last_eq⟩ := List.append_inj' regrouped rfl
    cases last_eq
    exact .inr ⟨rest, List.concat_eq_append, rfl⟩

/-- One event more: what it has to satisfy itself, and if it is not a call, that nothing has been
given up. -/
theorem Disciplined.concat (disciplined : Disciplined p f events) {e : Event}
    (about : ∀ x, e.exchange = some x → x.question.IsAbout p f)
    (compiled : e.isCompile = true → events.countP Event.isCompile = 0)
    (own : ∀ code words h answer, e.exchange = some ⟨.invoke code words h, answer⟩ →
      ∃ made ∈ events, made.Brings p f code)
    (patient : e.isInvoke = true → e.threshold < events.countP Event.isCall)
    (final : e.exchange = none ∨ ∀ earlier ∈ events, ¬ earlier.GivesUp f) :
    Disciplined p f (events ++ [e]) where
  about := by
    intro e' member
    rcases List.mem_append.mp member with old | new
    · exact disciplined.about e' old
    · cases List.mem_singleton.mp new
      exact about
  compiled := by
    have before := disciplined.compiled
    rw [List.countP_append, List.countP_singleton]
    split
    · rename_i new
      have := compiled new
      omega
    · omega
  own := by
    intro before e' after split
    rcases split_concat split with ⟨rfl, rfl, rfl⟩ | ⟨rest, rfl, rfl⟩
    · exact own
    · exact disciplined.own before e' rest rfl
  patient := by
    intro before e' after split invoked
    rcases split_concat split with ⟨rfl, rfl, rfl⟩ | ⟨rest, rfl, rfl⟩
    · exact patient invoked
    · exact disciplined.patient before e' rest rfl invoked
  final := by
    intro before e' after split givesUp later member
    rcases split_concat split with ⟨rfl, rfl, rfl⟩ | ⟨rest, rfl, rfl⟩
    · cases member
    · rcases List.mem_append.mp member with old | new
      · exact disciplined.final before e' rest rfl givesUp later old
      · cases List.mem_singleton.mp new
        refine final.resolve_right fun none => none e' ?_ givesUp
        simp

theorem Disciplined.nil (p : Program) (f : LinkedFunction) : Disciplined p f [] where
  about _ member := by cases member
  compiled := Nat.zero_le 1
  own before _ _ split := by simp at split
  patient before _ _ split := by simp at split
  final before _ _ split := by simp at split

theorem Recorded.fresh (p : Program) (f : LinkedFunction) : Recorded p f [] .fresh where
  counted := Nat.le_refl 0
  bare _ := rfl
  installed _ no := by cases no
  uncompiled _ _ := rfl
  givenUp _ member := by cases member

theorem Disciplined.call (disciplined : Disciplined p f events) (threshold index : Nat) :
    Disciplined p f (events ++ [⟨threshold, index, none⟩]) :=
  disciplined.concat (fun _ no => by cases no) (fun no => by cases no)
    (fun _ _ _ _ no => by cases no) (fun no => by cases no) (.inl rfl)

/-- A call that is not counted. -/
theorem Recorded.call (recorded : Recorded p f events status) (threshold index : Nat) :
    Recorded p f (events ++ [⟨threshold, index, none⟩]) status where
  counted := by
    have before := recorded.counted
    rw [List.countP_append]
    omega
  bare := recorded.bare
  installed code there := by
    obtain ⟨made, member, brings⟩ := recorded.installed code there
    exact ⟨made, List.mem_append_left _ member, brings⟩
  uncompiled enabled none := by
    rw [List.countP_append, recorded.uncompiled enabled none]
    rfl
  givenUp := by
    intro e member givesUp
    rcases List.mem_append.mp member with old | new
    · exact recorded.givenUp e old givesUp
    · cases List.mem_singleton.mp new
      obtain ⟨x, no, _⟩ := givesUp
      cases no

theorem Recorded.called (recorded : Recorded p f events status) (threshold index : Nat) :
    Recorded p f (events ++ [⟨threshold, index, none⟩]) status.called := by
  have uncounted := recorded.call threshold index
  unfold NativeStatus.called
  by_cases given : status.disabled = true
  · rw [if_pos given]
    exact uncounted
  · rw [if_neg given]
    refine ⟨?_, uncounted.bare, uncounted.installed, uncounted.uncompiled, uncounted.givenUp⟩
    have before := recorded.counted
    have one : List.countP Event.isCall [(⟨threshold, index, none⟩ : Event)] = 1 := rfl
    rw [List.countP_append, one]
    simp only [NativeStatus.recordCall]
    omega

variable {threshold : Nat} {q : Question}

/-- A question that keeps to its guard keeps the discipline, answered or not. -/
theorem Disciplined.exchange (disciplined : Disciplined p f events)
    (recorded : Recorded p f events status) (guard : Asks p f threshold status q) (index : Nat)
    (answer : Option q.Answer) :
    Disciplined p f (events ++ [⟨threshold, index, some ⟨q, answer⟩⟩]) := by
  refine disciplined.concat ?_ ?_ ?_ ?_ (.inr ?_)
  · rintro x same
    cases same
    exact guard.about
  · intro compile
    cases q with
    | compile p' f' => exact recorded.uncompiled guard.enabled guard.code
    | _ => cases compile
  · rintro code words h answer' same
    cases same
    exact recorded.installed code guard.code
  · intro _
    exact Nat.lt_of_lt_of_le guard.ripe recorded.counted
  · intro earlier member givesUp
    have disabled := recorded.givenUp earlier member givesUp
    rw [guard.enabled] at disabled
    cases disabled

/-- What is known after an answer is right if it was before. -/
theorem Recorded.exchange (recorded : Recorded p f events status)
    (guard : Asks p f threshold status q) (index : Nat) (answer : q.Answer) :
    Recorded p f (events ++ [⟨threshold, index, some ⟨q, some answer⟩⟩])
      (status.told f q answer) where
  counted := by
    have before := recorded.counted
    have same : (status.told f q answer).calls = status.calls := by
      rcases status.told_cases f q answer with gone | ⟨_, _, _, _, _, come⟩ | ⟨same, _⟩
      · rw [gone]
        rfl
      · rw [come]
        rfl
      · rw [same]
    rw [same, List.countP_append]
    omega
  bare := by
    intro disabled
    rcases status.told_cases f q answer with gone | ⟨_, _, _, _, _, come⟩ | ⟨same, _⟩
    · rw [gone]
      rfl
    · have kept : status.disabled = true := by
        rw [come] at disabled
        exact disabled
      rw [guard.enabled] at kept
      cases kept
    · rw [same] at disabled ⊢
      exact recorded.bare disabled
  installed := by
    intro code there
    rcases status.told_cases f q answer with gone | ⟨p', g, code', log, asked, come⟩ | ⟨same, _⟩
    · rw [gone] at there
      cases there
    · rw [come] at there
      cases there
      cases asked
      obtain ⟨rfl, rfl⟩ := guard.about
      exact ⟨_, List.mem_append_right _ (List.mem_singleton.mpr rfl), log, rfl⟩
    · rw [same] at there
      obtain ⟨made, member, brings⟩ := recorded.installed code there
      exact ⟨made, List.mem_append_left _ member, brings⟩
  uncompiled := by
    intro enabled none
    rcases status.told_cases f q answer with gone | ⟨_, _, _, _, _, come⟩ | ⟨same, other⟩
    · rw [gone] at enabled
      cases enabled
    · rw [come] at none
      cases none
    · rw [same] at enabled none
      have asked : Event.isCompile ⟨threshold, index, some ⟨q, some answer⟩⟩ = false := other
      rw [List.countP_append, recorded.uncompiled enabled none, List.countP_singleton, asked]
      rfl
  givenUp := by
    intro e member givesUp
    rcases List.mem_append.mp member with old | new
    · have disabled := recorded.givenUp e old givesUp
      rw [guard.enabled] at disabled
      cases disabled
    · cases List.mem_singleton.mp new
      obtain ⟨x, same, givesUp⟩ := givesUp
      cases same
      exact NativeStatus.disabled_told_of_givesUp givesUp

end Record

/-- A dialogue that keeps to the guards keeps the discipline, and leaves a status that is right. The
induction is on the dialogue; each exchange is one event more. -/
theorem Talk.Heeds.recorded {p : Program} {f : LinkedFunction} {threshold : Nat} {α : Type}
    {ends : NativeStatus → α → Prop} {status : NativeStatus} {talk : Talk α}
    (heeds : Heeds p f threshold ends status talk) (answers : Answers) (index : Nat)
    {events : List Event} (disciplined : Disciplined p f events)
    (recorded : Recorded p f events status) :
    Disciplined p f
        (events ++ (talk.answered answers).1.map fun x => ⟨threshold, index, some x⟩)
      ∧ ∀ a, (talk.answered answers).2 = some a → ∃ status', ends status' a
        ∧ Recorded p f (events ++ (talk.answered answers).1.map fun x => ⟨threshold, index, some x⟩)
            status' := by
  induction heeds generalizing events with
  | done end_ =>
      simp only [Talk.answered, List.map_nil, List.append_nil]
      refine ⟨disciplined, fun a same => ?_⟩
      cases same
      exact ⟨_, end_, recorded⟩
  | @ask status q rest guard _ ih =>
      simp only [Talk.answered]
      cases answers q with
      | none => exact ⟨disciplined.exchange recorded guard index none, fun a no => by cases no⟩
      | some answer =>
          have later := ih answer (disciplined.exchange recorded guard index (some answer))
            (recorded.exchange guard index answer)
          simpa only [List.map_cons, List.append_assoc, List.singleton_append] using later

end StackMachine
