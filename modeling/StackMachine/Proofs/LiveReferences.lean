import Mathlib
import StackMachine.Proofs.AlikeRuns
import StackMachine.Proofs.NativeTransparency
import StackMachine.Proofs.Faults

/-! # References name live arrays

In every state of a run, what the frames lead to is null or a live object, and every object is an
array whose elements are of its type. That nothing dangles says that the state is alike to itself:
a reference that names nothing is alike to no reference. So steps keep it because they keep
states alike.
-/

namespace StackMachine

/-- The state is alike to itself, by some pairing of references. -/
def State.Coherent (s : State) : Prop := ∃ ρ, s.Alike ρ s

/-! ## What a coherent state leads to -/

section Coherent

variable {ρ : Pairing} {s : State}

theorem Matching.fields_alike {h : Heap} {r : HeapRef} {o : HeapObject} (matching : Matching ρ h h)
    (pair : ρ r r) (live : h.get? r = some o) : ∀ v ∈ o.fields, v.Alike ρ v := by
  obtain ⟨o₁, o₂, live₁, live₂, alike⟩ := matching.objects pair
  rw [live] at live₁ live₂
  cases live₁
  cases live₂
  intro v held
  exact List.forall₂_same.mp alike.fields v (Array.mem_toList_iff.mpr held)

theorem State.Alike.roots_alike (alike : s.Alike ρ s) :
    ∀ v ∈ CallStack.roots s.frames, v.Alike ρ v := by
  intro v root
  obtain ⟨frame, member, held⟩ := List.mem_flatMap.mp root
  have one : frame.Alike ρ frame :=
    List.forall₂_same.mp alike.frames frame (List.mem_reverse.mp member)
  rcases List.mem_append.mp held with here | here
  · exact List.forall₂_same.mp one.locals v here
  · exact List.forall₂_same.mp one.operands v (List.mem_reverse.mp here)

/-- What the frames lead to is null or paired with itself. -/
theorem State.Alike.reached_alike (alike : s.Alike ρ s) {r : HeapRef}
    (reached : s.heap.Reaches s.frames r) : (Value.ref r).Alike ρ (.ref r) := by
  induction reached with
  | root held => exact alike.roots_alike _ held
  | field _ there held ih =>
      cases ih with
      | ref same =>
          cases same with
          | null =>
              rw [alike.sound.get?_null] at there
              cases there
          | paired pair => exact alike.heaps.fields_alike pair there _ held
      | plain plain => cases plain

theorem State.Coherent.live (coherent : s.Coherent) {r : HeapRef}
    (reached : s.heap.Reaches s.frames r) : r = .null ∨ s.heap.isLive r = true := by
  obtain ⟨ρ, alike⟩ := coherent
  cases alike.reached_alike reached with
  | ref same =>
      cases same with
      | null => exact .inl rfl
      | paired pair =>
          obtain ⟨o, _, live, _⟩ := alike.heaps.objects pair
          exact .inr (by rw [Heap.isLive, live]; rfl)
  | plain plain => cases plain

/-- If nothing dangles, what the frames lead to is paired with itself. -/
theorem State.coherent_of_live (sound : s.heap.Sound)
    (live : ∀ r, s.heap.Reaches s.frames r → r = .null ∨ s.heap.isLive r = true) :
    s.Coherent := by
  let paired : Pairing := fun a b => a = b ∧ a ≠ .null ∧ s.heap.Reaches s.frames a
  have value : ∀ v : Value, (∀ r, v = .ref r → s.heap.Reaches s.frames r) → v.Alike paired v := by
    intro v reached
    cases v with
    | ref r =>
        by_cases null : r = .null
        · subst null
          exact .ref .null
        · exact .ref (.paired ⟨rfl, null, reached r rfl⟩)
    | _ => exact .plain rfl
  refine ⟨paired, ⟨?_, ?_, ?_⟩, sound, sound, ?_, rfl⟩
  · rintro a b b' ⟨rfl, _⟩ ⟨rfl, _⟩
    rfl
  · rintro a a' b ⟨rfl, _⟩ ⟨rfl, _⟩
    rfl
  · rintro a b ⟨rfl, nonnull, reached⟩
    have present := (live a reached).resolve_left nonnull
    obtain ⟨o, there⟩ := Option.isSome_iff_exists.mp present
    refine ⟨o, o, there, there, rfl, rfl, List.forall₂_same.mpr ?_⟩
    intro v held
    refine value v ?_
    rintro r rfl
    exact .field reached there (Array.mem_toList_iff.mp held)
  · refine List.forall₂_same.mpr ?_
    intro frame member
    have root : ∀ v ∈ frame.roots, v.Alike paired v := by
      intro v held
      refine value v ?_
      rintro r rfl
      exact .root (List.mem_flatMap.mpr ⟨frame, List.mem_reverse.mpr member, held⟩)
    refine ⟨rfl, rfl, List.forall₂_same.mpr ?_, List.forall₂_same.mpr ?_⟩
    · intro v held
      exact root v (List.mem_append_left _ held)
    · intro v held
      exact root v (List.mem_append_right _ (List.mem_reverse.mpr held))

/-- Without frames there is nothing to be incoherent. -/
theorem State.coherent_of_empty (sound : s.heap.Sound) (none : s.frames = []) : s.Coherent :=
  ⟨fun _ _ => False, .nothing _ _, sound, sound, by rw [none]; exact .nil, rfl⟩

end Coherent

/-! ## Faults that name a reference -/

def Fault.NamesOnlyNull (fault : Fault) : Prop := ∀ id, fault = .invalidHeapRef id → id = 0

abbrev FailsOnNull {α : Type} (x : Except Fault α) : Prop := FailsOnly Fault.NamesOnlyNull x

theorem Fault.namesOnlyNull_of_plain (fault : Fault) (plain : fault.isPlain = true) :
    fault.NamesOnlyNull := by
  rintro id rfl
  cases plain

theorem Program.failsOnNull_constantValue (p : Program) (index : Nat) :
    FailsOnNull (p.constantValue index) := by
  refine (failsOnly_constant Fault.namesOnlyNull_of_plain p index).bind ?_
  intro c _
  unfold Constant.value
  split
  · exact .error nofun
  · split
    · exact .ok _
    · exact .ok _
    · split
      · exact .ok _
      · exact .error nofun
    · exact .error nofun

theorem Frame.failsOnNull_execute (p : Program) (frame : Frame) (i : Instruction) :
    FailsOnNull (frame.execute p i) :=
  failsOnly_execute Fault.namesOnlyNull_of_plain p frame i
    fun _ => p.failsOnNull_constantValue i.arg

/-! ### Arrays -/

section Access

variable {ρ : Pairing} {h : Heap} {r : HeapRef}

/-- A reference that is alike to itself is null or names an object. -/
theorem Matching.failsOnNull_array (matching : Matching ρ h h) (same : r.Alike ρ r) :
    FailsOnNull (h.array r) := by
  unfold Heap.array Heap.get
  cases same with
  | null =>
      cases h.get? .null with
      | none =>
          refine .error ?_
          intro id named
          cases named
          rfl
      | some o =>
          dsimp only
          split
          · exact .ok _
          · exact .error nofun
  | paired pair =>
      obtain ⟨o, _, live, _⟩ := matching.objects pair
      rw [live]
      dsimp only
      split
      · exact .ok _
      · exact .error nofun

theorem Matching.failsOnNull_loadElement (matching : Matching ρ h h) (same : r.Alike ρ r)
    (index : Value) : FailsOnNull (h.loadElement r index) :=
  Heap.failsOnly_loadElement Fault.namesOnlyNull_of_plain (matching.failsOnNull_array same) index

theorem Matching.failsOnNull_storeSlot (matching : Matching ρ h h) (same : r.Alike ρ r)
    (index v : Value) : FailsOnNull (h.storeSlot r index v) :=
  Heap.failsOnly_storeSlot Fault.namesOnlyNull_of_plain (matching.failsOnNull_array same) index v

end Access

theorem ref_of_arrayOperand {v : Value} {r : HeapRef} (ok : arrayOperand v = .ok r) :
    v = .ref r := by
  cases v with
  | ref r' =>
      cases ok
      rfl
  | _ => cases ok

/-! ## Steps -/

/-- The step leaves a coherent state, and does not fail on account of a reference but null. -/
def StepResult.Coherent : StepResult → Prop
  | .next t => t.Coherent
  | .halted _ t => t.Coherent
  | .failed fault t => t.Coherent ∧ fault.NamesOnlyNull
  | .outOfFuel => True

/-- A step that goes on to a state alike to itself. -/
theorem StepResult.Alike.coherent {t : State}
    (self : StepResult.Alike (.next t) (.next t)) : t.Coherent := by
  cases self with
  | next alike => exact ⟨_, alike⟩

namespace State.Alike

variable {ρ : Pairing} {s : State} {frame : Frame} {callers : CallStack}
  (alike : (s.withFrame frame callers).Alike ρ (s.withFrame frame callers))
include alike

theorem operand_alike {v : Value} (held : v ∈ frame.operands) : v.Alike ρ v :=
  List.forall₂_same.mp alike.innermost.operands v held

theorem failsOnNull_loadOperands : FailsOnNull (StackMachine.loadOperands s.heap frame) := by
  refine (Frame.failsOnly_pop2 Fault.namesOnlyNull_of_plain frame _).bind ?_
  rintro ⟨array, index, after⟩ popped
  refine (failsOnly_arrayOperand Fault.namesOnlyNull_of_plain array).bind ?_
  intro r operand
  have held : Value.ref r ∈ frame.operands := by
    rw [← ref_of_arrayOperand operand]
    unfold Frame.pop2 at popped
    split at popped
    · rename_i operands
      cases popped
      simp [operands]
    · cases popped
  cases alike.operand_alike held with
  | ref same =>
      exact (alike.heaps.failsOnNull_loadElement same index).bind fun _ _ => .ok _
  | plain plain => cases plain

theorem failsOnNull_storeRequest : FailsOnNull (StackMachine.storeRequest s.heap frame) := by
  refine (Frame.failsOnly_pop3 Fault.namesOnlyNull_of_plain frame _).bind ?_
  rintro ⟨array, index, v, after⟩ popped
  refine (failsOnly_arrayOperand Fault.namesOnlyNull_of_plain array).bind ?_
  intro r operand
  have held : Value.ref r ∈ frame.operands := by
    rw [← ref_of_arrayOperand operand]
    unfold Frame.pop3 at popped
    split at popped
    · rename_i operands
      cases popped
      simp [operands]
    · cases popped
  cases alike.operand_alike held with
  | ref same =>
      exact (alike.heaps.failsOnNull_storeSlot same index v).bind fun _ _ => .ok _
  | plain plain => cases plain

theorem coherent_fails {fault : Fault} (only : fault.NamesOnlyNull) :
    (StepResult.failed fault (s.withFrame frame callers)).Coherent :=
  ⟨⟨ρ, alike⟩, only⟩

theorem coherent_continueWith {result : Except Fault Frame}
    (agree : Agree (Frame.Alike ρ) result result) (fails : FailsOnNull result) :
    (s.continueWith frame callers result).Coherent := by
  cases result with
  | error fault => exact alike.coherent_fails (fails fault rfl)
  | ok after =>
      cases agree with
      | ok one => exact ⟨ρ, alike.withFrame one⟩

theorem coherent_storeElement : (s.storeElement frame callers).Coherent := by
  have self := alike.storeElement
  have fails := alike.failsOnNull_storeRequest
  unfold State.storeElement at self ⊢
  cases request : StackMachine.storeRequest s.heap frame with
  | error fault => exact alike.coherent_fails (fails fault request)
  | ok found =>
      rw [request] at self
      exact self.coherent

/-- An allocation that fails may have collected, but keeps what the frames lead to. -/
theorem coherent_newArray (p : Program) (index : Nat) :
    (s.newArray p frame callers index).Coherent := by
  have self := alike.newArray p index
  have fails := failsOnly_arrayRequest Fault.namesOnlyNull_of_plain p frame index
  have requested := alike.innermost.arrayRequest p index
  unfold State.newArray at self ⊢
  cases request : StackMachine.arrayRequest p frame index with
  | error fault => exact alike.coherent_fails (fails fault request)
  | ok found =>
      obtain ⟨element, length, popped⟩ := found
      rw [request] at self requested
      dsimp only [State.allocate] at self ⊢
      have aligned : StacksAlike ρ (popped :: callers) (popped :: callers) := by
        cases requested with
        | ok related => exact .cons related.2.2 alike.outer
      have before : s.heap.Sound := alike.sound
      obtain ⟨sound, made⟩ := before.allocateArray (popped :: callers) element length
      generalize s.heap.allocateArray (popped :: callers) element length = a at sound made self ⊢
      have failed : ∀ fault, s.heap.Retains (popped :: callers) a.heap → a.result = .error fault →
          fault.NamesOnlyNull → (StepResult.failed fault
            (State.withFrame ⟨a.heap, s.frames, s.natives, s.console,
              s.log.noteAll (a.collections.map CollectReport.entry)⟩ popped callers)).Coherent := by
        intro fault retains _ only
        obtain ⟨ρ', heaps, frames⟩ := aligned.retained alike.heaps retains retains
        exact ⟨⟨ρ', heaps, sound, sound, frames, rfl⟩, only⟩
      cases made with
      | untyped _ retains result =>
          rw [result]
          exact failed _ retains result nofun
      | exhausted _ _ _ retains result =>
          rw [result]
          exact failed _ retains result nofun
      | placed _ _ _ result =>
          rw [result] at self ⊢
          exact self.coherent

theorem coherent_call (env : Environment) (fuel index : Nat) :
    (s.call env.interpreted fuel frame callers index).Coherent := by
  have self := alike.call env fuel index
  unfold State.call at self ⊢
  cases function : env.interpreted.program.function index with
  | error fault =>
      refine alike.coherent_fails ?_
      unfold Program.function at function
      split at function <;> cases function
      exact nofun
  | ok f =>
      rw [function] at self
      dsimp only at self ⊢
      cases enough : frame.require "CALL" f.arity with
      | error fault =>
          refine alike.coherent_fails ?_
          unfold Frame.require at enough
          split at enough <;> cases enough
          exact nofun
      | ok _ =>
          rw [enough] at self
          dsimp only at self ⊢
          split
          · have caller := alike.innermost.withOperands
              (List.forall₂_drop f.arity alike.innermost.operands)
            exact ⟨⟨ρ, alike.withFrame caller⟩, nofun⟩
          · rename_i shallow
            rw [if_neg shallow] at self
            exact self.coherent

theorem coherent_ret : (s.ret frame callers).Coherent := by
  have self := alike.ret
  unfold State.ret at self ⊢
  cases returned : frame.returnValue with
  | error fault =>
      refine alike.coherent_fails ?_
      have fails := frame.failsOnly_returnValue Fault.namesOnlyNull_of_plain
      exact fails fault returned
  | ok value =>
      rw [returned] at self
      exact self.coherent

/-- Whatever is printed, the frame is left without its top operand. -/
theorem coherent_print : (s.print frame callers).Coherent := by
  unfold State.print
  cases popped : frame.pop "PRINT" with
  | error fault =>
      have fails := frame.failsOnly_pop Fault.namesOnlyNull_of_plain "PRINT"
      exact alike.coherent_fails (fails fault popped)
  | ok found =>
      obtain ⟨v, after⟩ := found
      have one := alike.innermost.pop "PRINT"
      rw [popped] at one
      dsimp only
      cases written : s.console.writeFault? v.text with
      | some fault =>
          refine alike.coherent_fails ?_
          unfold Console.writeFault? at written
          split at written
          · cases written
          · obtain ⟨reason, _, rfl⟩ := Option.map_eq_some_iff.mp written
            exact nofun
      | none =>
          cases one with
          | ok related =>
              have next := alike.withFrame related.2
              exact ⟨ρ, next.heaps, next.sound, next.sound', next.frames, rfl⟩

theorem coherent_halt (p : Program) (index : Nat) :
    (s.halt p frame callers index).Coherent := by
  unfold State.halt
  cases code : exitCode p index with
  | error fault =>
      refine alike.coherent_fails ?_
      have fails := failsOnly_exitCode Fault.namesOnlyNull_of_plain p index
        (p.failsOnNull_constantValue index)
      exact fails fault code
  | ok n => exact State.coherent_of_empty alike.sound rfl

theorem coherent_execute (env : Environment) (fuel : Nat) (i : Instruction) :
    (s.execute env.interpreted fuel frame callers i).Coherent := by
  have exact : ρ.Exact := alike.heaps.exact alike.sound alike.sound'
  unfold State.execute
  cases i.opcode with
  | newarr => exact alike.coherent_newArray _ _
  | stelem => exact alike.coherent_storeElement
  | ldelem => exact alike.coherent_continueWith alike.loadOperands alike.failsOnNull_loadOperands
  | call => exact alike.coherent_call env fuel _
  | ret => exact alike.coherent_ret
  | print => exact alike.coherent_print
  | halt => exact alike.coherent_halt _ _
  | _ =>
      exact alike.coherent_continueWith (alike.innermost.execute exact _ i)
        (frame.failsOnNull_execute _ i)

end State.Alike

theorem State.Coherent.step {s : State} (coherent : s.Coherent) (env : Environment) (fuel : Nat) :
    (s.step env.interpreted fuel).Coherent := by
  obtain ⟨ρ, alike⟩ := id coherent
  unfold State.step
  cases stack : s.frames with
  | nil => exact ⟨coherent, nofun⟩
  | cons frame callers =>
      dsimp only
      cases frame.fetch? with
      | none => exact ⟨coherent, nofun⟩
      | some i =>
          have frames := alike.frames
          rw [stack] at frames
          cases frames with
          | cons one outer =>
              have aligned : StacksAlike ρ (_ :: callers) (_ :: callers) :=
                .cons (one.goto (frame.pc + 1)) outer
              exact State.Alike.coherent_execute
                ((alike.note .trace _ _).withFrames aligned) env fuel i

/-! ## Intact states -/

/-- What the frames lead to is null or live, and all objects are typed arrays. -/
structure State.Intact (s : State) : Prop where
  sound : s.heap.Sound
  live : ∀ r, s.heap.Reaches s.frames r → r = .null ∨ s.heap.isLive r = true
  typed : s.heap.Typed

def StepResult.Intact : StepResult → Prop
  | .next t => t.Intact
  | .halted _ t => t.Intact
  | .failed fault t => t.Intact ∧ fault.NamesOnlyNull
  | .outOfFuel => True

namespace State

variable {env : Environment} {s : State}

theorem Coherent.intact (coherent : s.Coherent) (typed : s.heap.Typed) : s.Intact := by
  obtain ⟨ρ, alike⟩ := id coherent
  exact ⟨alike.sound, fun r => coherent.live, typed⟩

theorem Intact.of_bare (intact : s.bare.Intact) : s.Intact :=
  ⟨intact.sound, intact.live, intact.typed⟩

theorem Intact.bare (intact : s.Intact) : s.bare.Intact :=
  ⟨intact.sound, intact.live, intact.typed⟩

theorem Intact.step_interpreted (intact : s.Intact) (env : Environment) (fuel : Nat) :
    (s.step env.interpreted fuel).Intact := by
  have coherent := (coherent_of_live intact.sound intact.live).step env fuel
  have typed : ∀ t, (s.step env.interpreted fuel).state? = some t → t.heap.Typed := by
    intro t left
    exact typed_of_step_interpreted intact.typed left
  generalize s.step env.interpreted fuel = result at coherent typed ⊢
  cases result with
  | next t => exact Coherent.intact coherent (typed t rfl)
  | halted code t => exact Coherent.intact coherent (typed t rfl)
  | failed fault t => exact ⟨coherent.1.intact (typed t rfl), coherent.2⟩
  | outOfFuel => trivial

/-- A step with native code leaves what a chain of steps of the interpreter leaves. -/
theorem Intact.step_bundled (intact : s.Intact) (ready : Ready env s) (fuel : Nat) :
    (s.step env fuel).Intact := by
  have imitates : Imitates env fuel (s.bare.step env.interpreted 0) (s.step env fuel) :=
    ready.imitates
  have plain := intact.bare.step_interpreted env 0
  generalize s.step env fuel = result at imitates ⊢
  cases imitates with
  | next fits first rest =>
      rw [first] at plain
      have kept : ∀ (u v : State) (fuel : Nat), u.Intact → u.step env.interpreted fuel = .next v →
          v.Intact := by
        intro u v fuel before step
        have after := before.step_interpreted env fuel
        rw [step] at after
        exact after
      exact (rest.steps.invariant kept plain).of_bare
  | halted same =>
      rw [same] at plain
      exact Intact.of_bare plain
  | failed same =>
      rw [same] at plain
      exact ⟨plain.1.of_bare, plain.2⟩
  | outOfFuel => trivial

end State

/-- There is no compiler, or it is the bundled one and has made the native code in use. -/
def Environment.Serves (env : Environment) (natives : NativeTable) : Prop :=
  env.compiler = none ∨ env.compiler = some .bundled ∧ NativesFit env.program natives

section Runs

variable {env : Environment} {s t : State} {fuel : Nat}

theorem State.Intact.step (intact : s.Intact) (serves : env.Serves s.natives) (fuel : Nat) :
    (s.step env fuel).Intact := by
  rcases serves with none | ⟨bundled, fits⟩
  · rw [← Environment.interpreted_eq none]
    exact intact.step_interpreted env fuel
  · exact intact.step_bundled ⟨bundled, fits, intact.typed⟩ fuel

theorem Environment.Serves.next (serves : env.Serves s.natives) (typed : s.heap.Typed)
    (next : s.step env fuel = .next t) : env.Serves t.natives := by
  rcases serves with none | ⟨bundled, fits⟩
  · exact .inl none
  · have ready : Ready env s := ⟨bundled, fits, typed⟩
    exact .inr ⟨bundled, (ready.next next).fits⟩

theorem State.Intact.steps {n : Nat} (intact : s.Intact) (serves : env.Serves s.natives)
    (chain : Steps env n s t) : t.Intact ∧ env.Serves t.natives := by
  have kept : ∀ (u v : State) (fuel : Nat), u.Intact ∧ env.Serves u.natives →
      u.step env fuel = .next v → v.Intact ∧ env.Serves v.natives := by
    rintro u v fuel ⟨before, serving⟩ step
    have after := before.step serving fuel
    rw [step] at after
    exact ⟨after, serving.next before.typed step⟩
  exact chain.invariant kept ⟨intact, serves⟩

/-- The machine before its first run, with native code that is left from other runs. -/
def State.fresh (maxBytes : Nat) (gcEnabled : Bool) (natives : NativeTable) (console : Console)
    (log : Log) : State :=
  ⟨.empty maxBytes gcEnabled, [], natives, console, log⟩

theorem State.intact_start (maxBytes : Nat) (gcEnabled : Bool) (natives : NativeTable)
    (console : Console) (log : Log) (entry : LinkedFunction) :
    ((State.fresh maxBytes gcEnabled natives console log).entering entry).Intact := by
  have coherent : ((State.fresh maxBytes gcEnabled natives console log).entering entry).Coherent :=
    ⟨fun _ _ => False, .nothing _ _, .empty _ _, .empty _ _, .cons (.enter entry .nil) .nil, rfl⟩
  exact coherent.intact (.empty maxBytes gcEnabled)

/-! ## Loads -/

theorem Heap.Typed.loadElement {h : Heap} (typed : h.Typed) {r : HeapRef} {index v : Value}
    (loaded : h.loadElement r index = .ok v) :
    ∃ o d, h.get? r = some o ∧ o.element = some d ∧ d.admits v = true := by
  unfold Heap.loadElement Heap.array Heap.get at loaded
  cases live : h.get? r with
  | none => simp [live] at loaded
  | some o =>
      obtain ⟨d, element, tag, admits⟩ := typed r o live
      simp only [live, HeapObject.isArray_of_tag tag, if_true] at loaded
      cases located : Heap.elementSlot index o.fields.size with
      | error fault => simp [located] at loaded
      | ok slot =>
          simp only [located, Except.ok.injEq] at loaded
          have inside : slot < o.fields.size := by
            unfold Heap.elementSlot at located
            split at located
            · cases located
            · split at located
              · cases located
                omega
              · cases located
          have held : v ∈ o.fields := by
            rw [← loaded, Array.getD_eq_getD_getElem?, Array.getElem?_eq_getElem inside]
            exact Array.getElem_mem inside
          exact ⟨o, d, rfl, element, admits v held⟩

/-- A load that is possible takes two operands, of which the lower is the array. -/
theorem loadOperands_eq_ok {h : Heap} {frame after : Frame}
    (result : loadOperands h frame = .ok after) :
    ∃ r index v rest, frame.operands = index :: .ref r :: rest ∧ h.loadElement r index = .ok v
      ∧ after = { frame with operands := v :: rest } := by
  unfold loadOperands Frame.pop2 at result
  split at result
  · rename_i index array rest operands
    simp only [bind, Except.bind] at result
    split at result
    · cases result
    · rename_i r operand
      split at result
      · cases result
      · rename_i v loaded
        cases result
        refine ⟨r, index, v, rest, ?_, loaded, rfl⟩
        rw [operands, ref_of_arrayOperand operand]
  · cases result

/-- If the step from the first state to the second is a load, the value loaded has the element
type of the array. -/
def State.LoadsTyped (s t : State) : Prop :=
  ∀ frame callers i, s.frames = frame :: callers → frame.fetch? = some i → i.opcode = .ldelem →
    ∃ r o d v index rest, frame.operands = index :: .ref r :: rest ∧ s.heap.get? r = some o
      ∧ o.element = some d ∧ d.admits v = true
      ∧ t.frames = { frame with pc := frame.pc + 1, operands := v :: rest } :: callers

theorem Heap.Typed.loadsTyped (typed : s.heap.Typed) (next : s.step env fuel = .next t) :
    s.LoadsTyped t := by
  intro frame callers i frames fetched opcode
  rw [State.step_of_fetch frames fetched] at next
  simp only [State.execute, opcode] at next
  change State.continueWith _ _ _ (loadOperands s.heap _) = _ at next
  cases result : loadOperands s.heap { frame with pc := frame.pc + 1 } with
  | error fault =>
      rw [result] at next
      cases next
  | ok after =>
      rw [result] at next
      cases next
      obtain ⟨r, index, v, rest, operands, loaded, rfl⟩ := loadOperands_eq_ok result
      obtain ⟨o, d, live, element, admits⟩ := typed.loadElement loaded
      exact ⟨r, o, d, v, index, rest, operands, live, element, admits, rfl⟩

/-! ## Runs -/

/-- What a run leaves is what its last step leaves, without frames. -/
theorem State.Intact.run {entry : LinkedFunction} {result : Except RuntimeError Outcome}
    (intact : (s.entering entry).Intact) (serves : env.Serves s.natives)
    (run : s.run env fuel entry = some (t, result)) : t.Intact := by
  cases ended : (s.entering entry).runSteps env fuel with
  | none =>
      rw [State.run_of_unfinished ended] at run
      cases run
  | some execution =>
      obtain ⟨_, run', heap, _⟩ := State.run_of_execution ended
      rw [run] at run'
      cases run'
      have last : ∃ u : State, u.Intact ∧ t.heap = u.heap := by
        obtain ⟨n, u, chain, ending⟩ := State.steps_of_runSteps ended
        obtain ⟨before, serving⟩ := intact.steps serves chain
        rcases ending with ⟨_, rfl⟩ | ⟨_, left, v, ⟨code, step, rfl⟩ | ⟨fault, step, rfl⟩⟩
        · exact ⟨u, before, heap⟩
        · have after := before.step serving left
          rw [step] at after
          exact ⟨v, after, heap⟩
        · have after := before.step serving left
          rw [step] at after
          exact ⟨v, after.1, heap⟩
      obtain ⟨u, left, same⟩ := last
      have coherent := State.coherent_of_empty (s := t) (same ▸ left.sound)
        (State.frames_of_run run)
      exact coherent.intact (same ▸ left.typed)

/-- In every state that a run from an empty heap comes to, whatever the code, the references that
the frames lead to are null or name live objects, and every object is an array that its tag
spells and whose elements have its type. So no reference but null is ever found to name nothing,
and what is loaded from an array has its element type. -/
theorem references_name_live_arrays (env : Environment) (maxBytes : Nat) (gcEnabled : Bool)
    (natives : NativeTable) (console : Console) (log : Log) (entry : LinkedFunction)
    (serves : env.Serves natives) :
    (∀ n s, Steps env n ((State.fresh maxBytes gcEnabled natives console log).entering entry) s →
        s.Intact ∧ (∀ fuel, (s.step env fuel).Intact)
          ∧ ∀ fuel t, s.step env fuel = .next t → s.LoadsTyped t)
      ∧ ∀ fuel t result,
          (State.fresh maxBytes gcEnabled natives console log).run env fuel entry
              = some (t, result) →
            t.Intact ∧ ∀ e, result = .error e → e.fault.NamesOnlyNull := by
  have start := State.intact_start maxBytes gcEnabled natives console log entry
  have reachable : ∀ n s,
      Steps env n ((State.fresh maxBytes gcEnabled natives console log).entering entry) s →
        s.Intact ∧ env.Serves s.natives := fun n s chain => start.steps serves chain
  refine ⟨?_, ?_⟩
  · intro n s chain
    obtain ⟨intact, serving⟩ := reachable n s chain
    exact ⟨intact, intact.step serving, fun fuel t next => intact.typed.loadsTyped next⟩
  · intro fuel t result run
    refine ⟨start.run serves run, ?_⟩
    rintro e rfl
    rcases State.fault_of_run run with ⟨reason, io⟩ | ⟨n, u, left, v, chain, _, step⟩
    · rw [io]
      exact nofun
    · obtain ⟨intact, serving⟩ := reachable n u chain
      have after := intact.step serving left
      rw [step] at after
      exact after.2

end Runs

/-! An array of arrays is made. Its first element is null and is loaded, and then an element of
null. -/

namespace NullElement

def main : LinkedFunction :=
  ⟨"Main", ⟨0, 0, 0, 0, 0,
    #[⟨.ldc, some 0⟩, ⟨.newarr, some 1⟩, ⟨.ldc, some 2⟩, ⟨.ldelem, none⟩, ⟨.ldc, some 2⟩,
      ⟨.ldelem, none⟩, ⟨.ret, none⟩]⟩, [], .void⟩

def program : Program :=
  ⟨#[⟨.int .i32, [0, 0, 0, 1]⟩, ⟨.string, [91, 73, 51, 50, 59]⟩, ⟨.int .i32, [0, 0, 0, 0]⟩],
    #[main], #[], ⟨[("Main", 0)]⟩, .empty⟩

def environment : Environment := ⟨{}, some .bundled, program⟩

theorem is_blamed :
    environment.Serves #[]
      ∧ ∃ t, (State.fresh 1000 true #[] .working (.empty none)).run environment 10 main
            = some (t, .error ⟨.invalidHeapRef 0, ["Main@6"]⟩)
          ∧ t.heap.live = 1 ∧ t.Intact := by
  have serves : environment.Serves #[] := .inr ⟨rfl, .empty _⟩
  have ran : ((State.fresh 1000 true #[] .working (.empty none)).run environment 10 main).map
      (fun ended => (ended.1.heap.live, ended.2))
        = some (1, .error ⟨.invalidHeapRef 0, ["Main@6"]⟩) := by cbv
  obtain ⟨⟨t, result⟩, run, seen⟩ := Option.map_eq_some_iff.mp ran
  obtain ⟨live, rfl⟩ := Prod.mk.inj seen
  have intact := (references_name_live_arrays environment 1000 true #[] .working (.empty none) main
    serves).2 10 t _ run
  exact ⟨serves, t, run, live, intact.1⟩

end NullElement

end StackMachine
