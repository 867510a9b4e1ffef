import StackMachine.Proofs.Heap.Matching

/-! # Runs on heaps that match

Two states are alike if their heaps match and their frames hold values that are alike. A step of
the interpreter takes states that are alike to states that are alike, unless one of them runs out
of memory or a reference is printed. So do runs.
-/

namespace StackMachine

/-! ## Operations on values -/

/-- Two references are the same if and only if those that they stand for are. -/
def Pairing.Exact (ρ : Pairing) : Prop :=
  ∀ {a b a' b' : HeapRef}, a.Alike ρ a' → b.Alike ρ b' → (a = b ↔ a' = b')

theorem Matching.exact {ρ : Pairing} {h h' : Heap} (matching : Matching ρ h h') (sound : h.Sound)
    (sound' : h'.Sound) : ρ.Exact := by
  have nonnull : ∀ {a b : HeapRef}, ρ a b → a ≠ .null ∧ b ≠ .null := by
    intro a b pair
    obtain ⟨o, o', there, there', _⟩ := matching.objects pair
    constructor
    · intro null
      rw [null, sound.get?_null] at there
      cases there
    · intro null
      rw [null, sound'.get?_null] at there'
      cases there'
  intro a b a' b' alike alike'
  cases alike with
  | null =>
      cases alike' with
      | null => exact Iff.rfl
      | paired pair =>
          have distinct := nonnull pair
          exact ⟨fun same => absurd same.symm distinct.1, fun same => absurd same.symm distinct.2⟩
  | paired pair =>
      cases alike' with
      | null =>
          have distinct := nonnull pair
          exact ⟨fun same => absurd same distinct.1, fun same => absurd same distinct.2⟩
      | paired pair' =>
          constructor
          · intro same
            exact matching.forward pair (same ▸ pair')
          · intro same
            exact matching.backward pair (same ▸ pair')

section Operations

variable {ρ : Pairing} {a b a' b' v : Value}

theorem Value.onIntegers_alike {operation : String} {f : FixedInt → FixedInt → Except Fault Value}
    (alike : a.Alike ρ a') (alike' : b.Alike ρ b') :
    onIntegers operation f a b = onIntegers operation f a' b' := by
  cases alike with
  | plain plain =>
      cases alike' with
      | plain plain' => rfl
      | ref same => cases a <;> rfl
  | ref same => cases alike' <;> rfl

theorem Value.onBooleans_alike {operation : String} {f : Bool → Bool → Bool}
    (alike : a.Alike ρ a') (alike' : b.Alike ρ b') :
    onBooleans operation f a b = onBooleans operation f a' b' := by
  cases alike with
  | plain plain =>
      cases alike' with
      | plain plain' => rfl
      | ref same => cases a <;> rfl
  | ref same => cases alike' <;> rfl

theorem Value.equals_alike (exact : ρ.Exact) (alike : a.Alike ρ a') (alike' : b.Alike ρ b') :
    a.equals b = a'.equals b' := by
  cases alike with
  | plain plain =>
      cases alike' with
      | plain plain' => rfl
      | ref same =>
          cases a with
          | ref r => cases plain
          | _ => rfl
  | ref same =>
      cases alike' with
      | plain plain' =>
          cases b with
          | ref r => cases plain'
          | _ => rfl
      | ref same' =>
          have iff := exact same same'
          simp only [equals, sameTag, if_true, beq_eq_decide, Value.ref.injEq, iff]

theorem BinaryOp.apply_alike (exact : ρ.Exact) (op : BinaryOp) (alike : a.Alike ρ a')
    (alike' : b.Alike ρ b') : op.apply a b = op.apply a' b' := by
  cases op with
  | add | mul | sub | div | mod | lt | leq => exact Value.onIntegers_alike alike alike'
  | lor | land => exact Value.onBooleans_alike alike alike'
  | eq => exact Value.equals_alike exact alike alike'

theorem UnaryOp.apply_alike (op : UnaryOp) (alike : a.Alike ρ a') : op.apply a = op.apply a' := by
  cases alike with
  | plain plain => rfl
  | ref same => cases op <;> rfl

theorem Value.plain_of_onIntegers {operation : String}
    {f : FixedInt → FixedInt → Except Fault Value}
    (plain : ∀ m n w, f m n = .ok w → w.ref? = none) (ok : onIntegers operation f a b = .ok v) :
    v.ref? = none := by
  unfold onIntegers at ok
  split at ok
  · split at ok
    · exact plain _ _ _ ok
    · cases ok
  · cases ok

theorem Value.plain_of_onBooleans {operation : String} {f : Bool → Bool → Bool}
    (ok : onBooleans operation f a b = .ok v) : v.ref? = none := by
  unfold onBooleans at ok
  split at ok
  · cases ok
    rfl
  · cases ok

theorem BinaryOp.plain_of_apply {op : BinaryOp} (ok : op.apply a b = .ok v) : v.ref? = none := by
  cases op with
  | div | mod =>
      refine Value.plain_of_onIntegers ?_ ok
      intro m n w ok
      unfold Value.orDivisionByZero at ok
      split at ok
      · cases ok
        rfl
      · cases ok
  | add | mul | sub | lt | leq =>
      refine Value.plain_of_onIntegers ?_ ok
      intro m n w ok
      cases ok
      rfl
  | lor | land => exact Value.plain_of_onBooleans ok
  | eq =>
      simp only [BinaryOp.apply, Value.equals] at ok
      split at ok
      · cases ok
        rfl
      · cases ok

theorem UnaryOp.plain_of_apply {op : UnaryOp} (ok : op.apply a = .ok v) : v.ref? = none := by
  cases op <;> cases a <;> cases ok <;> rfl

theorem Constant.plain_of_value {c : Constant} {index : Nat} (ok : c.value index = .ok v) :
    v.ref? = none := by
  unfold Constant.value at ok
  split at ok
  · cases ok
  · split at ok
    · cases ok
      rfl
    · cases ok
      rfl
    · split at ok
      · cases ok
        rfl
      · cases ok
    · cases ok

end Operations

/-! ## Frames -/

structure Frame.Alike (ρ : Pairing) (f f' : Frame) : Prop where
  function : f.function = f'.function
  pc : f.pc = f'.pc
  locals : AllAlike ρ f.locals.toList f'.locals.toList
  operands : AllAlike ρ f.operands f'.operands

namespace Frame.Alike

variable {ρ ρ' : Pairing} {f f' : Frame}

theorem mono (alike : f.Alike ρ f') (sub : ∀ a b, ρ a b → ρ' a b) : f.Alike ρ' f' :=
  ⟨alike.function, alike.pc, alike.locals.mono sub, alike.operands.mono sub⟩

theorem symm (alike : f.Alike ρ f') : f'.Alike (flip ρ) f :=
  ⟨alike.function.symm, alike.pc.symm, alike.locals.symm, alike.operands.symm⟩

theorem within {P : HeapRef → Prop} (alike : f.Alike ρ f')
    (holds : ∀ r, .ref r ∈ f.roots → P r) : f.Alike (ρ.within P) f' := by
  refine ⟨alike.function, alike.pc, alike.locals.within ?_, alike.operands.within ?_⟩
  · intro r held
    exact holds r (List.mem_append_left _ held)
  · intro r held
    exact holds r (List.mem_append_right _ (List.mem_reverse.mpr held))

theorem fetch? (alike : f.Alike ρ f') : f.fetch? = f'.fetch? := by
  rw [Frame.fetch?, Frame.fetch?, alike.function, alike.pc]

theorem context (alike : f.Alike ρ f') : f.context = f'.context := by
  rw [Frame.context, Frame.context, alike.function, alike.pc]

theorem goto (alike : f.Alike ρ f') (pc : Nat) :
    ({ f with pc := pc } : Frame).Alike ρ { f' with pc := pc } :=
  ⟨alike.function, rfl, alike.locals, alike.operands⟩

theorem withOperands {vs ws : List Value} (alike : f.Alike ρ f') (operands : AllAlike ρ vs ws) :
    ({ f with operands := vs } : Frame).Alike ρ { f' with operands := ws } :=
  ⟨alike.function, alike.pc, alike.locals, operands⟩

theorem push {v w : Value} (alike : f.Alike ρ f') (same : v.Alike ρ w) :
    (f.push v).Alike ρ (f'.push w) :=
  alike.withOperands (.cons same alike.operands)

theorem enter (f : LinkedFunction) {vs ws : List Value} (operands : AllAlike ρ vs ws) :
    (Frame.enter f vs).Alike ρ (Frame.enter f ws) := by
  refine ⟨rfl, rfl, ?_, operands⟩
  show AllAlike ρ (Array.replicate f.locals Value.unset).toList _
  rw [Array.toList_replicate]
  exact .replicate (.plain rfl) f.locals

/-- Taking an operand off. -/
theorem pop (alike : f.Alike ρ f') (operation : String) :
    Agree (fun x y => x.1.Alike ρ y.1 ∧ x.2.Alike ρ y.2) (f.pop operation) (f'.pop operation) := by
  have operands := alike.operands
  unfold Frame.pop
  generalize f.operands = vs at operands ⊢
  generalize f'.operands = ws at operands ⊢
  cases operands with
  | nil => exact .error _
  | cons top rest => exact .ok ⟨top, alike.withOperands rest⟩

theorem peek (alike : f.Alike ρ f') (operation : String) :
    Agree (Value.Alike ρ) (f.peek operation) (f'.peek operation) := by
  have operands := alike.operands
  unfold Frame.peek
  generalize f.operands = vs at operands ⊢
  generalize f'.operands = ws at operands ⊢
  cases operands with
  | nil => exact .error _
  | cons top rest => exact .ok top

theorem pop2 (alike : f.Alike ρ f') (operation : String) :
    Agree (fun x y => x.1.Alike ρ y.1 ∧ x.2.1.Alike ρ y.2.1 ∧ x.2.2.Alike ρ y.2.2)
      (f.pop2 operation) (f'.pop2 operation) := by
  have operands := alike.operands
  unfold Frame.pop2
  generalize f.operands = vs at operands ⊢
  generalize f'.operands = ws at operands ⊢
  cases operands with
  | nil => exact .error _
  | cons top rest =>
      cases rest with
      | nil => exact .error _
      | cons second rest => exact .ok ⟨second, top, alike.withOperands rest⟩

theorem pop3 (alike : f.Alike ρ f') (operation : String) :
    Agree
      (fun x y => x.1.Alike ρ y.1 ∧ x.2.1.Alike ρ y.2.1 ∧ x.2.2.1.Alike ρ y.2.2.1
        ∧ x.2.2.2.Alike ρ y.2.2.2)
      (f.pop3 operation) (f'.pop3 operation) := by
  have operands := alike.operands
  unfold Frame.pop3
  generalize f.operands = vs at operands ⊢
  generalize f'.operands = ws at operands ⊢
  cases operands with
  | nil => exact .error _
  | cons top rest =>
      cases rest with
      | nil => exact .error _
      | cons second rest =>
          cases rest with
          | nil => exact .error _
          | cons third rest => exact .ok ⟨third, second, top, alike.withOperands rest⟩

theorem require (alike : f.Alike ρ f') (operation : String) (needed : Nat) :
    f.require operation needed = f'.require operation needed := by
  rw [Frame.require, Frame.require, alike.operands.length_eq]

theorem loadLocal (alike : f.Alike ρ f') (index : Nat) :
    Agree (Value.Alike ρ) (f.loadLocal index) (f'.loadLocal index) := by
  have size : f.locals.size = f'.locals.size := alike.locals.length_eq
  rw [Frame.loadLocal, Frame.loadLocal, size, ← Array.getElem?_toList, ← Array.getElem?_toList]
  rcases alike.locals.getElem? index with ⟨none, none'⟩ | ⟨v, w, some, some', same⟩
  · rw [none, none']
    exact .error _
  · rw [some, some']
    exact .ok same

theorem storeLocal {v w : Value} (alike : f.Alike ρ f') (same : v.Alike ρ w) (index : Nat) :
    Agree (Frame.Alike ρ) (f.storeLocal index v) (f'.storeLocal index w) := by
  have size : f.locals.size = f'.locals.size := alike.locals.length_eq
  rw [Frame.storeLocal, Frame.storeLocal, size]
  split
  · refine .ok ⟨alike.function, alike.pc, ?_, alike.operands⟩
    simp only [Array.toList_setIfInBounds]
    exact alike.locals.set same index
  · exact .error _

theorem jump (alike : f.Alike ρ f') (target : Nat) :
    Agree (Frame.Alike ρ) (f.jump target) (f'.jump target) := by
  have size : f.function.code.size = f'.function.code.size := by rw [alike.function]
  rw [Frame.jump, Frame.jump, size]
  split
  · exact .ok (alike.goto target)
  · exact .error _

theorem branch (alike : f.Alike ρ f') (operation : String) (onFalsy : Bool) (target : Nat) :
    Agree (Frame.Alike ρ) (f.branch operation onFalsy target)
      (f'.branch operation onFalsy target) := by
  refine (alike.pop operation).bind ?_
  rintro ⟨condition, g⟩ ⟨condition', g'⟩ ⟨same, alike⟩
  dsimp only at same alike ⊢
  rw [same.falsy?, same.tagName]
  cases condition'.falsy? with
  | none => exact .error _
  | some falsy =>
      dsimp only
      split
      · exact alike.jump target
      · exact .ok alike

theorem execute (exact : ρ.Exact) (alike : f.Alike ρ f') (p : Program) (i : Instruction) :
    Agree (Frame.Alike ρ) (f.execute p i) (f'.execute p i) := by
  unfold Frame.execute
  cases i.opcode with
  | ldc =>
      have same : Agree (Value.Alike ρ) (p.constantValue i.arg) (p.constantValue i.arg) := by
        refine .of_eq ?_
        intro v ok
        unfold Program.constantValue at ok
        cases constant : p.constant i.arg with
        | error fault =>
            rw [constant] at ok
            cases ok
        | ok c =>
            rw [constant] at ok
            exact .plain (Constant.plain_of_value ok)
      exact same.bind fun v w same => .ok (alike.push same)
  | ldv => exact (alike.loadLocal i.arg).bind fun v w same => .ok (alike.push same)
  | store =>
      refine (alike.pop "STORE").bind ?_
      rintro ⟨v, g⟩ ⟨w, g'⟩ ⟨same, alike⟩
      exact alike.storeLocal same i.arg
  | dup => exact (alike.peek "DUP").bind fun v w same => .ok (alike.push same)
  | swap =>
      refine (alike.pop2 "SWAP").bind ?_
      rintro ⟨a, b, g⟩ ⟨a', b', g'⟩ ⟨lower, upper, alike⟩
      exact .ok ((alike.push upper).push lower)
  | binary op =>
      refine (alike.pop2 _).bind ?_
      rintro ⟨a, b, g⟩ ⟨a', b', g'⟩ ⟨lower, upper, alike⟩
      dsimp only at lower upper alike ⊢
      rw [op.apply_alike exact lower upper]
      have same : Agree (Value.Alike ρ) (op.apply a' b') (op.apply a' b') :=
        .of_eq fun v ok => .plain (BinaryOp.plain_of_apply ok)
      exact same.bind fun v w same => .ok (alike.push same)
  | unary op =>
      refine (alike.pop _).bind ?_
      rintro ⟨a, g⟩ ⟨a', g'⟩ ⟨operand, alike⟩
      dsimp only at operand alike ⊢
      rw [op.apply_alike operand]
      have same : Agree (Value.Alike ρ) (op.apply a') (op.apply a') :=
        .of_eq fun v ok => .plain (UnaryOp.plain_of_apply ok)
      exact same.bind fun v w same => .ok (alike.push same)
  | jmp => exact alike.jump i.arg
  | jz => exact alike.branch "JZ" true i.arg
  | jnz => exact alike.branch "JNZ" false i.arg
  | _ => exact .ok alike

theorem returnValue (alike : f.Alike ρ f') :
    Agree
      (fun value value' => value = none ∧ value' = none
        ∨ ∃ v w, value = some v ∧ value' = some w ∧ v.Alike ρ w)
      f.returnValue f'.returnValue := by
  unfold Frame.returnValue
  rw [alike.function]
  split
  · refine (alike.pop "RET").bind ?_
    rintro ⟨v, g⟩ ⟨w, g'⟩ ⟨same, _⟩
    dsimp only at same ⊢
    rw [same.admits, same.tagName]
    split
    · exact .ok (.inr ⟨v, w, rfl, rfl, same⟩)
    · exact .error _
  · exact .ok (.inl ⟨rfl, rfl⟩)

theorem arrayRequest (alike : f.Alike ρ f') (p : Program) (index : Nat) :
    Agree (fun x y => x.1 = y.1 ∧ x.2.1 = y.2.1 ∧ x.2.2.Alike ρ y.2.2)
      (arrayRequest p f index) (arrayRequest p f' index) := by
  have element : Agree (· = ·) (p.descriptor index) (p.descriptor index) := .of_eq fun _ _ => rfl
  refine element.bind ?_
  rintro d _ rfl
  refine (alike.pop "NEWARR").bind ?_
  rintro ⟨size, g⟩ ⟨size', g'⟩ ⟨same, alike⟩
  dsimp only at same alike ⊢
  rw [same.widen?, same.tagName]
  cases size'.widen? with
  | none => exact .error _
  | some n =>
      dsimp only
      split
      · exact .ok ⟨rfl, rfl, alike⟩
      · exact .error _

end Frame.Alike

theorem Value.Alike.arrayOperand {ρ : Pairing} {v w : Value} (alike : v.Alike ρ w) :
    Agree (HeapRef.Alike ρ) (arrayOperand v) (arrayOperand w) := by
  cases alike with
  | plain plain =>
      rw [StackMachine.arrayOperand, plain]
      exact .error _
  | ref same => exact .ok same

abbrev StacksAlike (ρ : Pairing) : CallStack → CallStack → Prop := List.Forall₂ (Frame.Alike ρ)

namespace StacksAlike

variable {ρ ρ' : Pairing} {stack stack' : CallStack}

theorem mono (alike : StacksAlike ρ stack stack') (sub : ∀ a b, ρ a b → ρ' a b) :
    StacksAlike ρ' stack stack' :=
  alike.imp fun _ _ one => one.mono sub

theorem symm (alike : StacksAlike ρ stack stack') : StacksAlike (flip ρ) stack' stack :=
  List.Forall₂.flip (alike.imp fun _ _ one => one.symm)

theorem within {P : HeapRef → Prop} (alike : StacksAlike ρ stack stack')
    (holds : ∀ frame ∈ stack, ∀ r, .ref r ∈ frame.roots → P r) :
    StacksAlike (ρ.within P) stack stack' := by
  induction alike with
  | nil => exact .nil
  | cons one rest ih =>
      refine .cons (one.within ?_) (ih ?_)
      · exact holds _ (List.mem_cons_self ..)
      · intro frame member
        exact holds frame (List.mem_cons_of_mem _ member)

/-- Of the pairs, those that the frames lead to are enough for them. -/
theorem within_reaches (alike : StacksAlike ρ stack stack') (h : Heap) :
    StacksAlike (ρ.within (h.Reaches stack)) stack stack' := by
  refine alike.within ?_
  intro frame member r held
  refine .root ?_
  exact List.mem_flatMap.mpr ⟨frame, List.mem_reverse.mpr member, held⟩

theorem backtrace (alike : StacksAlike ρ stack stack') :
    CallStack.backtrace stack = CallStack.backtrace stack' := by
  have contexts : stack.map Frame.context = stack'.map Frame.context := by
    induction alike with
    | nil => rfl
    | cons one rest ih => rw [List.map_cons, List.map_cons, one.context, ih]
  rw [CallStack.backtrace, CallStack.backtrace, List.map_reverse, List.map_reverse, contexts]

end StacksAlike

/-! ## Allocations -/

def Fault.isExhaustion : Fault → Bool
  | .heapExhausted .. => true
  | _ => false

inductive Allocation.Alike (stack stack' : CallStack) (a a' : Allocation) : Prop where
  | failed (fault : Fault) (result : a.result = .error fault) (result' : a'.result = .error fault)
  | exhausted {fault : Fault} (full : fault.isExhaustion = true) (result : a.result = .error fault)
  | exhausted' {fault : Fault} (full : fault.isExhaustion = true)
      (result : a'.result = .error fault)
  | placed {ρ : Pairing} {r r' : HeapRef} (heaps : Matching ρ a.heap a'.heap)
      (aligned : StacksAlike ρ stack stack') (pair : ρ r r') (result : a.result = .ok r)
      (result' : a'.result = .ok r')

/-- Collections on both sides keep what the frames lead to. -/
theorem StacksAlike.retained {ρ : Pairing} {stack stack' : CallStack} {h h' k k' : Heap}
    (aligned : StacksAlike ρ stack stack') (matching : Matching ρ h h')
    (retains : h.Retains stack k) (retains' : h'.Retains stack' k') :
    ∃ ρ', Matching ρ' k k' ∧ StacksAlike ρ' stack stack' := by
  have first := matching.retained retains
  have second := (first.symm.retained retains').symm
  exact ⟨_, second, (aligned.within_reaches h).symm.within_reaches h' |>.symm⟩

/-- The new objects make a pair. -/
theorem StacksAlike.allocate {ρ : Pairing} {stack stack' : CallStack} {h h' : Heap}
    {a a' : Allocation} {element : Descriptor} {length : Nat}
    (aligned : StacksAlike ρ stack stack') (matching : Matching ρ h h')
    (made : h.Allocates stack element length a) (made' : h'.Allocates stack' element length a') :
    a.Alike stack stack' a' := by
  cases made with
  | exhausted _ _ _ _ result => exact .exhausted rfl result
  | untyped default _ result =>
      cases made' with
      | exhausted _ _ _ _ result' => exact .exhausted' rfl result'
      | untyped _ _ result' => exact .failed _ result result'
      | placed default' _ _ _ =>
          rw [default] at default'
          cases default'
  | placed default retains adds result =>
      cases made' with
      | exhausted _ _ _ _ result' => exact .exhausted' rfl result'
      | untyped default' _ _ =>
          rw [default] at default'
          cases default'
      | placed default' retains' adds' result' =>
          rw [default] at default'
          cases default'
          obtain ⟨ρ', heaps, held⟩ := aligned.retained matching retains retains'
          refine .placed (heaps.added adds adds' ⟨rfl, rfl, ?_⟩) (held.mono ?_) (.inr ⟨rfl, rfl⟩)
            result result'
          · simp only [Array.toList_replicate]
            exact .replicate (.of_default default) length
          · intro c d pair
            exact .inl pair

/-! ## States -/

structure State.Alike (ρ : Pairing) (s t : State) : Prop where
  heaps : Matching ρ s.heap t.heap
  sound : s.heap.Sound
  sound' : t.heap.Sound
  frames : StacksAlike ρ s.frames t.frames
  console : s.console = t.console

/-- The two results are alike, or one of them is that memory has run out. -/
inductive StepResult.Alike : StepResult → StepResult → Prop where
  | next {ρ : Pairing} {s t : State} (alike : s.Alike ρ t) : StepResult.Alike (.next s) (.next t)
  | halted {s t : State} (code : Int) (console : s.console = t.console) :
      StepResult.Alike (.halted code s) (.halted code t)
  | failed {s t : State} (fault : Fault) (console : s.console = t.console)
      (frames : CallStack.backtrace s.frames = CallStack.backtrace t.frames) :
      StepResult.Alike (.failed fault s) (.failed fault t)
  | exhausted {fault : Fault} {s : State} {r : StepResult} (full : fault.isExhaustion = true) :
      StepResult.Alike (.failed fault s) r
  | exhausted' {fault : Fault} {t : State} {r : StepResult} (full : fault.isExhaustion = true) :
      StepResult.Alike r (.failed fault t)

namespace State.Alike

variable {ρ : Pairing} {s t : State} {f f' : Frame} {callers callers' : CallStack}

theorem fails (alike : s.Alike ρ t) (fault : Fault) :
    StepResult.Alike (.failed fault s) (.failed fault t) :=
  .failed fault alike.console alike.frames.backtrace

theorem withFrames {stack stack' : CallStack} (alike : s.Alike ρ t)
    (frames : StacksAlike ρ stack stack') :
    ({ s with frames := stack } : State).Alike ρ { t with frames := stack' } :=
  ⟨alike.heaps, alike.sound, alike.sound', frames, alike.console⟩

theorem note (alike : s.Alike ρ t) (level : Level) (message message' : Unit → String) :
    (s.note level message).Alike ρ (t.note level message') :=
  ⟨alike.heaps, alike.sound, alike.sound', alike.frames, alike.console⟩

section Innermost

variable (alike : (s.withFrame f callers).Alike ρ (t.withFrame f' callers'))
include alike

theorem outer : StacksAlike ρ callers callers' := by
  cases alike.frames with
  | cons _ rest => exact rest

theorem innermost : f.Alike ρ f' := by
  cases alike.frames with
  | cons one _ => exact one

theorem withFrame {g g' : Frame} (one : g.Alike ρ g') :
    (s.withFrame g callers).Alike ρ (t.withFrame g' callers') :=
  ⟨alike.heaps, alike.sound, alike.sound', .cons one alike.outer, alike.console⟩

theorem continueWith {result result' : Except Fault Frame}
    (agree : Agree (Frame.Alike ρ) result result') :
    StepResult.Alike (s.continueWith f callers result) (t.continueWith f' callers' result') := by
  cases agree with
  | error fault => exact alike.fails fault
  | ok one => exact .next (alike.withFrame one)

/-! ## Arrays -/

theorem loadOperands :
    Agree (Frame.Alike ρ) (loadOperands s.heap f) (loadOperands t.heap f') := by
  refine (alike.innermost.pop2 "LDELEM").bind ?_
  rintro ⟨array, index, g⟩ ⟨array', index', g'⟩ ⟨operand, same, one⟩
  refine operand.arrayOperand.bind ?_
  intro r r' refs
  refine (alike.heaps.loadElement alike.sound alike.sound' refs same).bind ?_
  intro v w loaded
  exact .ok (one.push loaded)

theorem storeRequest :
    Agree
      (fun x y => ρ x.1 y.1 ∧ x.2.1 = y.2.1 ∧ x.2.2.1.Alike ρ y.2.2.1
        ∧ x.2.2.2.Alike ρ y.2.2.2)
      (storeRequest s.heap f) (storeRequest t.heap f') := by
  refine (alike.innermost.pop3 "STELEM").bind ?_
  rintro ⟨array, index, v, g⟩ ⟨array', index', w, g'⟩ ⟨operand, same, stored, one⟩
  refine operand.arrayOperand.bind ?_
  intro r r' refs
  refine (alike.heaps.storeSlot alike.sound alike.sound' refs same stored).bind ?_
  rintro slot _ ⟨rfl, pair⟩
  exact .ok ⟨pair, rfl, stored, one⟩

theorem storeElement :
    StepResult.Alike (s.storeElement f callers) (t.storeElement f' callers') := by
  have agree := alike.storeRequest
  unfold State.storeElement
  generalize StackMachine.storeRequest s.heap f = x at agree ⊢
  generalize StackMachine.storeRequest t.heap f' = y at agree ⊢
  cases agree with
  | error fault => exact alike.fails fault
  | @ok x y related =>
      obtain ⟨r, slot, v, g⟩ := x
      obtain ⟨r', slot', w, g'⟩ := y
      obtain ⟨pair, rfl, stored, one⟩ := related
      exact .next ⟨alike.heaps.putElement pair stored slot, alike.sound.putElement r slot v,
        alike.sound'.putElement r' slot w, .cons one alike.outer, alike.console⟩

/-- Allocations in states that are alike, each with the collections that its heap needs. -/
theorem newArray (p : Program) (index : Nat) :
    StepResult.Alike (s.newArray p f callers index) (t.newArray p f' callers' index) := by
  have agree := alike.innermost.arrayRequest p index
  unfold State.newArray
  generalize StackMachine.arrayRequest p f index = x at agree ⊢
  generalize StackMachine.arrayRequest p f' index = y at agree ⊢
  cases agree with
  | error fault => exact alike.fails fault
  | @ok x y related =>
      obtain ⟨element, length, g⟩ := x
      obtain ⟨element', length', g'⟩ := y
      obtain ⟨rfl, rfl, one⟩ := related
      dsimp only at one
      have aligned : StacksAlike ρ (g :: callers) (g' :: callers') := .cons one alike.outer
      have ready : s.heap.Sound := alike.sound
      have ready' : t.heap.Sound := alike.sound'
      obtain ⟨sound, made⟩ := ready.allocateArray (g :: callers) element length
      obtain ⟨sound', made'⟩ := ready'.allocateArray (g' :: callers') element length
      simp only [State.allocate]
      cases aligned.allocate alike.heaps made made' with
      | failed fault result result' =>
          rw [result, result']
          exact .failed fault alike.console aligned.backtrace
      | exhausted full result =>
          rw [result]
          exact .exhausted full
      | exhausted' full result =>
          rw [result]
          exact .exhausted' full
      | placed heaps aligned pair result result' =>
          rw [result, result']
          cases aligned with
          | cons one outer =>
              have pushed := one.push (.ref (.paired pair))
              exact .next ⟨heaps, sound, sound', .cons pushed outer, alike.console⟩

/-! ## Calls and output -/

theorem call (env : Environment) (fuel : Nat) (index : Nat) :
    StepResult.Alike (s.call env.interpreted fuel f callers index)
      (t.call env.interpreted fuel f' callers' index) := by
  unfold State.call
  cases env.interpreted.program.function index with
  | error fault => exact alike.fails fault
  | ok callee =>
      dsimp only
      rw [alike.innermost.require]
      cases f'.require "CALL" callee.arity with
      | error fault => exact alike.fails fault
      | ok _ =>
          have operands := alike.innermost.operands
          have caller := alike.innermost.withOperands (List.forall₂_drop callee.arity operands)
          have aligned : StacksAlike ρ (_ :: callers) (_ :: callers') := .cons caller alike.outer
          have arguments := List.forall₂_take callee.arity operands
          dsimp only
          rw [aligned.length_eq]
          split
          · exact .failed _ alike.console aligned.backtrace
          · exact .next (alike.withFrames (.cons (.enter callee arguments) aligned))

theorem ret : StepResult.Alike (s.ret f callers) (t.ret f' callers') := by
  have agree := alike.innermost.returnValue
  unfold State.ret
  generalize f.returnValue = x at agree ⊢
  generalize f'.returnValue = y at agree ⊢
  cases agree with
  | error fault => exact alike.fails fault
  | ok related =>
      refine .next (alike.withFrames ?_)
      have outer := alike.outer
      rcases related with ⟨rfl, rfl⟩ | ⟨v, w, rfl, rfl, same⟩
      · cases outer with
        | nil => exact .nil
        | cons one rest => exact .cons one rest
      · cases outer with
        | nil => exact .nil
        | cons one rest => exact .cons (one.push same) rest

theorem print (unnamed : ∀ r rest, f.operands = .ref r :: rest → r = .null) :
    StepResult.Alike (s.print f callers) (t.print f' callers') := by
  have console : s.console = t.console := alike.console
  have operands := alike.innermost.operands
  unfold State.print Frame.pop
  rw [console]
  generalize f.operands = vs at operands unnamed ⊢
  generalize f'.operands = ws at operands ⊢
  cases operands with
  | nil => exact alike.fails _
  | @cons v w vs ws top rest =>
      have text : v.text = w.text := by
        cases top with
        | plain plain => rfl
        | @ref a b same =>
            have exact : ρ.Exact := alike.heaps.exact alike.sound alike.sound'
            have null : a = .null := unnamed a vs rfl
            have null' : b = .null := (exact same .null).mp null
            rw [null, null']
      dsimp only
      rw [text]
      cases t.console.writeFault? w.text with
      | some fault => exact alike.fails fault
      | none =>
          have after := alike.withFrame (alike.innermost.withOperands rest)
          exact .next ⟨after.heaps, after.sound, after.sound', after.frames, rfl⟩

theorem halt (p : Program) (index : Nat) :
    StepResult.Alike (s.halt p f callers index) (t.halt p f' callers' index) := by
  unfold State.halt
  cases exitCode p index with
  | error fault => exact alike.fails fault
  | ok code => exact .halted code alike.console

theorem execute (env : Environment) (fuel : Nat) (i : Instruction)
    (unnamed : i.opcode = .print → ∀ r rest, f.operands = .ref r :: rest → r = .null) :
    StepResult.Alike (s.execute env.interpreted fuel f callers i)
      (t.execute env.interpreted fuel f' callers' i) := by
  have exact : ρ.Exact := alike.heaps.exact alike.sound alike.sound'
  unfold State.execute
  cases opcode : i.opcode with
  | newarr => exact alike.newArray _ _
  | stelem => exact alike.storeElement
  | ldelem => exact alike.continueWith alike.loadOperands
  | call => exact alike.call env fuel _
  | ret => exact alike.ret
  | print => exact alike.print (unnamed opcode)
  | halt => exact alike.halt _ _
  | _ => exact alike.continueWith (alike.innermost.execute exact _ i)

end Innermost

end State.Alike

/-! ## Runs -/

/-- The state is about to print a reference other than null. -/
def State.namesReference (s : State) : Bool :=
  match s.frames with
  | [] => false
  | frame :: _ =>
      match frame.fetch?, frame.operands with
      | some i, .ref r :: _ => i.opcode == .print && r != .null
      | _, _ => false

theorem State.Alike.step {ρ : Pairing} {s t : State} (alike : s.Alike ρ t) (env : Environment)
    (fuel : Nat) (unnamed : s.namesReference = false) :
    StepResult.Alike (s.step env.interpreted fuel) (t.step env.interpreted fuel) := by
  have frames := alike.frames
  unfold State.step
  cases stack : s.frames with
  | nil =>
      rw [stack] at frames
      cases stack' : t.frames with
      | nil => exact alike.fails _
      | cons frame' callers' =>
          rw [stack'] at frames
          cases frames
  | cons frame callers =>
      rw [stack] at frames
      cases stack' : t.frames with
      | nil =>
          rw [stack'] at frames
          cases frames
      | cons frame' callers' =>
          rw [stack'] at frames
          cases frames with
          | cons one outer =>
              dsimp only
              rw [one.fetch?]
              cases fetch : frame'.fetch? with
              | none =>
                  rw [one.function]
                  exact alike.fails _
              | some i =>
                  have advanced : ({ frame with pc := frame.pc + 1 } : Frame).Alike ρ
                      { frame' with pc := frame'.pc + 1 } := by
                    rw [one.pc]
                    exact one.goto _
                  have aligned : StacksAlike ρ (_ :: callers) (_ :: callers') :=
                    .cons advanced outer
                  refine State.Alike.execute ((alike.note .trace _ _).withFrames aligned)
                    env fuel i ?_
                  intro opcode r rest operands
                  have operands' : frame.operands = .ref r :: rest := operands
                  simpa [State.namesReference, stack, one.fetch?, fetch, operands', opcode]
                    using unnamed

/-- The steps end because memory has run out, whatever comes of flushing the console then. -/
def State.Exhausts (env : Environment) (s : State) : Prop :=
  ∃ fuel fault t, s.runSteps env fuel = some (.failed fault t) ∧ fault.isExhaustion = true

def State.PrintsReference (env : Environment) (s : State) : Prop :=
  ∃ n t, Steps env n s t ∧ t.namesReference = true

inductive Execution.Alike : Execution → Execution → Prop where
  | ended {s t : State} (outcome : Outcome) (console : s.console = t.console) :
      Execution.Alike (.ended outcome s) (.ended outcome t)
  | failed {s t : State} (fault : Fault) (console : s.console = t.console)
      (frames : CallStack.backtrace s.frames = CallStack.backtrace t.frames) :
      Execution.Alike (.failed fault s) (.failed fault t)

section Runs

variable {env : Environment} {fuel : Nat} {s t : State}

theorem State.Exhausts.of_next (next : s.step env.interpreted fuel = .next t)
    (later : t.Exhausts env.interpreted) : s.Exhausts env.interpreted := by
  obtain ⟨more, fault, u, run, full⟩ := later
  refine ⟨more + 1, fault, u, ?_, full⟩
  rw [State.runSteps_of_frames more (State.frames_ne_nil_of_step next),
    State.step_interpreted_fuel env more fuel, next]
  exact run

theorem State.exhausts_of_failed {fault : Fault} (active : s.frames ≠ [])
    (failed : s.step env.interpreted fuel = .failed fault t) (full : fault.isExhaustion = true) :
    s.Exhausts env.interpreted := by
  refine ⟨fuel + 1, fault, t, ?_, full⟩
  rw [State.runSteps_of_frames fuel active, failed]

theorem State.PrintsReference.of_next (next : s.step env fuel = .next t)
    (later : t.PrintsReference env) : s.PrintsReference env := by
  obtain ⟨n, u, chain, names⟩ := later
  exact ⟨n + 1, u, .head next chain, names⟩

/-- What a run on one of two heaps that match comes to, the run on the other comes to. -/
theorem State.Alike.run {ρ : Pairing} {e : Execution} (alike : s.Alike ρ t)
    (roomy : ¬ s.Exhausts env.interpreted) (roomy' : ¬ t.Exhausts env.interpreted)
    (unnamed : ¬ s.PrintsReference env.interpreted)
    (run : s.runSteps env.interpreted fuel = some e) :
    ∃ e', t.runSteps env.interpreted fuel = some e' ∧ e.Alike e' := by
  induction fuel generalizing s t ρ with
  | zero => cases run
  | succ fuel ih =>
      have length := alike.frames.length_eq
      by_cases active : s.frames = []
      · have active' : t.frames = [] := by
          rw [active] at length
          exact List.length_eq_zero_iff.mp length.symm
        rw [State.runSteps_of_empty fuel active] at run
        cases run
        exact ⟨_, State.runSteps_of_empty fuel active', .ended _ alike.console⟩
      · have active' : t.frames ≠ [] := by
          intro empty
          rw [empty] at length
          exact active (List.length_eq_zero_iff.mp length)
        have here : s.namesReference = false := by
          rw [← Bool.not_eq_true]
          exact fun names => unnamed ⟨0, s, .refl s, names⟩
        have same := alike.step env fuel here
        rw [State.runSteps_of_frames fuel active] at run
        rw [State.runSteps_of_frames fuel active']
        generalize first : s.step env.interpreted fuel = x at same run
        generalize second : t.step env.interpreted fuel = y at same
        cases same with
        | next alike' =>
            refine ih alike' ?_ ?_ ?_ run
            · exact fun later => roomy (later.of_next first)
            · exact fun later => roomy' (later.of_next second)
            · exact fun later => unnamed (later.of_next first)
        | halted code console =>
            cases run
            exact ⟨_, rfl, .ended _ console⟩
        | failed fault console frames =>
            cases run
            exact ⟨_, rfl, .failed fault console frames⟩
        | exhausted full => exact absurd (State.exhausts_of_failed active first full) roomy
        | exhausted' full => exact absurd (State.exhausts_of_failed active' second full) roomy'

end Runs

end StackMachine
