import StackMachine.Proofs.Native.GappedCode
import StackMachine.Proofs.Native.Journal
import StackMachine.Proofs.Native.SettledKinds

/-! # Native code in step with the interpreter

As long as native code does not fail, each of its steps is a step of the interpreter in a frame
of the function: the words on its stack and in its locals stand for the values in the frame, as
far as their kinds are known, and its held stores have been made.
-/

namespace StackMachine

/-! ## Frames that native states stand for -/

/-- Words, from the top of the stack, and the values of the given kinds that they stand for. -/
inductive AllStand (lane : Lane) (h : Heap) : List Kind → List Int64 → List Value → Prop where
  | nil : AllStand lane h [] [] []
  | cons {k : Kind} {w : Int64} {v : Value} {kinds : List Kind} {words : List Int64}
      {values : List Value} (head : StandsFor lane h k w v)
      (tail : AllStand lane h kinds words values) :
      AllStand lane h (k :: kinds) (w :: words) (v :: values)

theorem AllStand.of_cons {lane : Lane} {h : Heap} {kinds : List Kind} {w : Int64}
    {words : List Int64} {values : List Value} (all : AllStand lane h kinds (w :: words) values) :
    ∃ k ks v vs, kinds = k :: ks ∧ values = v :: vs ∧ StandsFor lane h k w v
      ∧ AllStand lane h ks words vs := by
  cases all with
  | cons head tail => exact ⟨_, _, _, _, rfl, rfl, head, tail⟩

/-- The native state stands for the frame, as far as kinds are known. -/
structure Mirrors (lane : Lane) (h : Heap) {n : Nat} (kinds : KindState n) (s : NativeState)
    (frame : Frame) : Prop where
  pc : s.pc = frame.pc
  words : s.locals.size = n
  slots : frame.locals.size = n
  stack : AllStand lane h kinds.stack s.stack frame.operands
  locals : ∀ (i : Nat) (k : Kind), kinds.locals[i]? = some (some k) →
    ∃ w v, s.locals[i]? = some w ∧ frame.locals[i]? = some v ∧ StandsFor lane h k w v

theorem Mirrors.weaken {lane : Lane} {h : Heap} {n : Nat} {assumed known : KindState n}
    {s : NativeState} {frame : Frame} (mirrors : Mirrors lane h known s frame)
    (covers : assumed.Covers known) : Mirrors lane h assumed s frame where
  pc := mirrors.pc
  words := mirrors.words
  slots := mirrors.slots
  stack := by
    rw [covers.stack]
    exact mirrors.stack
  locals i k at_i := mirrors.locals i k (covers.locals i k at_i)

/-! ## Instructions on a frame -/

section Local

variable {p : Program} {f : LinkedFunction} {lane : Lane} {h : Heap}
  {kinds after : KindState f.locals} {s : NativeState} {frame : Frame} {i : Instruction}

def Mirrors.Executes (p : Program) (lane : Lane) (h : Heap) {n : Nat} (after : KindState n)
    (frame : Frame) (i : Instruction) (t : NativeState) : Prop :=
  ∃ frame', Frame.execute p { frame with pc := frame.pc + 1 } i = .ok frame'
    ∧ frame'.function = frame.function ∧ Mirrors lane h after t frame'

/-- The native state with another stack, at the next step. -/
theorem Mirrors.advance (mirrors : Mirrors lane h kinds s frame) {ks : List Kind}
    {ws : List Int64} {vs : List Value} (stack : AllStand lane h ks ws vs) :
    Mirrors lane h { kinds with stack := ks } { s with pc := s.pc + 1, stack := ws }
      { frame with pc := frame.pc + 1, operands := vs } where
  pc := congrArg (· + 1) mirrors.pc
  words := mirrors.words
  slots := mirrors.slots
  stack := stack
  locals := mirrors.locals

theorem Mirrors.goto (mirrors : Mirrors lane h kinds s frame) {ks : List Kind}
    {ws : List Int64} {vs : List Value} (target : Nat) (stack : AllStand lane h ks ws vs) :
    Mirrors lane h { kinds with stack := ks } { s with pc := target, stack := ws }
      { frame with pc := target, operands := vs } where
  pc := rfl
  words := mirrors.words
  slots := mirrors.slots
  stack := stack
  locals := mirrors.locals

/-- An instruction that only changes the stack and goes on. -/
theorem Mirrors.executes_advance (mirrors : Mirrors lane h kinds s frame) {ks : List Kind}
    {ws : List Int64} {vs : List Value} (stack : AllStand lane h ks ws vs)
    (executes : Frame.execute p { frame with pc := frame.pc + 1 } i
      = .ok { frame with pc := frame.pc + 1, operands := vs }) :
    Executes p lane h { kinds with stack := ks } frame i
      { s with pc := s.pc + 1, stack := ws } :=
  ⟨_, executes, rfl, mirrors.advance stack⟩

theorem Mirrors.executes_ldv (mirrors : Mirrors lane h kinds s frame) (opcode : i.opcode = .ldv)
    (goes : kinds.after f i = .ok after) {w : Int64} (known : s.locals[i.arg]? = some w) :
    Executes p lane h after frame i { s with pc := s.pc + 1, stack := w :: s.stack } := by
  simp only [KindState.after, opcode] at goes
  split at goes
  · rename_i k kind
    cases goes
    have at_arg : kinds.locals[i.arg]? = some (some k) := by
      simpa [Option.join_eq_some_iff] using kind
    obtain ⟨w', v, word, value, stands⟩ := mirrors.locals i.arg k at_arg
    rw [known] at word
    cases word
    refine mirrors.executes_advance (.cons stands mirrors.stack) ?_
    simp only [Frame.execute, opcode, Frame.loadLocal, value, bind, Except.bind, Frame.push]
  · cases goes

theorem Mirrors.executes_store (mirrors : Mirrors lane h kinds s frame)
    (opcode : i.opcode = .store) (goes : kinds.after f i = .ok after) {w : Int64}
    {words : List Int64} (operands : s.stack = w :: words) :
    Executes p lane h after frame i
      { s with pc := s.pc + 1, stack := words, locals := s.locals.setIfInBounds i.arg w } := by
  have stack := mirrors.stack
  rw [operands] at stack
  obtain ⟨k, ks, v, vs, kinds_eq, operands_eq, stands, rest⟩ := stack.of_cons
  simp only [KindState.after, opcode, kinds_eq] at goes
  split at goes
  · rename_i bound
    cases goes
    have slot : i.arg < frame.locals.size := by
      rw [mirrors.slots]
      exact bound
    refine ⟨{ frame with
        pc := frame.pc + 1, operands := vs, locals := frame.locals.setIfInBounds i.arg v },
      ?_, rfl, congrArg (· + 1) mirrors.pc, ?_, ?_, rest, ?_⟩
    · simp only [Frame.execute, opcode, Frame.pop, operands_eq, bind, Except.bind,
        Frame.storeLocal, if_pos slot]
    · simpa using mirrors.words
    · simpa using mirrors.slots
    · intro j k' at_j
      by_cases same : i.arg = j
      · subst same
        have kind : k = k' := by simpa using at_j
        subst kind
        have word : i.arg < s.locals.size := by
          rw [mirrors.words]
          exact bound
        exact ⟨w, v, by simp [word], by simp [slot], stands⟩
      · dsimp only at at_j
        rw [Vector.getElem?_set_ne _ same] at at_j
        obtain ⟨w', v', word, value, stands'⟩ := mirrors.locals j k' at_j
        exact ⟨w', v', by rw [Array.getElem?_setIfInBounds_ne same, word],
          by rw [Array.getElem?_setIfInBounds_ne same, value], stands'⟩
  · cases goes

section Operands

variable {w a b : Int64} {words : List Int64}

theorem Mirrors.executes_dup (mirrors : Mirrors lane h kinds s frame) (opcode : i.opcode = .dup)
    (goes : kinds.after f i = .ok after) (operands : s.stack = w :: words) :
    Executes p lane h after frame i { s with pc := s.pc + 1, stack := w :: w :: words } := by
  have stack := mirrors.stack
  rw [operands] at stack
  obtain ⟨k, ks, v, vs, kinds_eq, operands_eq, stands, rest⟩ := stack.of_cons
  simp only [KindState.after, opcode, kinds_eq] at goes
  cases goes
  refine mirrors.executes_advance (.cons stands (.cons stands rest)) ?_
  simp only [Frame.execute, opcode, Frame.peek, operands_eq, bind, Except.bind, Frame.push]

theorem Mirrors.executes_swap (mirrors : Mirrors lane h kinds s frame) (opcode : i.opcode = .swap)
    (goes : kinds.after f i = .ok after) (operands : s.stack = b :: a :: words) :
    Executes p lane h after frame i { s with pc := s.pc + 1, stack := a :: b :: words } := by
  have stack := mirrors.stack
  rw [operands] at stack
  obtain ⟨kb, ks, y, vs, kinds_eq, operands_eq, upper, rest⟩ := stack.of_cons
  obtain ⟨ka, ks, x, vs, rfl, rfl, lower, rest⟩ := rest.of_cons
  simp only [KindState.after, opcode, kinds_eq] at goes
  cases goes
  refine mirrors.executes_advance (.cons lower (.cons upper rest)) ?_
  simp only [Frame.execute, opcode, Frame.pop2, operands_eq, bind, Except.bind, Frame.push]

theorem Mirrors.executes_binary (mirrors : Mirrors lane h kinds s frame) {op : BinaryOp}
    (opcode : i.opcode = .binary op) (goes : kinds.after f i = .ok after)
    (operands : s.stack = b :: a :: words) (result : op.onWords lane a b = .ok w) :
    Executes p lane h after frame i { s with pc := s.pc + 1, stack := w :: words } := by
  have stack := mirrors.stack
  rw [operands] at stack
  obtain ⟨kb, ks, y, vs, kinds_eq, operands_eq, upper, rest⟩ := stack.of_cons
  obtain ⟨ka, ks, x, vs, rfl, rfl, lower, rest⟩ := rest.of_cons
  simp only [KindState.after, opcode, kinds_eq] at goes
  split at goes
  · rename_i k kind
    cases goes
    obtain ⟨v, applied, stands⟩ := lower.binary upper kind result
    refine mirrors.executes_advance (.cons stands rest) ?_
    simp only [Frame.execute, opcode, Frame.pop2, operands_eq, bind, Except.bind, Frame.push,
      applied]
  · cases goes

theorem Mirrors.executes_unary (mirrors : Mirrors lane h kinds s frame) {op : UnaryOp}
    (opcode : i.opcode = .unary op) (goes : kinds.after f i = .ok after)
    (operands : s.stack = a :: words) :
    Executes p lane h after frame i
      { s with pc := s.pc + 1, stack := op.onWord lane a :: words } := by
  have stack := mirrors.stack
  rw [operands] at stack
  obtain ⟨k, ks, x, vs, kinds_eq, operands_eq, operand, rest⟩ := stack.of_cons
  simp only [KindState.after, opcode, kinds_eq] at goes
  split at goes
  · rename_i k kind
    cases goes
    obtain ⟨v, applied, stands⟩ := operand.unary kind
    refine mirrors.executes_advance (.cons stands rest) ?_
    simp only [Frame.execute, opcode, Frame.pop, operands_eq, bind, Except.bind, Frame.push,
      applied]
  · cases goes

theorem Mirrors.executes_jmp (mirrors : Mirrors lane h kinds s frame) (opcode : i.opcode = .jmp)
    (goes : kinds.after f i = .ok after) (inside : i.arg < frame.function.code.size) :
    Executes p lane h after frame i { s with pc := i.arg } := by
  simp only [KindState.after, opcode] at goes
  cases goes
  refine ⟨{ frame with pc := i.arg }, ?_, rfl, mirrors.goto i.arg mirrors.stack⟩
  simp only [Frame.execute, opcode, Frame.jump, if_pos inside]

/-- What a condition has to be, and whether it fails. -/
theorem Mirrors.condition (mirrors : Mirrors lane h kinds s frame)
    (opcode : i.opcode = .jz ∨ i.opcode = .jnz) (goes : kinds.after f i = .ok after)
    (operands : s.stack = w :: words) :
    ∃ v vs ks, frame.operands = v :: vs ∧ v.falsy? = some (decide (w = 0))
      ∧ AllStand lane h ks words vs ∧ after = { kinds with stack := ks } := by
  have stack := mirrors.stack
  rw [operands] at stack
  obtain ⟨k, ks, v, vs, kinds_eq, operands_eq, stands, rest⟩ := stack.of_cons
  rcases opcode with opcode | opcode
  all_goals
    simp only [KindState.after, opcode, kinds_eq] at goes
    split at goes
    · cases goes
    · rename_i condition
      cases goes
      exact ⟨v, vs, ks, operands_eq, stands.falsy condition, rest, rfl⟩

theorem Mirrors.executes_jz (mirrors : Mirrors lane h kinds s frame) (opcode : i.opcode = .jz)
    (goes : kinds.after f i = .ok after) (operands : s.stack = w :: words)
    (inside : i.arg < frame.function.code.size) :
    Executes p lane h after frame i
      (if w = 0 then { s with pc := i.arg, stack := words }
        else { s with pc := s.pc + 1, stack := words }) := by
  obtain ⟨v, vs, ks, operands_eq, falsy, rest, rfl⟩ :=
    mirrors.condition (.inl opcode) goes operands
  by_cases zero : w = 0
  · rw [if_pos zero]
    refine ⟨{ frame with pc := i.arg, operands := vs }, ?_, rfl, mirrors.goto i.arg rest⟩
    simp [Frame.execute, opcode, Frame.branch, Frame.pop, operands_eq, bind, Except.bind, falsy,
      zero, Frame.jump, inside]
  · rw [if_neg zero]
    refine mirrors.executes_advance rest ?_
    simp [Frame.execute, opcode, Frame.branch, Frame.pop, operands_eq, bind, Except.bind, falsy,
      zero]

theorem Mirrors.executes_jnz (mirrors : Mirrors lane h kinds s frame) (opcode : i.opcode = .jnz)
    (goes : kinds.after f i = .ok after) (operands : s.stack = w :: words)
    (inside : i.arg < frame.function.code.size) :
    Executes p lane h after frame i
      (if w = 0 then { s with pc := s.pc + 1, stack := words }
        else { s with pc := i.arg, stack := words }) := by
  obtain ⟨v, vs, ks, operands_eq, falsy, rest, rfl⟩ :=
    mirrors.condition (.inr opcode) goes operands
  by_cases zero : w = 0
  · rw [if_pos zero]
    refine mirrors.executes_advance rest ?_
    simp [Frame.execute, opcode, Frame.branch, Frame.pop, operands_eq, bind, Except.bind, falsy,
      zero]
  · rw [if_neg zero]
    refine ⟨{ frame with pc := i.arg, operands := vs }, ?_, rfl, mirrors.goto i.arg rest⟩
    simp [Frame.execute, opcode, Frame.branch, Frame.pop, operands_eq, bind, Except.bind, falsy,
      zero, Frame.jump, inside]

end Operands

end Local

/-! ## Constants, elements and results -/

section Other

variable {p : Program} {f : LinkedFunction} {lane : Lane} {h₀ h : Heap}
  {kinds after : KindState f.locals} {s t : NativeState} {frame : Frame} {i : Instruction}

theorem Mirrors.executes_ldc (mirrors : Mirrors lane h kinds s frame) {pc : Nat} {w : Int64}
    (takes : lane.TakesConstant p i) (lowered : lowerInstruction p f i = .ok (.push w))
    (goes : kinds.step p f pc i = .ok after) :
    i.opcode = .ldc
      ∧ Executes p lane h after frame i { s with pc := s.pc + 1, stack := w :: s.stack } := by
  unfold lowerInstruction at lowered
  split at lowered
  · rename_i opcode
    obtain ⟨c, constant, tag⟩ := takes opcode
    simp only [KindState.step, opcode, if_true, constant] at goes
    simp only [Program.constantValue, constant, bind, Except.bind] at lowered
    split at lowered
    · cases lowered
    · rename_i v value
      split at lowered
      · rename_i raw word
        cases lowered
        cases goes
        refine ⟨opcode, mirrors.executes_advance
          (.cons (.of_constant tag value word) mirrors.stack) ?_⟩
        simp only [Frame.execute, opcode, Program.constantValue, constant, bind, Except.bind,
          value, Frame.push]
      · cases lowered
  · cases lowered

theorem Mirrors.loads (mirrors : Mirrors lane h₀ kinds s frame)
    (journaled : Journaled lane h₀ s.journal h) (opcode : i.opcode = .ldelem)
    (goes : kinds.after f i = .ok after) {index array w : Int64} {words : List Int64}
    (operands : s.stack = index :: array :: words)
    (loaded : s.load h₀ (refOfWord array) index = .ok w) :
    ∃ frame', loadOperands h { frame with pc := frame.pc + 1 } = .ok frame'
      ∧ frame'.function = frame.function
      ∧ Mirrors lane h₀ after { s with pc := s.pc + 1, stack := w :: words } frame' := by
  have stack := mirrors.stack
  rw [operands] at stack
  obtain ⟨k, ks, y, vs, kinds_eq, operands_eq, upper, others⟩ := stack.of_cons
  obtain ⟨k', ks, x, vs, rfl, rfl, lower, rest⟩ := others.of_cons
  simp only [KindState.after, opcode, kinds_eq] at goes
  split at goes
  · rename_i both
    obtain ⟨rfl, rfl⟩ := both
    cases goes
    obtain ⟨m, rfl, kind, same⟩ := upper.of_int
    obtain ⟨r, rfl, rfl, integers⟩ := lower.of_array
    obtain ⟨o, n, live, isArray, bounds, here, kind', same'⟩ :=
      journaled.loaded rfl integers loaded
    have widened : (Value.int m).widen? = some index.toInt := by rw [widen_of_lane kind, same]
    have found := Heap.loadElement_of_holds live isArray widened bounds
    rw [Array.getD_eq_getD_getElem?, here, Option.getD_some] at found
    refine ⟨{ frame with pc := frame.pc + 1, operands := .int n :: vs }, ?_, rfl,
      mirrors.advance (.cons (.int kind' same') rest)⟩
    simp only [loadOperands, Frame.pop2, operands_eq, bind, Except.bind, arrayOperand, Value.ref?,
      found, Frame.push]
  · cases goes

theorem Mirrors.stores (mirrors : Mirrors lane h₀ kinds s frame)
    (journaled : Journaled lane h₀ s.journal h) (opcode : i.opcode = .stelem)
    (goes : kinds.after f i = .ok after) {word index array : Int64} {words : List Int64}
    (operands : s.stack = word :: index :: array :: words)
    (stored : s.store h₀ ⟨refOfWord array, index, word⟩ = .ok t) :
    ∃ r slot v frame', storeRequest h { frame with pc := frame.pc + 1 } = .ok (r, slot, v, frame')
      ∧ frame'.function = frame.function
      ∧ Mirrors lane h₀ after { t with pc := t.pc + 1, stack := words } frame'
      ∧ Journaled lane h₀ t.journal (h.putElement r slot v) := by
  have stack := mirrors.stack
  rw [operands] at stack
  obtain ⟨k, ks, z, vs, kinds_eq, operands_eq, top, others⟩ := stack.of_cons
  obtain ⟨k', ks, y, vs, rfl, rfl, upper, others'⟩ := others.of_cons
  obtain ⟨k'', ks, x, vs, rfl, rfl, lower, rest⟩ := others'.of_cons
  simp only [KindState.after, opcode, kinds_eq] at goes
  split at goes
  · rename_i all
    obtain ⟨rfl, rfl, rfl⟩ := all
    cases goes
    obtain ⟨n, rfl, kind, same⟩ := top.of_int
    obtain ⟨m, rfl, kind', same'⟩ := upper.of_int
    obtain ⟨r, rfl, rfl, integers⟩ := lower.of_array
    obtain ⟨slot, journaled'⟩ := journaled.cons integers stored kind same
    have widened : (Value.int m).widen? = some index.toInt := by rw [widen_of_lane kind', same']
    rw [NativeState.store_eq stored]
    have next := mirrors.advance rest
    refine ⟨refOfWord array, index.toInt.toNat, .int n,
      { frame with pc := frame.pc + 1, operands := vs }, ?_, rfl,
      ⟨next.pc, next.words, next.slots, next.stack, next.locals⟩, journaled'⟩
    simp only [storeRequest, Frame.pop3, operands_eq, bind, Except.bind, arrayOperand, Value.ref?,
      slot _ widened]
  · cases goes

def LinkedFunction.Returns (f : LinkedFunction) (w : Int64) (value : Option Value) : Prop :=
  if f.returnsValue then ∃ v, value = some v ∧ Value.ofLane? w f.result = some v
  else value = none

theorem Mirrors.returns_value (mirrors : Mirrors lane h kinds s frame) (takes : lane.Takes f.result)
    (function : frame.function = f) (opcode : i.opcode = .ret)
    (goes : kinds.after f i = .ok after) (returns : f.returnsValue = true) {w : Int64}
    {words : List Int64} (operands : s.stack = w :: words) :
    ∃ value, Frame.returnValue { frame with pc := frame.pc + 1 } = .ok value
      ∧ f.Returns w value := by
  have stack := mirrors.stack
  rw [operands] at stack
  obtain ⟨k, ks, v, vs, kinds_eq, operands_eq, stands, rest⟩ := stack.of_cons
  simp only [KindState.after, opcode, kinds_eq, returns, if_true] at goes
  split at goes
  · rename_i kind
    obtain ⟨result, admits⟩ := stands.result takes kind.symm
    refine ⟨some v, ?_, ?_⟩
    · simp only [Frame.returnValue, function, returns, if_true, Frame.pop, operands_eq, bind,
        Except.bind, admits]
    · simp only [LinkedFunction.Returns, returns, if_true]
      exact ⟨v, rfl, result⟩
  · cases goes

theorem returns_void (function : frame.function = f) (void : f.returnsValue = false)
    (w : Int64) :
    ∃ value, Frame.returnValue { frame with pc := frame.pc + 1 } = .ok value
      ∧ f.Returns w value :=
  ⟨none, by simp [Frame.returnValue, function, void], by simp [LinkedFunction.Returns, void]⟩

end Other

/-! ## Steps of the interpreter in a call -/

/-- The state in which a frame of the function has been entered; native code and log are
erased. -/
def State.inCall (s : State) (h : Heap) (frame : Frame) (callers : CallStack) : State :=
  { s.bare with heap := h, frames := frame :: callers }

def State.backFrom (s : State) (h : Heap) (callers : CallStack) (value : Option Value) : State :=
  { s.bare with heap := h, frames := CallStack.receive callers value }

section InCall

variable {env : Environment} {fuel : Nat} {s : State} {h : Heap} {frame frame' : Frame}
  {callers : CallStack} {i : Instruction}

theorem State.step_inCall (fetched : frame.fetch? = some i) :
    (s.inCall h frame callers).step env fuel
      = (s.inCall h frame callers).execute env fuel { frame with pc := frame.pc + 1 } callers i :=
  State.step_of_fetch rfl fetched

theorem State.step_inCall_local (fetched : frame.fetch? = some i)
    (isLocal : i.opcode.isLocal = true)
    (executes : Frame.execute env.program { frame with pc := frame.pc + 1 } i = .ok frame') :
    (s.inCall h frame callers).step env fuel = .next (s.inCall h frame' callers) := by
  rw [State.step_inCall fetched, State.execute_of_isLocal isLocal, executes]
  rfl

theorem State.step_inCall_load (fetched : frame.fetch? = some i) (opcode : i.opcode = .ldelem)
    (loads : loadOperands h { frame with pc := frame.pc + 1 } = .ok frame') :
    (s.inCall h frame callers).step env fuel = .next (s.inCall h frame' callers) := by
  have loads' : loadOperands (s.inCall h frame callers).heap { frame with pc := frame.pc + 1 }
      = .ok frame' := loads
  rw [State.step_inCall fetched]
  simp only [State.execute, opcode, loads']
  rfl

theorem State.step_inCall_store (fetched : frame.fetch? = some i) (opcode : i.opcode = .stelem)
    {r : HeapRef} {slot : Nat} {v : Value}
    (stores : storeRequest h { frame with pc := frame.pc + 1 } = .ok (r, slot, v, frame')) :
    (s.inCall h frame callers).step env fuel
      = .next (s.inCall (h.putElement r slot v) frame' callers) := by
  have stores' : storeRequest (s.inCall h frame callers).heap { frame with pc := frame.pc + 1 }
      = .ok (r, slot, v, frame') := stores
  rw [State.step_inCall fetched]
  simp only [State.execute, opcode, State.storeElement, stores']
  rfl

theorem State.step_inCall_return (fetched : frame.fetch? = some i) (opcode : i.opcode = .ret)
    {value : Option Value}
    (returns : Frame.returnValue { frame with pc := frame.pc + 1 } = .ok value) :
    (s.inCall h frame callers).step env fuel = .next (s.backFrom h callers value) := by
  rw [State.step_inCall fetched]
  simp only [State.execute, opcode, State.ret, returns]
  rfl

end InCall

/-! ## Lowered code -/

theorem getElem?_of_lowerAll {p : Program} {f : LinkedFunction} {code : List Instruction}
    {steps : List Step} (lowered : lowerAll p f code = .ok steps) {pc : Nat} {step : Step}
    (here : steps[pc]? = some step) :
    ∃ i, code[pc]? = some i ∧ lowerInstruction p f i = .ok step := by
  induction code generalizing steps pc with
  | nil =>
      cases lowered
      simp at here
  | cons i rest ih =>
      simp only [lowerAll, bind, Except.bind] at lowered
      split at lowered
      · cases lowered
      · rename_i first first_lowered
        split at lowered
        · cases lowered
        · rename_i others rest_lowered
          cases lowered
          cases pc with
          | zero =>
              cases here
              exact ⟨i, rfl, first_lowered⟩
          | succ pc => exact ih rest_lowered here

theorem length_lowerAll {p : Program} {f : LinkedFunction} {code : List Instruction}
    {steps : List Step} (lowered : lowerAll p f code = .ok steps) :
    steps.length = code.length := by
  induction code generalizing steps with
  | nil =>
      cases lowered
      rfl
  | cons i rest ih =>
      simp only [lowerAll, bind, Except.bind] at lowered
      split at lowered
      · cases lowered
      · split at lowered
        · cases lowered
        · rename_i others rest_lowered
          cases lowered
          simp [ih rest_lowered]

theorem lowerInstruction_op {p : Program} {f : LinkedFunction} {i i' : Instruction}
    (lowered : lowerInstruction p f i = .ok (.op i')) : i' = i ∧ i.opcode ≠ .ldc := by
  unfold lowerInstruction at lowered
  split at lowered
  · split at lowered
    · cases lowered
    · split at lowered <;> cases lowered
  · rename_i other
    cases lowered
    exact ⟨rfl, other⟩

/-- Apart from the loading of a constant, a step of the kinds is what the instruction makes of
them. -/
theorem KindState.after_of_step {n : Nat} {kinds after : KindState n} {p : Program}
    {f : LinkedFunction} {pc : Nat} {i : Instruction} (other : i.opcode ≠ .ldc)
    (goes : kinds.step p f pc i = .ok after) : kinds.after f i = .ok after := by
  simp only [KindState.step, other, if_false] at goes
  split at goes
  · rename_i state ok
    cases goes
    exact ok
  · cases goes

/-! ## In step -/

/-- The function has been compiled for the lane, before any optimization, and its kinds are
settled. -/
structure Compiled (p : Program) (f : LinkedFunction) (lane : Lane) (steps : List Step)
    (states : Array (Option (KindState f.locals))) : Prop where
  fits : LaneFits p f lane
  size : states.size = f.code.size
  settled : ∀ pc, KindSettled p f states pc
  lowered : lower p f = .ok steps

abbrev LinkedFunction.context (f : LinkedFunction) (lane : Lane) (h : Heap) : NativeContext :=
  ⟨f.name, lane, f.returnsValue, h⟩

/-- The native state stands for a frame of the function at the same place, and its held stores
lead from the first heap to the second. -/
structure InStep (f : LinkedFunction) (lane : Lane) (states : Array (Option (KindState f.locals)))
    (h₀ : Heap) (s : NativeState) (h : Heap) (frame : Frame) : Prop where
  function : frame.function = f
  mirrors : ∃ kinds, states[s.pc]? = some (some kinds) ∧ Mirrors lane h₀ kinds s frame
  journaled : Journaled lane h₀ s.journal h

theorem branches_of_leadsTo {i : Instruction} {pc next : Nat}
    (leads : (Step.op i).LeadsTo pc next) : next ∈ i.branches pc := by
  rcases leads with ⟨rfl, falls⟩ | target
  · cases opcode : i.opcode with
    | ret | jmp => simp [Step.fallsThrough, Step.opcode?, opcode] at falls
    | _ => simp [Instruction.branches, opcode]
  · cases opcode : i.opcode with
    | jmp | jz | jnz =>
        have same : i.arg = next := by
          simpa [Step.target?, opcode, Opcode.isJump] using target
        simp [Instruction.branches, opcode, same]
    | _ => simp [Step.target?, opcode, Opcode.isJump] at target

section InStep

variable {env : Environment} {f : LinkedFunction} {lane : Lane} {steps : List Step}
  {states : Array (Option (KindState f.locals))} {h₀ h : Heap} {s t : NativeState} {frame : Frame}

structure AboutTo (p : Program) (f : LinkedFunction) (lane : Lane)
    (states : Array (Option (KindState f.locals))) (h₀ : Heap) (s : NativeState) (frame : Frame)
    (step : Step) (i : Instruction) (kinds after : KindState f.locals) : Prop where
  fetched : frame.fetch? = some i
  member : i ∈ f.code.toList
  lowered : lowerInstruction p f i = .ok step
  mirrors : Mirrors lane h₀ kinds s frame
  goes : kinds.step p f s.pc i = .ok after
  edges : ∀ next ∈ i.branches s.pc,
    ∃ assumed, states[next]? = some (some assumed) ∧ assumed.Covers after

theorem InStep.aboutTo {p : Program} (compiled : Compiled p f lane steps states)
    (inStep : InStep f lane states h₀ s h frame) {step : Step}
    (here : steps[s.pc]? = some step) :
    ∃ i kinds after, AboutTo p f lane states h₀ s frame step i kinds after := by
  obtain ⟨kinds, at_pc, mirrors⟩ := inStep.mirrors
  obtain ⟨i, code, lowered⟩ := getElem?_of_lowerAll compiled.lowered here
  have at_code : f.code[s.pc]? = some i := by simpa using code
  obtain ⟨after, goes, edges⟩ := compiled.settled s.pc kinds i at_pc at_code
  refine ⟨i, kinds, after, ?_, List.mem_of_getElem? code, lowered, mirrors, goes, edges⟩
  rw [Frame.fetch?, inStep.function, ← mirrors.pc]
  exact at_code

namespace AboutTo

variable {p : Program} {step : Step} {i : Instruction} {kinds after : KindState f.locals}

theorem not_fetches (about : AboutTo p f lane states h₀ s frame step i kinds after)
    (σ : State) (callers : CallStack) {o : Opcode} (other : i.opcode ≠ o) :
    ¬ (σ.inCall h frame callers).Fetches o := by
  rintro ⟨frame', callers', i', frames, fetched, opcode⟩
  cases frames
  rw [about.fetched] at fetched
  cases fetched
  exact other opcode

/-- A step that is an instruction is the fetched one, and its kinds go well. -/
theorem op {i' : Instruction} (about : AboutTo p f lane states h₀ s frame (.op i') i kinds after) :
    i' = i ∧ kinds.after f i = .ok after := by
  obtain ⟨rfl, other⟩ := lowerInstruction_op about.lowered
  exact ⟨rfl, KindState.after_of_step other about.goes⟩

theorem inside (about : AboutTo p f lane states h₀ s frame step i kinds after)
    (compiled : Compiled p f lane steps states) (function : frame.function = f) {next : Nat}
    (branch : next ∈ i.branches s.pc) : next < frame.function.code.size := by
  obtain ⟨assumed, at_next, _⟩ := about.edges next branch
  have bound := (Array.getElem?_eq_some_iff.mp at_next).1
  rw [compiled.size] at bound
  rw [function]
  exact bound

theorem arrives (about : AboutTo p f lane states h₀ s frame step i kinds after)
    {h' : Heap} {frame' : Frame} (function : frame'.function = f)
    (branch : t.pc ∈ i.branches s.pc) (mirrors : Mirrors lane h₀ after t frame')
    (journaled : Journaled lane h₀ t.journal h') : InStep f lane states h₀ t h' frame' := by
  obtain ⟨assumed, at_next, covers⟩ := about.edges t.pc branch
  exact ⟨function, ⟨assumed, at_next, mirrors.weaken covers⟩, journaled⟩

end AboutTo

def Follows (env : Environment) (f : LinkedFunction) (lane : Lane)
    (states : Array (Option (KindState f.locals))) (h₀ h : Heap) (frame : Frame)
    (t : NativeState) : Prop :=
  ∃ h' frame', InStep f lane states h₀ t h' frame' ∧ ∀ (σ : State) (callers : CallStack),
    ¬ (σ.inCall h frame callers).Fetches .print ∧
      (σ.inCall h frame callers).step env.interpreted 0 = .next (σ.inCall h' frame' callers)

theorem AboutTo.follows_local {step : Step} {i : Instruction} {kinds after : KindState f.locals}
    (about : AboutTo env.program f lane states h₀ s frame step i kinds after)
    (function : frame.function = f) (journaled : Journaled lane h₀ t.journal h)
    (branch : t.pc ∈ i.branches s.pc) (isLocal : i.opcode.isLocal = true)
    (executes : Mirrors.Executes env.program lane h₀ after frame i t) :
    Follows env f lane states h₀ h frame t := by
  obtain ⟨frame', executed, same, mirrors⟩ := executes
  refine ⟨h, frame', about.arrives (same.trans function) branch mirrors journaled, ?_⟩
  intro σ callers
  refine ⟨about.not_fetches σ callers ?_, State.step_inCall_local about.fetched isLocal executed⟩
  intro print
  simp [print, Opcode.isLocal] at isLocal

/-- Every step that native code makes without failing, the interpreter makes too. -/
theorem InStep.follows (compiled : Compiled env.program f lane steps states)
    (inStep : InStep f lane states h₀ s h frame)
    (next : (GappedCode.full steps).next (f.context lane h₀) s = .ok (.next t)) :
    Follows env f lane states h₀ h frame t := by
  cases here : steps[s.pc]? with
  | none =>
      rw [GappedCode.next_of_end (by simp [GappedCode.full, here])] at next
      cases next
  | some step =>
      have at_pc : (GappedCode.full steps)[s.pc]? = some (some step) := by
        simp [GappedCode.full, here]
      rw [GappedCode.next_of_step at_pc] at next
      have leads := NativeState.leadsTo_of_step next
      obtain ⟨i, kinds, after, about⟩ := inStep.aboutTo compiled here
      have mirrors := about.mirrors
      have journaled := inStep.journaled
      have function := inStep.function
      generalize flow_eq : Flow.next t = flow at next
      cases NativeState.move_of_step next with
      | push w =>
          cases flow_eq
          obtain ⟨opcode, executes⟩ :=
            mirrors.executes_ldc (compiled.fits.constants i about.member) about.lowered about.goes
          exact about.follows_local function journaled (by simp [Instruction.branches, opcode])
            (by simp [opcode, Opcode.isLocal]) executes
      | ldv opcode known =>
          cases flow_eq
          obtain ⟨rfl, goes⟩ := about.op
          exact about.follows_local function journaled (branches_of_leadsTo leads)
            (by simp [opcode, Opcode.isLocal]) (mirrors.executes_ldv opcode goes known)
      | store opcode operands bound =>
          cases flow_eq
          obtain ⟨rfl, goes⟩ := about.op
          exact about.follows_local function journaled (branches_of_leadsTo leads)
            (by simp [opcode, Opcode.isLocal]) (mirrors.executes_store opcode goes operands)
      | dup opcode operands =>
          cases flow_eq
          obtain ⟨rfl, goes⟩ := about.op
          exact about.follows_local function journaled (branches_of_leadsTo leads)
            (by simp [opcode, Opcode.isLocal]) (mirrors.executes_dup opcode goes operands)
      | swap opcode operands =>
          cases flow_eq
          obtain ⟨rfl, goes⟩ := about.op
          exact about.follows_local function journaled (branches_of_leadsTo leads)
            (by simp [opcode, Opcode.isLocal]) (mirrors.executes_swap opcode goes operands)
      | binary opcode operands result =>
          cases flow_eq
          obtain ⟨rfl, goes⟩ := about.op
          exact about.follows_local function journaled (branches_of_leadsTo leads)
            (by simp [opcode, Opcode.isLocal])
            (mirrors.executes_binary opcode goes operands result)
      | unary opcode operands =>
          cases flow_eq
          obtain ⟨rfl, goes⟩ := about.op
          exact about.follows_local function journaled (branches_of_leadsTo leads)
            (by simp [opcode, Opcode.isLocal]) (mirrors.executes_unary opcode goes operands)
      | jmp opcode =>
          cases flow_eq
          obtain ⟨rfl, goes⟩ := about.op
          have inside := about.inside compiled function (branches_of_leadsTo leads)
          exact about.follows_local function journaled (branches_of_leadsTo leads)
            (by simp [opcode, Opcode.isLocal]) (mirrors.executes_jmp opcode goes inside)
      | jz opcode operands =>
          obtain ⟨rfl, goes⟩ := about.op
          have executes := mirrors.executes_jz (p := env.program) opcode goes operands
            (about.inside compiled function (by simp [Instruction.branches, opcode]))
          split at flow_eq
          · rename_i zero
            cases flow_eq
            rw [if_pos zero] at executes
            exact about.follows_local function journaled (branches_of_leadsTo leads)
              (by simp [opcode, Opcode.isLocal]) executes
          · rename_i nonzero
            cases flow_eq
            rw [if_neg nonzero] at executes
            exact about.follows_local function journaled (branches_of_leadsTo leads)
              (by simp [opcode, Opcode.isLocal]) executes
      | jnz opcode operands =>
          obtain ⟨rfl, goes⟩ := about.op
          have executes := mirrors.executes_jnz (p := env.program) opcode goes operands
            (about.inside compiled function (by simp [Instruction.branches, opcode]))
          split at flow_eq
          · rename_i zero
            cases flow_eq
            rw [if_pos zero] at executes
            exact about.follows_local function journaled (branches_of_leadsTo leads)
              (by simp [opcode, Opcode.isLocal]) executes
          · rename_i nonzero
            cases flow_eq
            rw [if_neg nonzero] at executes
            exact about.follows_local function journaled (branches_of_leadsTo leads)
              (by simp [opcode, Opcode.isLocal]) executes
      | ldelem opcode operands loaded =>
          cases flow_eq
          obtain ⟨rfl, goes⟩ := about.op
          obtain ⟨frame', loads, same, mirrors'⟩ :=
            mirrors.loads journaled opcode goes operands loaded
          refine ⟨h, frame', about.arrives (same.trans function) (branches_of_leadsTo leads)
            mirrors' journaled, fun σ callers => ⟨about.not_fetches σ callers (by simp [opcode]),
            State.step_inCall_load about.fetched opcode loads⟩⟩
      | stelem opcode operands stored =>
          cases flow_eq
          obtain ⟨rfl, goes⟩ := about.op
          obtain ⟨r, slot, v, frame', stores, same, mirrors', journaled'⟩ :=
            mirrors.stores journaled opcode goes operands stored
          refine ⟨_, frame', about.arrives (same.trans function) (branches_of_leadsTo leads)
            mirrors' journaled', fun σ callers => ⟨about.not_fetches σ callers (by simp [opcode]),
            State.step_inCall_store about.fetched opcode stores⟩⟩
      | retValue => cases flow_eq
      | retVoid => cases flow_eq

/-- Where native code returns, the interpreter returns with the value of the word. -/
theorem InStep.returns (compiled : Compiled env.program f lane steps states)
    (inStep : InStep f lane states h₀ s h frame) {w : Int64}
    (done : (GappedCode.full steps).next (f.context lane h₀) s = .ok (.returned w t)) :
    t.journal = s.journal ∧ ∃ value, f.Returns w value ∧ ∀ (σ : State) (callers : CallStack),
      ¬ (σ.inCall h frame callers).Fetches .print ∧
        (σ.inCall h frame callers).step env.interpreted 0 = .next (σ.backFrom h callers value) := by
  cases here : steps[s.pc]? with
  | none =>
      rw [GappedCode.next_of_end (by simp [GappedCode.full, here])] at done
      cases done
  | some step =>
      have at_pc : (GappedCode.full steps)[s.pc]? = some (some step) := by
        simp [GappedCode.full, here]
      rw [GappedCode.next_of_step at_pc] at done
      obtain ⟨i, kinds, after, about⟩ := inStep.aboutTo compiled here
      generalize flow_eq : Flow.returned w t = flow at done
      cases NativeState.move_of_step done with
      | retValue opcode returns operands =>
          cases flow_eq
          obtain ⟨rfl, goes⟩ := about.op
          obtain ⟨value, returned, means⟩ := about.mirrors.returns_value compiled.fits.result
            inStep.function opcode goes returns operands
          exact ⟨rfl, value, means, fun σ callers =>
            ⟨about.not_fetches σ callers (by simp [opcode]),
              State.step_inCall_return about.fetched opcode returned⟩⟩
      | retVoid opcode void =>
          cases flow_eq
          obtain ⟨rfl, goes⟩ := about.op
          obtain ⟨value, returned, means⟩ := returns_void inStep.function void 0
          exact ⟨rfl, value, means, fun σ callers =>
            ⟨about.not_fetches σ callers (by simp [opcode]),
              State.step_inCall_return about.fetched opcode returned⟩⟩
      | jz | jnz => split at flow_eq <;> cases flow_eq
      | push | ldv | store | dup | swap | binary | unary | jmp | ldelem | stelem => cases flow_eq

/-! ## Whole calls -/

/-- A native run that returns is a chain of steps of the interpreter, without a print, from the
frame of the call to its return. -/
theorem InStep.run_returned (compiled : Compiled env.program f lane steps states)
    (inStep : InStep f lane states h₀ s h frame) {fuel : Nat} {w : Int64}
    {journal : List HeldStore}
    (run : (GappedCode.full steps).run (f.context lane h₀) fuel s = some (.ok (w, journal))) :
    ∃ n h' value, f.Returns w value ∧ Journaled lane h₀ journal h' ∧
      ∀ (σ : State) (callers : CallStack), StepsIn env.interpreted (¬ ·.Fetches .print) n
        (σ.inCall h frame callers) (σ.backFrom h' callers value) := by
  induction fuel generalizing s h frame with
  | zero => simp [GappedCode.run] at run
  | succ fuel ih =>
      cases next : (GappedCode.full steps).next (f.context lane h₀) s with
      | error e => simp [GappedCode.run_of_error fuel next] at run
      | ok flow =>
          cases flow with
          | returned w' t =>
              rw [GappedCode.run_of_returned fuel next] at run
              cases run
              obtain ⟨same, value, means, steps⟩ := inStep.returns compiled next
              refine ⟨1, h, value, means, same ▸ inStep.journaled, fun σ callers => ?_⟩
              exact .head (steps σ callers).1 (steps σ callers).2 (.refl _)
          | next t =>
              rw [GappedCode.run_of_next fuel next] at run
              obtain ⟨h', frame', inStep', follows⟩ := inStep.follows compiled next
              obtain ⟨n, h'', value, means, journaled, chain⟩ := ih inStep' run
              refine ⟨n + 1, h'', value, means, journaled, fun σ callers => ?_⟩
              exact .head (follows σ callers).1 (follows σ callers).2 (chain σ callers)

/-- As long as a native run goes on, so does the interpreter, in frames that do not print. -/
theorem InStep.run_unfinished (compiled : Compiled env.program f lane steps states)
    (inStep : InStep f lane states h₀ s h frame) {fuel : Nat}
    (run : (GappedCode.full steps).run (f.context lane h₀) fuel s = none) :
    ∃ h' frame', ∀ (σ : State) (callers : CallStack), StepsIn env.interpreted (¬ ·.Fetches .print)
      fuel (σ.inCall h frame callers) (σ.inCall h' frame' callers) := by
  induction fuel generalizing s h frame with
  | zero => exact ⟨h, frame, fun σ callers => .refl _⟩
  | succ fuel ih =>
      cases next : (GappedCode.full steps).next (f.context lane h₀) s with
      | error e => simp [GappedCode.run_of_error fuel next] at run
      | ok flow =>
          cases flow with
          | returned w t => simp [GappedCode.run_of_returned fuel next] at run
          | next t =>
              rw [GappedCode.run_of_next fuel next] at run
              obtain ⟨h', frame', inStep', follows⟩ := inStep.follows compiled next
              obtain ⟨h'', frame'', chain⟩ := ih inStep' run
              refine ⟨h'', frame'', fun σ callers => ?_⟩
              exact .head (follows σ callers).1 (follows σ callers).2 (chain σ callers)

end InStep

end StackMachine
