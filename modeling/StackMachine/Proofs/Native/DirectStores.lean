import Mathlib
import StackMachine.Proofs.Native.SafeCalls

/-! # Stores made at once

A machine that makes its stores at once, and whose loads read the heap, needs no journal. Where
compiled code returns, it returns the same word on that machine and leaves the same heap; where it
fails, the held stores are dropped, and the heap is as it was.
-/

namespace StackMachine

/-! ## The machine without a journal -/

/-- Executes one step on the heap, to which stores go at once. Other steps do not look at it. -/
def NativeState.stepAtOnce (lane : Lane) (returnsValue : Bool) (h : Heap) (s : NativeState) :
    Step → Except NativeError (Heap × Flow)
  | .push v => .ok (h, s.goOn (v :: s.stack))
  | .op i =>
      match i.opcode, s.stack with
      | .ldelem, index :: array :: stack =>
          match h.loadWord (refOfWord array) index with
          | .ok v => .ok (h, s.goOn (v :: stack))
          | .error e => .error e
      | .stelem, word :: index :: array :: stack =>
          match h.storeWord (refOfWord array) index word with
          | .ok h => .ok (h, s.goOn stack)
          | .error e => .error e
      | _, _ =>
          match s.instruction lane returnsValue h i with
          | .ok flow => .ok (h, flow)
          | .error e => .error e

namespace NativeFunction

def executeAtOnce (f : NativeFunction) :
    Nat → Heap → NativeState → Option (Heap × Except NativeError Int64)
  | 0, _, _ => none
  | fuel + 1, h, s =>
      match f.code[s.pc]? with
      | none => some (h, .error (.missingReturn f.name))
      | some step =>
          match s.stepAtOnce f.lane f.returnsValue h step with
          | .error e => some (h, .error e)
          | .ok (h, .returned v _) => some (h, .ok v)
          | .ok (h, .next s) => f.executeAtOnce fuel h s

def invokeAtOnce (f : NativeFunction) (fuel : Nat) (args : List Int64) (h : Heap) :
    Option (Heap × Except NativeError Int64) :=
  f.executeAtOnce fuel h (.start args f.locals)

end NativeFunction

/-! ## Both machines step by step -/

def NativeState.bare (s : NativeState) : NativeState := { s with journal := [] }

namespace Flow

def state : Flow → NativeState
  | .next s => s
  | .returned _ s => s

def bare : Flow → Flow
  | .next s => .next s.bare
  | .returned v s => .returned v s.bare

end Flow

section Stepping

variable {lane : Lane} {returnsValue : Bool} {h₀ h : Heap} {s : NativeState} {step : Step}
  {flow : Flow}

/-- Only a store changes the journal, and it puts one entry in front. -/
theorem NativeMove.suffix (move : NativeMove lane returnsValue h₀ s step flow) :
    s.journal <:+ flow.state.journal := by
  cases move with
  | stelem opcode operands stored =>
      rw [NativeState.store_eq stored]
      exact List.suffix_cons _ _
  | jz opcode operands | jnz opcode operands =>
      split
      all_goals exact List.suffix_refl _
  | _ => exact List.suffix_refl _

/-- A step with held stores is a step with the stores made. -/
theorem WrittenThrough.after_step (through : WrittenThrough h₀ s.journal h)
    (done : s.step lane returnsValue h₀ step = .ok flow)
    (fits : ∀ held ∈ flow.state.journal, held.Fits h₀) :
    ∃ h', s.bare.stepAtOnce lane returnsValue h step = .ok (h', flow.bare)
      ∧ WrittenThrough h₀ flow.state.journal h' := by
  cases NativeState.move_of_step done with
  | push v => exact ⟨h, rfl, through⟩
  | ldelem opcode operands loaded =>
      rw [through.loads s rfl] at loaded
      refine ⟨h, ?_, through⟩
      simp only [NativeState.stepAtOnce, opcode, NativeState.bare, operands, loaded]
      rfl
  | stelem opcode operands stored =>
      rw [NativeState.store_eq stored] at fits ⊢
      obtain ⟨slot, v, placed, same⟩ := fits _ List.mem_cons_self
      refine ⟨_, ?_, through.cons placed same⟩
      rw [← through.places] at placed
      simp only [NativeState.stepAtOnce, opcode, NativeState.bare, operands, Heap.storeWord, placed]
      rfl
  | ldv opcode known =>
      refine ⟨h, ?_, through⟩
      simp [NativeState.stepAtOnce, opcode, NativeState.bare, NativeState.instruction, known,
        NativeState.goOn, Flow.bare]
  | store opcode operands bound =>
      refine ⟨h, ?_, through⟩
      simp [NativeState.stepAtOnce, opcode, NativeState.bare, NativeState.instruction, operands,
        bound, NativeState.goOn, Flow.bare]
  | dup opcode operands | swap opcode operands | unary opcode operands =>
      refine ⟨h, ?_, through⟩
      simp [NativeState.stepAtOnce, opcode, NativeState.bare, NativeState.instruction, operands,
        NativeState.goOn, Flow.bare]
  | binary opcode operands result =>
      refine ⟨h, ?_, through⟩
      simp [NativeState.stepAtOnce, opcode, NativeState.bare, NativeState.instruction, operands,
        result, NativeState.goOn, Flow.bare]
  | jmp opcode =>
      refine ⟨h, ?_, through⟩
      simp [NativeState.stepAtOnce, opcode, NativeState.bare, NativeState.instruction,
        NativeState.jump, Flow.bare]
  | jz opcode operands | jnz opcode operands =>
      refine ⟨h, ?_, ?_⟩
      · simp only [NativeState.stepAtOnce, opcode, NativeState.bare, NativeState.instruction,
          operands]
        split <;> rfl
      · split <;> exact through
  | retValue opcode value operands =>
      refine ⟨h, ?_, through⟩
      simp [NativeState.stepAtOnce, opcode, NativeState.bare, NativeState.instruction, operands,
        value, Flow.bare]
  | retVoid opcode value =>
      refine ⟨h, ?_, through⟩
      simp [NativeState.stepAtOnce, opcode, NativeState.bare, NativeState.instruction, value,
        Flow.bare]

end Stepping

section Running

variable {f : NativeFunction} {h₀ h : Heap} {s : NativeState} {fuel : Nat} {w : Int64}
  {journal : List HeldStore}

/-- What is held back stays so up to the return. -/
theorem NativeFunction.suffix_of_execute
    (done : f.execute h₀ fuel s = some (.ok (w, journal))) : s.journal <:+ journal := by
  induction fuel generalizing s with
  | zero => simp [NativeFunction.execute] at done
  | succ fuel ih =>
      simp only [NativeFunction.execute] at done
      split at done
      · cases done
      · split at done
        · cases done
        · rename_i next
          cases done
          exact (NativeState.move_of_step next).suffix
        · rename_i next
          exact (NativeState.move_of_step next).suffix.trans (ih done)

/-- A run that returns with stores that all fit returns the same word if they are made at once. The
induction is on the fuel, and the journal of each state is part of the last one. -/
theorem WrittenThrough.after_execute (through : WrittenThrough h₀ s.journal h)
    (done : f.execute h₀ fuel s = some (.ok (w, journal)))
    (fits : ∀ held ∈ journal, held.Fits h₀) :
    ∃ h', f.executeAtOnce fuel h s.bare = some (h', .ok w) ∧ WrittenThrough h₀ journal h' := by
  induction fuel generalizing s h with
  | zero => simp [NativeFunction.execute] at done
  | succ fuel ih =>
      simp only [NativeFunction.execute] at done
      have at_pc : s.bare.pc = s.pc := rfl
      split at done
      · cases done
      · rename_i step here
        split at done
        · cases done
        · rename_i w' t next
          cases done
          obtain ⟨h', direct, through'⟩ := through.after_step next fits
          refine ⟨h', ?_, through'⟩
          simp only [NativeFunction.executeAtOnce, at_pc, here, direct, Flow.bare]
        · rename_i t next
          have later := NativeFunction.suffix_of_execute done
          obtain ⟨h', direct, through'⟩ :=
            through.after_step next fun held member => fits held (later.subset member)
          obtain ⟨h'', rest, through''⟩ := ih through' done
          refine ⟨h'', ?_, through''⟩
          simp only [NativeFunction.executeAtOnce, at_pc, here, direct, Flow.bare]
          exact rest

end Running

/-! ## Calls -/

/-- Where a function is called with a word for each of its parameters, all that it holds back
fits. -/
theorem fits_of_execute {p : Program} {f : LinkedFunction} {native : NativeFunction} {h : Heap}
    {args : List Value} {words : List Int64} {fuel : Nat} {w : Int64} {journal : List HeldStore}
    (compiles : compileFunction p f = .ok native) (fit : h.ElementsFit)
    (enough : f.arity ≤ args.length) (converted : nativeArguments h f.params args = some words)
    (done : native.execute h fuel (.start words native.locals) = some (.ok (w, journal))) :
    ∀ held ∈ journal, held.Fits h := by
  obtain ⟨lane, steps, states, frame, more, compiled, inStep, plain⟩ :=
    run_of_execute compiles fit enough converted done
  let env : Environment := ⟨{}, none, p⟩
  have compiled' : Compiled env.program f lane steps states := compiled
  obtain ⟨_, h', _, _, journaled, _⟩ := inStep.run_returned compiled' plain
  exact journaled.fits

/-- A compiled function is called with a word for each of its parameters, on a heap that the heap's
operations have built and whose fields fit. If the call fails, the heap is the one before it. If
it returns, a machine that makes each store at once, and reads each element from the heap, returns
the same word and leaves the same heap. -/
theorem held_stores_are_dropped_or_direct {p : Program} {f : LinkedFunction}
    {native : NativeFunction} {h h' : Heap} {args : List Value} {words : List Int64} {fuel : Nat}
    {result : Except NativeError Int64} (compiles : compileFunction p f = .ok native)
    (built : h.Built) (fields : h.FieldsFit) (enough : f.arity ≤ args.length)
    (converted : nativeArguments h f.params args = some words)
    (done : native.invoke fuel words h = some (h', result)) :
    (∀ e, result = .error e → h' = h)
      ∧ ∀ w, result = .ok w → native.invokeAtOnce fuel words h = some (h', .ok w) := by
  have fit : h.ElementsFit := built.elementsFit fields
  constructor
  · rintro e rfl
    rcases ends_of_invoke compiles fit enough converted done with ⟨w, failed⟩ | ⟨_, _, _, same⟩
    · cases failed
    · exact same
  · rintro w rfl
    unfold NativeFunction.invoke at done
    cases executed : native.execute h fuel (.start words native.locals) with
    | none => simp [executed] at done
    | some ended =>
        rcases ends_of_execute compiles fit enough converted executed with
          ⟨e, rfl, _⟩ | ⟨v, journal, left, rfl, committed⟩
        · simp [executed] at done
        · simp only [executed, committed] at done
          cases done
          have fits := fits_of_execute compiles fit enough converted executed
          obtain ⟨after, direct, through⟩ := (WrittenThrough.nil h).after_execute
            (s := .start words native.locals) executed fits
          rw [through.committed] at committed
          cases committed
          exact direct

/-! A function writes seven to the front of its first array, and returns an element of its second
one. The two may be the same array. -/

namespace Aliases

def program : Program :=
  ⟨#[⟨.int .i32, [0, 0, 0, 0]⟩, ⟨.int .i32, [0, 0, 0, 7]⟩], #[], #[], .empty, .empty⟩

def function : LinkedFunction :=
  ⟨"Aliases", ⟨0, 0, 0, 0, 3,
    #[⟨.store, some 1⟩, ⟨.store, some 0⟩, ⟨.store, some 2⟩, ⟨.ldv, some 0⟩, ⟨.ldc, some 0⟩,
      ⟨.ldc, some 1⟩, ⟨.stelem, none⟩, ⟨.ldv, some 1⟩, ⟨.ldv, some 2⟩, ⟨.ldelem, none⟩,
      ⟨.ret, none⟩]⟩,
    [.int .i32, .array (.int .i32), .array (.int .i32)], .int .i32⟩

def native : NativeFunction :=
  ⟨"Aliases", 3, 3, .i32, true,
    #[.op ⟨.store, some 1⟩, .op ⟨.store, some 0⟩, .op ⟨.store, some 2⟩, .op ⟨.ldv, some 0⟩,
      .push 0, .push 7, .op ⟨.stelem, none⟩, .op ⟨.ldv, some 1⟩, .op ⟨.ldv, some 2⟩,
      .op ⟨.ldelem, none⟩, .op ⟨.ret, none⟩]⟩

def arguments (index : Int) : List Value := [.ofInt .i32 index, .ref ⟨1⟩, .ref ⟨1⟩]

def written : Heap := Quotient.heap.putElement ⟨1⟩ 0 (.ofInt .i32 7)

theorem store_is_seen_or_dropped :
    compileFunction program function = .ok native ∧ Quotient.heap.Built ∧ Quotient.heap.FieldsFit
      ∧ nativeArguments Quotient.heap function.params (arguments 0) = some [0, 1, 1]
      ∧ native.invoke 11 [0, 1, 1] Quotient.heap = some (written, .ok 7)
      ∧ native.invokeAtOnce 11 [0, 1, 1] Quotient.heap = some (written, .ok 7)
      ∧ nativeArguments Quotient.heap function.params (arguments 5) = some [5, 1, 1]
      ∧ (native.invoke 11 [5, 1, 1] Quotient.heap).map Prod.snd
        = some (.error (.fault (.indexOutOfBounds 5 2)))
      ∧ ∀ h' e, native.invoke 11 [5, 1, 1] Quotient.heap = some (h', .error e) →
          h' = Quotient.heap := by
  have compiles : compileFunction program function = .ok native := by cbv
  have built : Quotient.heap.Built := ⟨1000, true, _, rfl⟩
  have fields := Quotient.fieldsFit
  have enough : ∀ index, function.arity ≤ (arguments index).length := fun _ => Nat.le_refl 3
  have inside : nativeArguments Quotient.heap function.params (arguments 0) = some [0, 1, 1] := by
    cbv
  have outside : nativeArguments Quotient.heap function.params (arguments 5) = some [5, 1, 1] := by
    cbv
  have returned : native.invoke 11 [0, 1, 1] Quotient.heap = some (written, .ok 7) := by cbv
  refine ⟨compiles, built, fields, inside, returned, ?_, outside, by cbv, fun h' e failed => ?_⟩
  · exact (held_stores_are_dropped_or_direct compiles built fields (enough 0) inside
      returned).2 7 rfl
  · exact (held_stores_are_dropped_or_direct compiles built fields (enough 5) outside
      failed).1 e rfl

end Aliases

/-! Of three parameters, a number and two arrays, the arguments leave out the last. The number is
then taken for an array: if it is the number of an array of strings, the second of two stores
cannot be made, after the first has been. -/

namespace Misplaced

def function : LinkedFunction :=
  ⟨"Misplaced", ⟨0, 0, 0, 0, 2,
    #[⟨.store, some 0⟩, ⟨.store, some 1⟩, ⟨.ldv, some 0⟩, ⟨.ldc, some 0⟩, ⟨.ldc, some 1⟩,
      ⟨.stelem, none⟩, ⟨.ldv, some 1⟩, ⟨.ldc, some 0⟩, ⟨.ldc, some 1⟩, ⟨.stelem, none⟩,
      ⟨.ldc, some 1⟩, ⟨.ret, none⟩]⟩,
    [.int .i32, .array (.int .i32), .array (.int .i32)], .int .i32⟩

def native : NativeFunction :=
  ⟨"Misplaced", 3, 2, .i32, true,
    #[.op ⟨.store, some 0⟩, .op ⟨.store, some 1⟩, .op ⟨.ldv, some 0⟩, .push 0, .push 7,
      .op ⟨.stelem, none⟩, .op ⟨.ldv, some 1⟩, .push 0, .push 7, .op ⟨.stelem, none⟩, .push 7,
      .op ⟨.ret, none⟩]⟩

def heap : Heap :=
  (Heap.empty 1000 true).performAll
    [.allocateArray [] (.int .i32) 1, .allocateArray [] .string 1]

theorem half_of_the_stores_are_made :
    compileFunction Aliases.program function = .ok native ∧ heap.Built ∧ heap.FieldsFit
      ∧ nativeArguments heap function.params [.ofInt .i32 2, .ref ⟨1⟩] = some [2, 1]
      ∧ native.invoke 12 [2, 1] heap
        = some (heap.putElement ⟨1⟩ 0 (.ofInt .i32 7),
          .error (.fault (.typeMismatch "STELEM" "String; element in native code")))
      ∧ heap.putElement ⟨1⟩ 0 (.ofInt .i32 7) ≠ heap := by
  refine ⟨by cbv, ⟨1000, true, _, rfl⟩, ?_, by cbv, by cbv, by decide⟩
  have typed : heap.Typed :=
    ((Heap.Typed.empty 1000 true).allocateArray [] (.int .i32) 1).allocateArray [] .string 1
  intro r o d live element
  exact (typed.elementsFit r o d live element).2

end Misplaced

end StackMachine
