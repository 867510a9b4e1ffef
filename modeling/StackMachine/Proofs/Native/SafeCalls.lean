import Mathlib
import StackMachine.Proofs.Heap.Operations
import StackMachine.Proofs.Native.Compilability

/-! # Compiled code does not go wrong

Where the kinds are settled, a native state always has the operands, the locals and the arrays
that its next step asks for. What is left to fail is a division by zero or an index outside of an
array, so every call that ends returns a word or fails in one of these two ways.
-/

namespace StackMachine

inductive NativeError.Ordinary : NativeError → Prop where
  | divisionByZero : Ordinary .divisionByZero
  | indexOutOfBounds (index : Int) (length : Nat) :
      Ordinary (.fault (.indexOutOfBounds index length))

/-! ## One step -/

theorem BinaryOp.ordinary_onWords {lane : Lane} {op : BinaryOp} {a b : Int64} {e : NativeError}
    (failed : op.onWords lane a b = .error e) : e.Ordinary := by
  cases op with
  | div | mod =>
      simp only [BinaryOp.onWords] at failed
      split at failed
      · cases failed
        exact .divisionByZero
      · cases failed
  | _ => cases failed

section Arrays

variable {h : Heap} {lane : Lane} {r : HeapRef} {index : Int64} {e : NativeError}

/-- A load from an array of integers fails only if the array does not have the index. -/
theorem Heap.ordinary_loadWord (fit : h.ElementsFit) (integers : h.HoldsIntegers lane r)
    (failed : h.loadWord r index = .error e) : e.Ordinary := by
  obtain ⟨o, live, isArray, element⟩ := integers
  by_cases bounds : 0 ≤ index.toInt ∧ index.toInt < (o.fields.size : Int)
  · obtain ⟨n, _, _, loaded⟩ := Heap.loadWord_of_bounds fit live element bounds
    rw [loaded] at failed
    cases failed
  · rw [Heap.loadWord_of_outside live isArray bounds] at failed
    cases failed
    exact .indexOutOfBounds _ _

theorem NativeState.ordinary_load {s : NativeState} (fit : h.ElementsFit)
    (integers : h.HoldsIntegers lane r) (failed : s.load h r index = .error e) : e.Ordinary := by
  unfold NativeState.load at failed
  split at failed
  · cases failed
  · exact Heap.ordinary_loadWord fit integers failed

theorem NativeState.ordinary_store {s : NativeState} {word : Int64}
    (integers : h.HoldsIntegers lane r) (failed : s.store h ⟨r, index, word⟩ = .error e) :
    e.Ordinary := by
  obtain ⟨o, live, isArray, _⟩ := integers
  simp only [NativeState.store, Heap.arrayLength, Heap.array_of_holds live isArray] at failed
  split at failed
  · cases failed
  · cases failed
    exact .indexOutOfBounds _ _

end Arrays

section Instruction

variable {f : LinkedFunction} {lane : Lane} {h : Heap} {n : Nat} {kinds after : KindState n}
  {s : NativeState} {frame : Frame} {i : Instruction} {e : NativeError}

theorem Mirrors.ordinary_ldelem (mirrors : Mirrors lane h kinds s frame) (fit : h.ElementsFit)
    (opcode : i.opcode = .ldelem) (goes : kinds.after f i = .ok after)
    (failed : s.instruction lane f.returnsValue h i = .error e) : e.Ordinary := by
  have stack := mirrors.stack
  generalize known : kinds.stack = ks at stack
  generalize words : s.stack = ws at stack
  generalize frame.operands = vs at stack
  rcases stack with _ | ⟨index, _ | ⟨array, rest⟩⟩
  · simp [KindState.after, opcode, known] at goes
  · simp [KindState.after, opcode, known] at goes
  · simp only [KindState.after, opcode, known] at goes
    split at goes
    · rename_i both
      obtain ⟨rfl, rfl⟩ := both
      obtain ⟨r, _, same, integers⟩ := array.of_array
      simp only [NativeState.instruction, opcode, words, same] at failed
      split at failed
      · cases failed
      · rename_i failure
        cases failed
        exact NativeState.ordinary_load fit integers failure
    · cases goes

theorem Mirrors.ordinary_stelem (mirrors : Mirrors lane h kinds s frame)
    (opcode : i.opcode = .stelem) (goes : kinds.after f i = .ok after)
    (failed : s.instruction lane f.returnsValue h i = .error e) : e.Ordinary := by
  have stack := mirrors.stack
  generalize known : kinds.stack = ks at stack
  generalize words : s.stack = ws at stack
  generalize frame.operands = vs at stack
  rcases stack with _ | ⟨value, _ | ⟨index, _ | ⟨array, rest⟩⟩⟩
  · simp [KindState.after, opcode, known] at goes
  · simp [KindState.after, opcode, known] at goes
  · simp [KindState.after, opcode, known] at goes
  · simp only [KindState.after, opcode, known] at goes
    split at goes
    · rename_i all
      obtain ⟨rfl, rfl, rfl⟩ := all
      obtain ⟨r, _, same, integers⟩ := array.of_array
      simp only [NativeState.instruction, opcode, words, same] at failed
      split at failed
      · cases failed
      · rename_i failure
        cases failed
        exact NativeState.ordinary_store integers failure
    · cases goes

/-- An instruction through which the kinds go well finds its operands and locals. -/
theorem Mirrors.ordinary_instruction (mirrors : Mirrors lane h kinds s frame)
    (fit : h.ElementsFit) (goes : kinds.after f i = .ok after) (other : i.opcode ≠ .ldc)
    (failed : s.instruction lane f.returnsValue h i = .error e) : e.Ordinary := by
  have stack := mirrors.stack
  generalize known : kinds.stack = ks at stack
  generalize words : s.stack = ws at stack
  generalize frame.operands = vs at stack
  cases opcode : i.opcode with
  | ldc => exact absurd opcode other
  | call | newarr | print | halt =>
      simp only [KindState.after, opcode] at goes
      cases goes
  | jmp => simp [NativeState.instruction, opcode] at failed
  | ldelem => exact mirrors.ordinary_ldelem fit opcode goes failed
  | stelem => exact mirrors.ordinary_stelem opcode goes failed
  | ldv =>
      simp only [KindState.after, opcode] at goes
      split at goes
      · rename_i k joined
        have here : kinds.locals[i.arg]? = some (some k) := Option.join_eq_some_iff.mp joined
        obtain ⟨w, _, word, _, _⟩ := mirrors.locals i.arg k here
        simp [NativeState.instruction, opcode, word] at failed
      · cases goes
  | store =>
      rcases stack with _ | ⟨head, tail⟩
      · simp [KindState.after, opcode, known] at goes
      · have bound : i.arg < s.locals.size := by
          rw [mirrors.words]
          simp only [KindState.after, opcode, known] at goes
          split at goes
          · assumption
          · cases goes
        simp [NativeState.instruction, opcode, words, bound] at failed
  | dup | unary | jz | jnz =>
      rcases stack with _ | ⟨head, tail⟩
      · simp [KindState.after, opcode, known] at goes
      · simp [NativeState.instruction, opcode, words] at failed
  | swap =>
      rcases stack with _ | ⟨upper, _ | ⟨lower, rest⟩⟩
      · simp [KindState.after, opcode, known] at goes
      · simp [KindState.after, opcode, known] at goes
      · simp [NativeState.instruction, opcode, words] at failed
  | binary op =>
      rcases stack with _ | ⟨upper, _ | ⟨lower, rest⟩⟩
      · simp [KindState.after, opcode, known] at goes
      · simp [KindState.after, opcode, known] at goes
      · simp only [NativeState.instruction, opcode, words] at failed
        split at failed
        · cases failed
        · rename_i failure
          cases failed
          exact BinaryOp.ordinary_onWords failure
  | ret =>
      cases returns : f.returnsValue with
      | false => simp [NativeState.instruction, opcode, returns] at failed
      | true =>
          rcases stack with _ | ⟨head, tail⟩
          · simp [KindState.after, opcode, known, returns] at goes
          · simp [NativeState.instruction, opcode, words, returns] at failed

end Instruction

/-! ## Whole runs -/

section Runs

variable {env : Environment} {f : LinkedFunction} {lane : Lane} {steps : List Step}
  {states : Array (Option (KindState f.locals))} {h₀ h : Heap} {s : NativeState} {frame : Frame}
  {e : NativeError}

/-- In step with the interpreter, native code is inside of its code, and its next step fails in an
ordinary way if it fails. -/
theorem InStep.ordinary_next (compiled : Compiled env.program f lane steps states)
    (fit : h₀.ElementsFit) (inStep : InStep f lane states h₀ s h frame)
    (failed : (GappedCode.full steps).next (f.context lane h₀) s = .error e) : e.Ordinary := by
  obtain ⟨kinds, at_pc, _⟩ := inStep.mirrors
  have bound : s.pc < steps.length := by
    have inside := (Array.getElem?_eq_some_iff.mp at_pc).1
    have lengths := length_lowerAll compiled.lowered
    rw [compiled.size] at inside
    rw [lengths]
    exact inside
  have here : steps[s.pc]? = some steps[s.pc] := List.getElem?_eq_getElem bound
  generalize steps[s.pc] = step at here
  have at_place : (GappedCode.full steps)[s.pc]? = some (some step) := by
    simp [GappedCode.full, here]
  rw [GappedCode.next_of_step at_place] at failed
  obtain ⟨i, kinds, after, about⟩ := inStep.aboutTo compiled here
  cases step with
  | push w => cases failed
  | op i' =>
      have other := (lowerInstruction_op about.lowered).2
      obtain ⟨rfl, goes⟩ := about.op
      exact about.mirrors.ordinary_instruction fit goes other failed

/-- A run that fails fails in an ordinary way. The induction is on the fuel; each step keeps
native code in step with the interpreter. -/
theorem InStep.ordinary_run (compiled : Compiled env.program f lane steps states)
    (fit : h₀.ElementsFit) (inStep : InStep f lane states h₀ s h frame) {fuel : Nat}
    (run : (GappedCode.full steps).run (f.context lane h₀) fuel s = some (.error e)) :
    e.Ordinary := by
  induction fuel generalizing s h frame with
  | zero => simp [GappedCode.run] at run
  | succ fuel ih =>
      cases next : (GappedCode.full steps).next (f.context lane h₀) s with
      | error e' =>
          rw [GappedCode.run_of_error fuel next] at run
          cases run
          exact inStep.ordinary_next compiled fit next
      | ok flow =>
          cases flow with
          | returned w t => simp [GappedCode.run_of_returned fuel next] at run
          | next t =>
              rw [GappedCode.run_of_next fuel next] at run
              obtain ⟨h', frame', inStep', _⟩ := inStep.follows compiled next
              exact ih inStep' run

end Runs

/-! ## Calls -/

/-- Arguments beyond the parameters are not looked at. -/
theorem nativeArguments_take (h : Heap) (params : List Descriptor) (args : List Value) :
    nativeArguments h params (args.take params.length) = nativeArguments h params args := by
  unfold nativeArguments
  congr 1
  induction params generalizing args with
  | nil => simp
  | cons d params ih =>
      cases args with
      | nil => rfl
      | cons v args => simp [ih]

section Calls

variable {p : Program} {f : LinkedFunction} {native : NativeFunction} {h : Heap}
  {args : List Value} {words : List Int64} {fuel : Nat}

/-- Compiled code that ends has been made of steps that, from a state in step with the interpreter,
end so as well. -/
theorem run_of_execute (compiles : compileFunction p f = .ok native) (fit : h.ElementsFit)
    (enough : f.arity ≤ args.length) (converted : nativeArguments h f.params args = some words)
    {ended : NativeEnd} (done : native.execute h fuel (.start words native.locals) = some ended) :
    ∃ lane steps states frame more, Compiled p f lane steps states
      ∧ InStep f lane states h (.start words f.locals) h frame
      ∧ (GappedCode.full steps).run (f.context lane h) more (.start words f.locals)
        = some ended := by
  obtain ⟨lane, steps, states, stack, assumed, compiled, parameters, at_start, covers, rfl⟩ :=
    compiled_of_compileFunction compiles
  rw [← nativeArguments_take] at converted
  have arity : (args.take f.params.length).reverse.length = f.arity := by
    have same : f.params.length = f.arity := rfl
    simp only [List.length_reverse, List.length_take]
    omega
  rw [← List.reverse_reverse (args.take f.params.length)] at converted
  have inStep := inStep_start compiled parameters at_start covers fit arity converted
  rw [NativeFunction.execute_eq_run] at done
  obtain ⟨more, plain⟩ := (condenses_optimize (f.context lane h) steps).ended rfl done
  exact ⟨lane, steps, states, _, more, compiled, inStep, plain⟩

/-- How the execution of a compiled function ends. -/
theorem ends_of_execute (compiles : compileFunction p f = .ok native) (fit : h.ElementsFit)
    (enough : f.arity ≤ args.length) (converted : nativeArguments h f.params args = some words)
    {ended : NativeEnd} (done : native.execute h fuel (.start words native.locals) = some ended) :
    (∃ e, ended = .error e ∧ e.Ordinary)
      ∨ ∃ w journal h', ended = .ok (w, journal)
        ∧ NativeFunction.commit h journal.reverse = (h', .ok ()) := by
  obtain ⟨lane, steps, states, frame, more, compiled, inStep, plain⟩ :=
    run_of_execute compiles fit enough converted done
  let env : Environment := ⟨{}, none, p⟩
  have compiled' : Compiled env.program f lane steps states := compiled
  cases ended with
  | error e => exact .inl ⟨e, rfl, inStep.ordinary_run compiled' fit plain⟩
  | ok result =>
      obtain ⟨w, journal⟩ := result
      obtain ⟨_, h', _, _, journaled, _⟩ := inStep.run_returned compiled' plain
      exact .inr ⟨w, journal, h', rfl, journaled.committed⟩

/-- A call that ends returns a word, or fails in an ordinary way and leaves the heap as it was. -/
theorem ends_of_invoke (compiles : compileFunction p f = .ok native) (fit : h.ElementsFit)
    (enough : f.arity ≤ args.length) (converted : nativeArguments h f.params args = some words)
    {h' : Heap} {result : Except NativeError Int64}
    (done : native.invoke fuel words h = some (h', result)) :
    (∃ w, result = .ok w) ∨ ∃ e, result = .error e ∧ e.Ordinary ∧ h' = h := by
  unfold NativeFunction.invoke at done
  cases executed : native.execute h fuel (.start words native.locals) with
  | none => simp [executed] at done
  | some ended =>
      rcases ends_of_execute compiles fit enough converted executed with
        ⟨e, rfl, ordinary⟩ | ⟨w, journal, left, rfl, committed⟩
      · simp only [executed] at done
        cases done
        exact .inr ⟨e, rfl, ordinary, rfl⟩
      · simp only [executed, committed] at done
        cases done
        exact .inl ⟨w, rfl⟩

end Calls

/-- A function that can be compiled is compiled. With a word for each of its parameters, a call
that ends returns a word, or divides by zero, or names an index that an array does not have; the
heap then is as it was. The stores of a call that returns can all be made. -/
theorem compiled_code_does_not_go_wrong (p : Program) (f : LinkedFunction)
    (decodes : f.Decodes p) (able : (Compiler.bundled.canCompile p f).1 = true) :
    ∃ native, compileFunction p f = .ok native
      ∧ (Compiler.bundled.compile p f).1 = .ok native.toCode
      ∧ ∀ h : Heap, h.Built → h.FieldsFit → ∀ (args : List Value) (words : List Int64),
          f.arity ≤ args.length → nativeArguments h f.params args = some words → ∀ fuel : Nat,
            (∀ h' result, native.invoke fuel words h = some (h', result) →
              (∃ w, result = .ok w)
                ∨ h' = h ∧ (result = .error .divisionByZero
                  ∨ ∃ index length, result = .error (.fault (.indexOutOfBounds index length))))
            ∧ ∀ w journal,
                native.execute h fuel (.start words native.locals) = some (.ok (w, journal)) →
                  ∃ h', NativeFunction.commit h journal.reverse = (h', .ok ()) := by
  obtain ⟨lane, analyzed⟩ : ∃ lane, analyze p f = .ok lane := by
    simp only [Compiler.bundled] at able
    split at able
    · exact ⟨_, by assumption⟩
    · cases able
  obtain ⟨native, compiles⟩ := compileFunction_of_analyze decodes analyzed
  refine ⟨native, compiles, by simp only [Compiler.bundled, compiles], ?_⟩
  intro h built fields args words enough converted fuel
  have fit : h.ElementsFit := built.elementsFit fields
  constructor
  · intro h' result done
    rcases ends_of_invoke compiles fit enough converted done with
      returned | ⟨e, rfl, ordinary, same⟩
    · exact .inl returned
    · cases ordinary with
      | divisionByZero => exact .inr ⟨same, .inl rfl⟩
      | indexOutOfBounds index length => exact .inr ⟨same, .inr ⟨index, length, rfl⟩⟩
  · intro w journal executed
    rcases ends_of_execute compiles fit enough converted executed with
      ⟨e, failed, _⟩ | ⟨_, _, h', returned, committed⟩
    · cases failed
    · cases returned
      exact ⟨h', committed⟩

/-! Seven is divided by the sum of a number and an array element. The instructions after the
return cannot be reached, and the compiled code does not have them. -/

namespace Quotient

def program : Program := ⟨#[⟨.int .i32, [0, 0, 0, 7]⟩], #[], #[], .empty, .empty⟩

def function : LinkedFunction :=
  ⟨"Quotient", ⟨0, 0, 0, 0, 0,
    #[⟨.ldelem, none⟩, ⟨.binary .add, none⟩, ⟨.ldc, some 0⟩, ⟨.swap, none⟩, ⟨.binary .div, none⟩,
      ⟨.ret, none⟩, ⟨.print, none⟩, ⟨.halt, none⟩]⟩,
    [.int .i32, .array (.int .i32), .int .i32], .int .i32⟩

def native : NativeFunction :=
  ⟨"Quotient", 3, 0, .i32, true,
    #[.op ⟨.ldelem, none⟩, .op ⟨.binary .add, none⟩, .push 7, .op ⟨.swap, none⟩,
      .op ⟨.binary .div, none⟩, .op ⟨.ret, none⟩]⟩

def heap : Heap := (Heap.empty 1000 true).performAll [.allocateArray [] (.int .i32) 2]

def arguments (number index : Int) : List Value :=
  [.ofInt .i32 number, .ref ⟨1⟩, .ofInt .i32 index]

theorem decodes : function.Decodes program := by
  intro i member opcode
  simp only [function, LinkedFunction.code, List.mem_cons, List.not_mem_nil, or_false] at member
  rcases member with rfl | rfl | rfl | rfl | rfl | rfl | rfl | rfl
  case inr.inr.inl => exact ⟨.ofInt .i32 7, by cbv⟩
  all_goals cases opcode

theorem fieldsFit : heap.FieldsFit := by
  have typed : heap.Typed := (Heap.Typed.empty 1000 true).allocateArray [] (.int .i32) 2
  intro r o d live element
  exact (typed.elementsFit r o d live element).2

theorem fails_in_two_ways :
    (Compiler.bundled.canCompile program function).1 = true
      ∧ compileFunction program function = .ok native
      ∧ nativeArguments heap function.params (arguments 0 1) = some [0, 1, 1]
      ∧ (native.invoke 6 [0, 1, 1] heap).map Prod.snd = some (.error .divisionByZero)
      ∧ (native.invoke 6 [2, 1, 2] heap).map Prod.snd
        = some (.error (.fault (.indexOutOfBounds 2 2)))
      ∧ (native.invoke 6 [2, 1, 1] heap).map Prod.snd = some (.ok 3)
      ∧ ∀ fuel h' result, native.invoke fuel [0, 1, 1] heap = some (h', result) →
          (∃ w, result = .ok w)
            ∨ h' = heap ∧ (result = .error .divisionByZero
              ∨ ∃ index length, result = .error (.fault (.indexOutOfBounds index length))) := by
  have able : (Compiler.bundled.canCompile program function).1 = true := by cbv
  have compiled : compileFunction program function = .ok native := by cbv
  have converted : nativeArguments heap function.params (arguments 0 1) = some [0, 1, 1] := by cbv
  have built : heap.Built := ⟨1000, true, _, rfl⟩
  have enough : function.arity ≤ (arguments 0 1).length := Nat.le_refl 3
  refine ⟨able, compiled, converted, by cbv, by cbv, by cbv, fun fuel => ?_⟩
  obtain ⟨code, compiles, _, calls⟩ :=
    compiled_code_does_not_go_wrong program function decodes able
  rw [compiled] at compiles
  cases compiles
  exact (calls heap built fieldsFit _ _ enough converted fuel).1

end Quotient

/-! Only as many words are made as there are arguments. A function that takes a number, drops it
and returns seven does not find a number if none is given. -/

namespace Underfed

def function : LinkedFunction :=
  ⟨"Seven", ⟨0, 0, 0, 0, 1, #[⟨.store, some 0⟩, ⟨.ldc, some 0⟩, ⟨.ret, none⟩]⟩,
    [.int .i32], .int .i32⟩

def native : NativeFunction :=
  ⟨"Seven", 1, 1, .i32, true, #[.op ⟨.store, some 0⟩, .push 7, .op ⟨.ret, none⟩]⟩

def heap : Heap := Heap.empty 1000 true

theorem underflows_without_arguments :
    function.Decodes Quotient.program
      ∧ (Compiler.bundled.canCompile Quotient.program function).1 = true
      ∧ compileFunction Quotient.program function = .ok native
      ∧ heap.Built ∧ heap.FieldsFit
      ∧ nativeArguments heap function.params [] = some []
      ∧ native.invoke 1 [] heap = some (heap, .error .stackUnderflow) := by
  refine ⟨?_, by cbv, by cbv, ⟨1000, true, [], rfl⟩, ?_, rfl, by cbv⟩
  · intro i member opcode
    simp only [function, LinkedFunction.code, List.mem_cons, List.not_mem_nil, or_false] at member
    rcases member with rfl | rfl | rfl
    case inr.inl => exact ⟨.ofInt .i32 7, by cbv⟩
    all_goals cases opcode
  · intro r o d live element
    exact ((Heap.Typed.empty 1000 true).elementsFit r o d live element).2

end Underfed

end StackMachine
