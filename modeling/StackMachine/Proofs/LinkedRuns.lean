import Mathlib
import StackMachine.Proofs.LoadedMachines
import StackMachine.Proofs.Relocation

/-! # A program runs as it does alone

A program that is linked after a library has the functions that it has alone, with shifted
indices. Its operands refer to what they refer to alone, so each step is the same but for the
functions that the frames name, and these do not show: neither in the heap, the console and the
result, nor in a backtrace.
-/

namespace StackMachine

/-! ## Shifted functions in frames -/

def Frame.moved (r : Relocation) (frame : Frame) : Frame :=
  { frame with function := r.linked frame.function }

/-- The state with the functions of its frames shifted, and without native code and log. -/
def State.moved (r : Relocation) (s : State) : State :=
  { s.bare with frames := s.frames.map (Frame.moved r) }

def StepResult.moved (r : Relocation) : StepResult → StepResult
  | .next s => .next (s.moved r)
  | .halted code s => .halted code (s.moved r)
  | .failed fault s => .failed fault (s.moved r)
  | .outOfFuel => .outOfFuel

def Execution.moved (r : Relocation) : Execution → Execution
  | .ended outcome s => .ended outcome (s.moved r)
  | .failed fault s => .failed fault (s.moved r)

/-- What follows a result that is mapped, where each continuation maps as well. -/
theorem map_bind {α β α' β' : Type} {x : Except Fault α} {f : α → α'} {g : β → β'}
    {k : α → Except Fault β} {k' : α' → Except Fault β'} (each : ∀ a, k' (f a) = (k a).map g) :
    x.map f >>= k' = (x >>= k).map g := by
  cases x with
  | error fault => rfl
  | ok a => exact each a

theorem bind_map {α β β' : Type} {x : Except Fault α} {g : β → β'}
    {k : α → Except Fault β} {k' : α → Except Fault β'} (each : ∀ a, k' a = (k a).map g) :
    x >>= k' = (x >>= k).map g := by
  cases x with
  | error fault => rfl
  | ok a => exact each a

theorem Relocation.size_code (r : Relocation) (f : LinkedFunction) :
    (r.linked f).code.size = f.code.size := Array.size_map

namespace Frame

variable {r : Relocation} {frame : Frame} {operation : String}

theorem fetch?_moved : (frame.moved r).fetch? = frame.fetch?.map r.instruction :=
  Array.getElem?_map

theorem pop_moved :
    (frame.moved r).pop operation = (frame.pop operation).map fun x => (x.1, x.2.moved r) := by
  obtain ⟨function, pc, locals, operands⟩ := frame
  cases operands <;> rfl

theorem pop2_moved :
    (frame.moved r).pop2 operation
      = (frame.pop2 operation).map fun x => (x.1, x.2.1, x.2.2.moved r) := by
  obtain ⟨function, pc, locals, operands⟩ := frame
  rcases operands with _ | ⟨b, _ | ⟨a, rest⟩⟩ <;> rfl

theorem pop3_moved :
    (frame.moved r).pop3 operation
      = (frame.pop3 operation).map fun x => (x.1, x.2.1, x.2.2.1, x.2.2.2.moved r) := by
  obtain ⟨function, pc, locals, operands⟩ := frame
  rcases operands with _ | ⟨c, _ | ⟨b, _ | ⟨a, rest⟩⟩⟩ <;> rfl

theorem storeLocal_moved {index : Nat} {v : Value} :
    (frame.moved r).storeLocal index v = (frame.storeLocal index v).map (moved r) := by
  unfold storeLocal
  rw [show (frame.moved r).locals = frame.locals from rfl]
  by_cases inside : index < frame.locals.size
  · rw [if_pos inside, if_pos inside]
    rfl
  · rw [if_neg inside, if_neg inside]
    rfl

theorem jump_moved {target : Nat} :
    (frame.moved r).jump target = (frame.jump target).map (moved r) := by
  unfold jump
  rw [show (frame.moved r).function.code.size = frame.function.code.size from r.size_code _]
  by_cases inside : target < frame.function.code.size
  · rw [if_pos inside, if_pos inside]
    rfl
  · rw [if_neg inside, if_neg inside]
    rfl

theorem branch_moved {onFalsy : Bool} {target : Nat} :
    (frame.moved r).branch operation onFalsy target
      = (frame.branch operation onFalsy target).map (moved r) := by
  unfold branch
  rw [pop_moved]
  refine map_bind fun popped => ?_
  dsimp only
  cases popped.1.falsy? with
  | none => rfl
  | some falsy =>
      by_cases taken : falsy = onFalsy
      · simp only [if_pos taken]
        exact jump_moved
      · simp only [if_neg taken]
        rfl

theorem returnValue_moved : (frame.moved r).returnValue = frame.returnValue := by
  obtain ⟨function, pc, locals, operands⟩ := frame
  cases operands <;> rfl

end Frame

namespace CallStack

variable (r : Relocation) (stack : CallStack)

theorem roots_moved : CallStack.roots (stack.map (Frame.moved r)) = stack.roots := by
  rw [CallStack.roots, ← List.map_reverse, List.flatMap_map]
  rfl

theorem backtrace_moved : CallStack.backtrace (stack.map (Frame.moved r)) = stack.backtrace := by
  rw [CallStack.backtrace, ← List.map_reverse, List.map_map]
  rfl

theorem receive_moved (value : Option Value) :
    CallStack.receive (stack.map (Frame.moved r)) value
      = (stack.receive value).map (Frame.moved r) := by
  cases stack with
  | nil => rfl
  | cons caller callers => cases value <;> rfl

end CallStack

namespace Heap

variable {h : Heap} {stack stack' : CallStack}

theorem makeRoom_congr (same : stack.roots = stack'.roots) (requested : Nat) :
    h.makeRoom stack requested = h.makeRoom stack' requested := by
  have mark : ∀ h : Heap, h.mark stack = h.mark stack' := by
    intro h
    rw [Heap.mark, Heap.mark, same]
  unfold makeRoom collect collectFull
  dsimp only
  rw [mark h, mark]

/-- Of the frames, an allocation reads the roots only. -/
theorem allocateArray_congr (same : stack.roots = stack'.roots) (element : Descriptor)
    (length : Nat) :
    h.allocateArray stack element length = h.allocateArray stack' element length := by
  simp only [allocateArray, place, makeRoom_congr same]

end Heap

/-! ## Instructions -/

namespace State

variable {r : Relocation} {s : State} {frame : Frame} {callers : CallStack}

theorem continueWith_moved {result : Except Fault Frame} :
    (s.moved r).continueWith (frame.moved r) (callers.map (Frame.moved r))
        (result.map (Frame.moved r))
      = (s.continueWith frame callers result).moved r := by
  cases result <;> rfl

theorem storeElement_moved :
    (s.moved r).storeElement (frame.moved r) (callers.map (Frame.moved r))
      = (s.storeElement frame callers).moved r := by
  have request : storeRequest s.heap (frame.moved r)
      = (storeRequest s.heap frame).map fun x => (x.1, x.2.1, x.2.2.1, x.2.2.2.moved r) := by
    unfold storeRequest
    rw [Frame.pop3_moved]
    exact map_bind fun popped => bind_map fun array => bind_map fun slot => rfl
  unfold storeElement
  rw [show (s.moved r).heap = s.heap from rfl, request]
  cases storeRequest s.heap frame <;> rfl

theorem loadOperands_moved {h : Heap} :
    loadOperands h (frame.moved r) = (loadOperands h frame).map (Frame.moved r) := by
  unfold loadOperands
  rw [Frame.pop2_moved]
  exact map_bind fun popped => bind_map fun array => bind_map fun v => rfl

theorem ret_moved :
    (s.moved r).ret (frame.moved r) (callers.map (Frame.moved r))
      = (s.ret frame callers).moved r := by
  unfold ret
  rw [Frame.returnValue_moved]
  cases frame.returnValue with
  | error fault => rfl
  | ok value =>
      dsimp only
      rw [CallStack.receive_moved]
      rfl

theorem print_moved :
    (s.moved r).print (frame.moved r) (callers.map (Frame.moved r))
      = (s.print frame callers).moved r := by
  unfold print
  rw [Frame.pop_moved, show (s.moved r).console = s.console from rfl]
  cases frame.pop "PRINT" with
  | error fault => rfl
  | ok popped =>
      simp only [Except.map]
      cases s.console.writeFault? popped.1.text <;> rfl

end State

theorem Execution.observation_moved (r : Relocation) (e : Execution) :
    (e.moved r).observation = e.observation := by
  cases e with
  | ended outcome s => rfl
  | failed fault s =>
      simp only [Execution.observation, Execution.conclude, Execution.moved, State.moved,
        CallStack.backtrace_moved]
      rfl

theorem Program.entryPoint_name {p : Program} {f : LinkedFunction} (consistent : p.Consistent)
    (found : p.entryPoint = .ok f) : f.name = entryName := by
  unfold entryPoint at found
  cases named : p.function? entryName with
  | none => simp [named] at found
  | some g =>
      have names := consistent.wellRegistered.functionNames
      simp only [named] at found
      split at found
      · cases found
        exact ((names.named entryName f).mp named).2
      · cases found

/-! ## A program that was placed -/

/-- The first program stands in the second, where its operands find what they found. -/
structure Guest (r : Relocation) (p q : Program) : Prop where
  portable : p.Portable
  small : r.Small
  places : r.Places p q

namespace Guest

variable {r : Relocation} {p q : Program} {f : LinkedFunction} {i : Instruction}

/-! ### Operands -/

section Operands

variable (guest : Guest r p q) (registered : f ∈ p.functions) (member : i ∈ f.code.toList)
include guest registered member

theorem checked : p.operandProblem? f i = none :=
  Program.operandProblem_of_accepted
    ((Program.callClosed_of_verified guest.portable.verified).accepted f registered) member

theorem arg_of_constant (refers : i.opcode.refersToConstant = true) :
    (r.instruction i).arg = r.constants.toNat + i.arg :=
  Relocation.arg_of_constant guest.small (guest.portable.code f registered i member) refers

theorem ldc (opcode : i.opcode = .ldc) :
    ∃ v, p.constantValue i.arg = .ok v ∧ q.constantValue (r.instruction i).arg = .ok v := by
  have checked := guest.checked registered member
  simp only [Program.operandProblem?, opcode] at checked
  rw [guest.arg_of_constant registered member (by rw [opcode]; rfl)]
  cases found : p.constantValue i.arg with
  | error fault => simp [found] at checked
  | ok v => exact ⟨v, rfl, guest.places.constants.constantValue found⟩

theorem newarr (opcode : i.opcode = .newarr) :
    ∃ d, p.descriptor i.arg = .ok d ∧ q.descriptor (r.instruction i).arg = .ok d := by
  have checked := guest.checked registered member
  simp only [Program.operandProblem?, opcode] at checked
  rw [guest.arg_of_constant registered member (by rw [opcode]; rfl)]
  cases found : p.descriptor i.arg with
  | error fault => simp [found] at checked
  | ok d => exact ⟨d, rfl, guest.places.constants.descriptor found⟩

/-- A constant with the tag of an integer has a value, as its width is right. -/
theorem halt (opcode : i.opcode = .halt) :
    ∃ v, p.constantValue i.arg = .ok v ∧ q.constantValue (r.instruction i).arg = .ok v := by
  have checked := guest.checked registered member
  simp only [Program.operandProblem?, opcode] at checked
  rw [guest.arg_of_constant registered member (by rw [opcode]; rfl)]
  cases found : p.constant i.arg with
  | error fault => simp [found] at checked
  | ok c =>
      have wide : c.widthError? = none := by
        unfold Program.constant at found
        cases at_index : p.constants[i.arg]? with
        | none =>
            rw [at_index] at found
            cases found
        | some c' =>
            rw [at_index] at found
            cases found
            exact guest.portable.widths c (Array.mem_of_getElem? at_index)
      have integer : c.tag.isInteger = true := by
        by_contra other
        simp [found, other] at checked
      have valued : ∃ v, p.constantValue i.arg = .ok v := by
        unfold ConstantTag.isInteger at integer
        split at integer
        · rename_i kind tag
          refine ⟨.ofInt kind (Bytes.toNat c.payload), bind_eq_ok.mpr ⟨c, found, ?_⟩⟩
          unfold Constant.value
          rw [wide, tag]
        · cases integer
      obtain ⟨v, value⟩ := valued
      exact ⟨v, value, guest.places.constants.constantValue value⟩

theorem call (opcode : i.opcode = .call) :
    ∃ g, p.function i.arg = .ok g ∧ q.function (r.instruction i).arg = .ok (r.linked g) := by
  have checked := guest.checked registered member
  simp only [Program.operandProblem?, opcode] at checked
  rw [Relocation.arg_of_call guest.small (guest.portable.code f registered i member) opcode]
  cases found : p.function i.arg with
  | error fault => simp [found] at checked
  | ok g => exact ⟨g, rfl, guest.places.function found⟩

end Operands

/-! ### Steps -/

section Steps

variable {config : Config} {fuel : Nat} {s : State} {frame : Frame} {callers : CallStack}

theorem frame_execute (guest : Guest r p q) (registered : f ∈ p.functions)
    (member : i ∈ f.code.toList) (frame : Frame) :
    (frame.moved r).execute q (r.instruction i) = (frame.execute p i).map (Frame.moved r) := by
  by_cases call : i.opcode = .call
  · unfold Frame.execute
    rw [Relocation.opcode_instruction, call]
    rfl
  by_cases refers : i.opcode.refersToConstant = true
  · unfold Frame.execute
    rw [Relocation.opcode_instruction]
    cases opcode : i.opcode with
    | ldc =>
        obtain ⟨v, alone, placed⟩ := guest.ldc registered member opcode
        simp only [alone, placed]
        rfl
    | newarr => rfl
    | halt => rfl
    | _ => simp [opcode, Opcode.refersToConstant] at refers
  rw [Relocation.instruction_of_other (by simpa using refers) call]
  unfold Frame.execute
  cases opcode : i.opcode with
  | ldc => simp [opcode, Opcode.refersToConstant] at refers
  | store =>
      dsimp only
      rw [Frame.pop_moved]
      exact map_bind fun popped => Frame.storeLocal_moved
  | ldv => exact bind_map fun v => rfl
  | dup => exact bind_map fun v => rfl
  | swap =>
      dsimp only
      rw [Frame.pop2_moved]
      exact map_bind fun popped => rfl
  | binary op =>
      dsimp only
      rw [Frame.pop2_moved]
      exact map_bind fun popped => bind_map fun v => rfl
  | unary op =>
      dsimp only
      rw [Frame.pop_moved]
      exact map_bind fun popped => bind_map fun v => rfl
  | jmp => exact Frame.jump_moved
  | jz => exact Frame.branch_moved
  | jnz => exact Frame.branch_moved
  | _ => rfl

theorem newArray (guest : Guest r p q) (registered : f ∈ p.functions)
    (member : i ∈ f.code.toList) (opcode : i.opcode = .newarr) :
    (s.moved r).newArray q (frame.moved r) (callers.map (Frame.moved r)) (r.instruction i).arg
      = (s.newArray p frame callers i.arg).moved r := by
  obtain ⟨d, alone, placed⟩ := guest.newarr registered member opcode
  have request : arrayRequest q (frame.moved r) (r.instruction i).arg
      = (arrayRequest p frame i.arg).map fun x => (x.1, x.2.1, x.2.2.moved r) := by
    unfold arrayRequest
    rw [alone, placed, Frame.pop_moved]
    refine map_bind fun popped => ?_
    dsimp only
    cases popped.1.widen? with
    | none => rfl
    | some n =>
        dsimp only
        split <;> rfl
  unfold State.newArray
  rw [request]
  cases arrayRequest p frame i.arg with
  | error fault => rfl
  | ok requested =>
      obtain ⟨element, length, popped⟩ := requested
      have roots : CallStack.roots (popped.moved r :: callers.map (Frame.moved r))
          = CallStack.roots (popped :: callers) :=
        CallStack.roots_moved r (popped :: callers)
      simp only [Except.map, State.allocate, State.moved, State.bare, Log.noteAll_empty]
      rw [Heap.allocateArray_congr roots]
      cases (s.heap.allocateArray (popped :: callers) element length).result <;> rfl

theorem state_call (guest : Guest r p q) (registered : f ∈ p.functions)
    (member : i ∈ f.code.toList) (opcode : i.opcode = .call) :
    (s.moved r).call ⟨config, none, q⟩ fuel (frame.moved r) (callers.map (Frame.moved r))
        (r.instruction i).arg
      = (s.call ⟨config, none, p⟩ fuel frame callers i.arg).moved r := by
  obtain ⟨g, alone, placed⟩ := guest.call registered member opcode
  unfold State.call
  dsimp only
  rw [alone, placed]
  dsimp only
  rw [show (frame.moved r).require "CALL" (r.linked g).arity
    = frame.require "CALL" g.arity from rfl]
  cases frame.require "CALL" g.arity with
  | error fault => rfl
  | ok done =>
      dsimp only
      simp only [List.length_cons, List.length_map]
      split <;> rfl

theorem state_halt (guest : Guest r p q) (registered : f ∈ p.functions)
    (member : i ∈ f.code.toList) (opcode : i.opcode = .halt) :
    (s.moved r).halt q (frame.moved r) (callers.map (Frame.moved r)) (r.instruction i).arg
      = (s.halt p frame callers i.arg).moved r := by
  obtain ⟨v, alone, placed⟩ := guest.halt registered member opcode
  have same : exitCode q (r.instruction i).arg = exitCode p i.arg := by
    unfold exitCode
    rw [alone, placed]
  unfold State.halt
  rw [same]
  cases exitCode p i.arg <;> rfl

theorem execute (guest : Guest r p q) (registered : f ∈ p.functions)
    (member : i ∈ f.code.toList) :
    (s.moved r).execute ⟨config, none, q⟩ fuel (frame.moved r) (callers.map (Frame.moved r))
        (r.instruction i)
      = (s.execute ⟨config, none, p⟩ fuel frame callers i).moved r := by
  have framewise := guest.frame_execute registered member frame
  unfold State.execute
  rw [Relocation.opcode_instruction]
  cases opcode : i.opcode with
  | newarr => exact guest.newArray registered member opcode
  | stelem => exact State.storeElement_moved
  | ldelem =>
      dsimp only
      rw [State.loadOperands_moved]
      exact State.continueWith_moved
  | call => exact guest.state_call registered member opcode
  | ret => exact State.ret_moved
  | print => exact State.print_moved
  | halt => exact guest.state_halt registered member opcode
  | _ =>
      dsimp only
      rw [framewise]
      exact State.continueWith_moved

/-- A step of the placed program is the step of the program. -/
theorem step (guest : Guest r p q) (inside : ∀ frame ∈ s.frames, frame.function ∈ p.functions) :
    (s.moved r).step ⟨config, none, q⟩ fuel = (s.step ⟨config, none, p⟩ fuel).moved r := by
  cases frames : s.frames with
  | nil =>
      have frames' : (s.moved r).frames = [] := by simp [State.moved, frames]
      simp only [State.step, frames, frames']
      rfl
  | cons frame callers =>
      have frames' : (s.moved r).frames = frame.moved r :: callers.map (Frame.moved r) := by
        simp [State.moved, frames]
      cases fetched : frame.fetch? with
      | none =>
          have fetched' : (frame.moved r).fetch? = none := by
            rw [Frame.fetch?_moved, fetched]
            rfl
          simp only [State.step, frames, frames', fetched, fetched']
          rfl
      | some i =>
          have fetched' : (frame.moved r).fetch? = some (r.instruction i) := by
            rw [Frame.fetch?_moved, fetched]
            rfl
          have registered := inside frame (frames ▸ List.mem_cons_self ..)
          have member : i ∈ frame.function.code.toList :=
            Array.mem_toList_iff.mpr (Array.mem_of_getElem? fetched)
          rw [State.step_of_fetch frames fetched, State.step_of_fetch frames' fetched',
            ← guest.execute registered member]
          rfl

end Steps

/-! ### Runs -/

theorem runSteps (guest : Guest r p q) {config : Config} (fuel : Nat) {s : State}
    (heights : CallStack.AtHeights p (· ∈ p.functions) 0 s.frames) :
    (s.moved r).runSteps ⟨config, none, q⟩ fuel
      = (s.runSteps ⟨config, none, p⟩ fuel).map (Execution.moved r) := by
  have closed : CallClosed (Environment.mk config none p).program (· ∈ p.functions) :=
    Program.callClosed_of_verified guest.portable.verified
  induction fuel generalizing s with
  | zero => rfl
  | succ fuel ih =>
      by_cases active : s.frames = []
      · have active' : (s.moved r).frames = [] := by simp [State.moved, active]
        rw [State.runSteps_of_empty fuel active, State.runSteps_of_empty fuel active']
        rfl
      · have active' : (s.moved r).frames ≠ [] := by simp [State.moved, active]
        have sound := State.step_sound closed fuel active heights
        rw [State.runSteps_of_frames fuel active, State.runSteps_of_frames fuel active',
          guest.step heights.trusted]
        cases step : s.step ⟨config, none, p⟩ fuel with
        | next t =>
            rw [step] at sound
            exact ih sound
        | halted code t => rfl
        | failed fault t => rfl
        | outOfFuel => rfl

theorem yields_iff (guest : Guest r p q) {entry : LinkedFunction}
    (registered : entry ∈ p.functions) (parameterless : entry.params = []) (config : Config)
    (console : Console) (o : Observation) :
    (State.start config console (.empty none)).Yields ⟨config, none, p⟩ entry o
      ↔ (State.start config console (.empty none)).Yields ⟨config, none, q⟩
          (r.linked entry) o := by
  have arity : ([] : List Value).length = entry.arity := by
    simp [LinkedFunction.arity, parameterless]
  have heights : CallStack.AtHeights p (· ∈ p.functions) 0
      ((State.start config console (.empty none)).entering entry).frames :=
    ⟨registered, Frame.atHeight_enter arity, trivial⟩
  have steps : ∀ fuel, ((State.start config console (.empty none)).entering
        (r.linked entry)).runSteps ⟨config, none, q⟩ fuel
      = (((State.start config console (.empty none)).entering entry).runSteps
          ⟨config, none, p⟩ fuel).map (Execution.moved r) := by
    intro fuel
    exact guest.runSteps fuel heights
  rw [State.yields_iff, State.yields_iff]
  simp only [steps, Option.map_eq_some_iff]
  constructor
  · rintro ⟨fuel, e, ended, rfl⟩
    exact ⟨fuel, e.moved r, ⟨e, ended, rfl⟩, e.observation_moved r⟩
  · rintro ⟨fuel, _, ⟨e, ended, rfl⟩, rfl⟩
    exact ⟨fuel, e, ended, (e.observation_moved r).symm⟩

/-- Both programs start with the same function. -/
theorem entry (guest : Guest r p q) (consistent : p.Consistent) (consistent' : q.Consistent)
    {g : LinkedFunction}
    (alone : p.entryPoint = .ok f) (after : q.entryPoint = .ok g) : g = r.linked f := by
  obtain ⟨registered, _⟩ := Program.entryPoint_spec alone
  obtain ⟨registered', _⟩ := Program.entryPoint_spec after
  obtain ⟨i, bound, at_index⟩ := Array.getElem_of_mem registered
  have placed := guest.places.functions i f (Array.getElem?_eq_some_iff.mpr ⟨bound, at_index⟩)
  have named : g.name = (r.linked f).name :=
    (Program.entryPoint_name consistent' after).trans
      (Program.entryPoint_name consistent alone).symm
  exact List.inj_on_of_nodup_map consistent'.distinctFunctions
    (Array.mem_toList_iff.mpr registered')
    (Array.mem_toList_iff.mpr (Array.mem_of_getElem? placed)) named

end Guest

/-! ## Machines -/

/-- A file that can be linked to nothing and to what a library left is placed after the library. -/
theorem Program.guest_of_loads {library input : List UInt8} {origin origin' origin'' : String}
    {counts counts' counts'' : Counts} {base : Program}
    (alone : (Program.empty.load input origin).result = .ok counts)
    (first : (Program.empty.load library origin').result = .ok counts')
    (loaded : base = (Program.empty.load library origin').program)
    (after : (base.load input origin'').result = .ok counts'') :
    Guest (Relocation.ofProgram base) (Program.empty.load input origin).program
      (base.load input origin'').program := by
  obtain ⟨file, rest, parsed, linkedAlone⟩ := link_of_load alone
  obtain ⟨libraryFile, _, parsedLibrary, linkedFirst⟩ := link_of_load first
  obtain ⟨file', rest', parsed', linkedAfter⟩ := link_of_load after
  obtain ⟨fits, whole⟩ := ProgramFile.parse_iff.mp parsed
  have same : ProgramFile.parse origin'' input = .ok (file, rest) :=
    ProgramFile.parse_iff.mpr ⟨fits, whole⟩
  rw [same] at parsed'
  cases parsed'
  rw [← loaded] at linkedFirst
  obtain ⟨functions, links⟩ := links_of_link linkedAlone
  obtain ⟨_, linksFirst⟩ := links_of_link linkedFirst
  obtain ⟨functions', links'⟩ := links_of_link linkedAfter
  have size := size_of_alone linksFirst (ProgramFile.parse_iff.mp parsedLibrary).1
  exact ⟨portable_of_alone links fits, small_ofProgram size,
    places_of_links fits links links' size⟩

namespace Machine

variable {config : Config} {console : Console} {log log' : Log} {library input : List UInt8}
  {origin origin' origin'' : String} {alone base linked : Machine} {counts : Counts}

theorem guest_of_loads
    (loadedAlone : (Machine.new config console log).loadProgram input origin = (alone, .ok ()))
    (loadedLibrary : (Machine.new config console log').loadLibrary library origin'
      = (base, .ok counts))
    (loadedAfter : base.loadProgram input origin'' = (linked, .ok ())) :
    Guest (Relocation.ofProgram base.program) alone.program linked.program := by
  have program := program_of_loadProgram (Machine.new config console log) input origin
  have program' := program_of_loadLibrary (Machine.new config console log') library origin'
  have program'' := program_of_loadProgram base input origin''
  rw [loadedAlone] at program
  rw [loadedLibrary] at program'
  rw [loadedAfter] at program''
  obtain ⟨_, result⟩ := result_of_loadProgram (congrArg Prod.snd loadedAlone)
  have result' := result_of_loadLibrary (congrArg Prod.snd loadedLibrary)
  obtain ⟨_, result''⟩ := result_of_loadProgram (congrArg Prod.snd loadedAfter)
  rw [show alone.program = _ from program, show linked.program = _ from program'']
  exact Program.guest_of_loads result result' program' result''

/-- What holds of a machine after a load, where the load is known. -/
theorem loaded_of_loadProgram {m m' : Machine} (unrun : m.Unrun config console)
    (settled : m.Settled) (loaded : m.loadProgram input origin = (m', .ok ())) :
    m'.Unrun config console ∧ m'.Settled ∧ ∃ entry, m'.entry = some entry := by
  have unrun' := unrun.handle (.program input origin)
  have settled' := settled.handle (.program input origin)
  have entry := entry_of_loadProgram (congrArg Prod.snd loaded)
  rw [Machine.handle, loaded] at unrun' settled'
  rw [loaded] at entry
  exact ⟨unrun', settled', entry⟩

end Machine

/-- A library does not show: if a program can be loaded alone, and after a library, then a run of
the one machine ends if and only if a run of the other does, with the same on the console and with
the same outcome, or the same fault and the same frames. -/
theorem libraries_do_not_show (config : Config) (console : Console) (log log' : Log)
    (library input : List UInt8) (origin origin' origin'' : String)
    (alone base linked : Machine) (counts : Counts)
    (loadedAlone : (Machine.new config console log).loadProgram input origin = (alone, .ok ()))
    (loadedLibrary : (Machine.new config console log').loadLibrary library origin'
      = (base, .ok counts))
    (loadedAfter : base.loadProgram input origin'' = (linked, .ok ())) (out : Console)
    (result : Except MachineError Outcome) :
    alone.Finishes out result ↔ linked.Finishes out result := by
  have guest := Machine.guest_of_loads loadedAlone loadedLibrary loadedAfter
  have unrunBase := (Machine.Unrun.new config console log').handle (.library library origin')
  have settledBase := (Machine.Settled.new config console log').handle (.library library origin')
  rw [Machine.handle, loadedLibrary] at unrunBase settledBase
  obtain ⟨unrun, settled, entry, set⟩ :=
    Machine.loaded_of_loadProgram (.new config console log) (.new config console log) loadedAlone
  obtain ⟨unrun', settled', entry', set'⟩ :=
    Machine.loaded_of_loadProgram unrunBase settledBase loadedAfter
  have starts := settled.entry entry set
  obtain ⟨registered, parameterless⟩ := Program.entryPoint_spec starts
  have moved := guest.entry settled.program settled'.program starts (settled'.entry entry' set')
  rw [unrun.finishes_iff set, unrun'.finishes_iff set', moved]
  simp only [guest.yields_iff registered parameterless]

/-! A program prints and then divides by zero in a function that it calls; the library takes the
first places of both pools. -/

namespace Sharing

def library : ProgramFile :=
  ⟨⟨0, 1, 0⟩, [.ofString "Help", .ofString "", .ofString "void;"],
    [⟨0, 1, 2, 0, 0, #[⟨.ret, none⟩]⟩], []⟩

def program : ProgramFile :=
  ⟨⟨0, 1, 0⟩,
    [.ofString "Main", .ofString "", .ofString "void;", .ofString "Share", .ofString "I32;",
      ⟨.int .i32, [0, 0, 0, 7]⟩, ⟨.int .i32, [0, 0, 0, 0]⟩],
    [⟨0, 1, 2, 1, 0, #[⟨.ldc, some 5⟩, ⟨.print, none⟩, ⟨.ldc, some 5⟩, ⟨.call, some 1⟩,
        ⟨.print, none⟩, ⟨.ret, none⟩]⟩,
      ⟨3, 4, 4, 2, 1, #[⟨.store, some 0⟩, ⟨.ldv, some 0⟩, ⟨.ldc, some 6⟩, ⟨.binary .div, none⟩,
        ⟨.ret, none⟩]⟩], []⟩

def fresh : Machine := .new {} .working (.empty none)

def alone : Machine := (fresh.loadProgram program.encode "main.ball").1

def base : Machine := (fresh.loadLibrary library.encode "std.ball").1

def linked : Machine := (base.loadProgram program.encode "main.ball").1

def failure : Except MachineError Outcome :=
  .error (.runtime ⟨.divisionByZero, ["Main@4", "Share@4"]⟩)

theorem loaded :
    (fresh.loadProgram program.encode "main.ball").2 = .ok ()
      ∧ (fresh.loadLibrary library.encode "std.ball").2 = .ok ⟨3, 1, 0⟩
      ∧ (base.loadProgram program.encode "main.ball").2 = .ok ()
      ∧ alone.Finishes ⟨"7", none, none⟩ failure := by
  have all : ((fresh.loadProgram program.encode "main.ball").2,
      (fresh.loadLibrary library.encode "std.ball").2,
      (base.loadProgram program.encode "main.ball").2,
      (alone.run 20).map fun ran => (ran.1.state.console, ran.2))
        = (.ok (), .ok ⟨3, 1, 0⟩, .ok (), some (⟨"7", none, none⟩, failure)) := by cbv
  simp only [Prod.mk.injEq] at all
  obtain ⟨first, second, third, run⟩ := all
  exact ⟨first, second, third, Machine.finishes_of_run run⟩

theorem fails_alike :
    alone.Finishes ⟨"7", none, none⟩ failure ∧ linked.Finishes ⟨"7", none, none⟩ failure := by
  obtain ⟨first, second, third, finishes⟩ := loaded
  refine ⟨finishes, ?_⟩
  exact (libraries_do_not_show {} .working (.empty none) (.empty none) library.encode
    program.encode "main.ball" "std.ball" "main.ball" alone base linked ⟨3, 1, 0⟩
    (Prod.ext rfl first) (Prod.ext rfl second) (Prod.ext rfl third) _ _).mp finishes

end Sharing

end StackMachine
