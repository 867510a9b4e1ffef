import StackMachine.Native.Compiler

/-! # Code with gaps

Every optimization drops steps and then closes the gaps. Here the two are taken apart: code may
have gaps, which control goes through without effect, and closing the gaps is shown to keep
every run. A pass is then right if putting gaps, or folded words, into code keeps its runs.
-/

namespace StackMachine

structure NativeContext where
  name : String
  lane : Lane
  returnsValue : Bool
  heap : Heap

/-- How native code ends: it fails, or returns a word and the stores that it held back. -/
abbrev NativeEnd := Except NativeError (Int64 × List HeldStore)

abbrev GappedCode := List (Option Step)

def GappedCode.full (code : List Step) : GappedCode := code.map some

namespace GappedCode

variable (c : NativeContext)

/-- What happens at the program counter: a gap leads to the next place. -/
def next (code : GappedCode) (s : NativeState) : Except NativeError Flow :=
  match code[s.pc]? with
  | none => .error (.missingReturn c.name)
  | some none => .ok (s.goOn s.stack)
  | some (some step) => s.step c.lane c.returnsValue c.heap step

def run (code : GappedCode) : Nat → NativeState → Option NativeEnd
  | 0, _ => none
  | fuel + 1, s =>
      match code.next c s with
      | .error e => some (.error e)
      | .ok (.returned v t) => some (.ok (v, t.journal))
      | .ok (.next t) => run code fuel t

variable {c}

theorem run_of_error {code : GappedCode} {s : NativeState} {e : NativeError} (fuel : Nat)
    (h : code.next c s = .error e) : code.run c (fuel + 1) s = some (.error e) := by
  simp only [run, h]

theorem run_of_returned {code : GappedCode} {s t : NativeState} {v : Int64} (fuel : Nat)
    (h : code.next c s = .ok (.returned v t)) :
    code.run c (fuel + 1) s = some (.ok (v, t.journal)) := by
  simp only [run, h]

theorem run_of_next {code : GappedCode} {s t : NativeState} (fuel : Nat)
    (h : code.next c s = .ok (.next t)) : code.run c (fuel + 1) s = code.run c fuel t := by
  simp only [run, h]

theorem next_of_gap {code : GappedCode} {s : NativeState} (gap : code[s.pc]? = some none) :
    code.next c s = .ok (.next { s with pc := s.pc + 1 }) := by
  simp only [next, gap, NativeState.goOn]

theorem next_of_step {code : GappedCode} {s : NativeState} {step : Step}
    (here : code[s.pc]? = some (some step)) :
    code.next c s = s.step c.lane c.returnsValue c.heap step := by
  simp only [next, here]

theorem next_of_end {code : GappedCode} {s : NativeState} (outside : code[s.pc]? = none) :
    code.next c s = .error (.missingReturn c.name) := by
  simp only [next, outside]

/-- More fuel does not change how a run ends. -/
theorem run_mono {code : GappedCode} {fuel more : Nat} {s : NativeState} {r : NativeEnd}
    (le : fuel ≤ more) (h : code.run c fuel s = some r) : code.run c more s = some r := by
  induction fuel generalizing more s with
  | zero => simp [run] at h
  | succ fuel ih =>
      obtain ⟨more, rfl⟩ : ∃ m, more = m + 1 := ⟨more - 1, by omega⟩
      simp only [run] at h ⊢
      split at h
      · exact h
      · exact h
      · exact ih (by omega) h

/-- Two codes that do the same wherever control can be have the same runs. -/
theorem run_congr {code code' : GappedCode} {inside : NativeState → Prop}
    (same : ∀ s, inside s → code.next c s = code'.next c s)
    (kept : ∀ s t, inside s → code.next c s = .ok (.next t) → inside t) (fuel : Nat)
    {s : NativeState} (start : inside s) : code.run c fuel s = code'.run c fuel s := by
  induction fuel generalizing s with
  | zero => rfl
  | succ fuel ih =>
      simp only [run, ← same s start]
      split
      · rfl
      · rfl
      · rename_i next
        exact ih (kept _ _ start next)

end GappedCode

/-- The executor of native functions is that of code without gaps. -/
theorem NativeFunction.execute_eq_run (f : NativeFunction) (h : Heap) (fuel : Nat)
    (s : NativeState) :
    f.execute h fuel s
      = (GappedCode.full f.code.toList).run ⟨f.name, f.lane, f.returnsValue, h⟩ fuel s := by
  induction fuel generalizing s with
  | zero => rfl
  | succ fuel ih =>
      simp only [execute, GappedCode.run, GappedCode.next, GappedCode.full, List.getElem?_map,
        Array.getElem?_toList]
      cases f.code[s.pc]? with
      | none => rfl
      | some step =>
          simp only [Option.map_some]
          cases s.step f.lane f.returnsValue h step with
          | error e => rfl
          | ok flow =>
              cases flow with
              | returned v t => rfl
              | next t => exact ih t

/-! ## What a step does -/

theorem NativeState.store_eq {s t : NativeState} {h : Heap} {held : HeldStore}
    (stored : s.store h held = .ok t) : t = { s with journal := held :: s.journal } := by
  unfold NativeState.store at stored
  split at stored
  · cases stored
  · split at stored
    · cases stored
      rfl
    · cases stored

/-- All that a step can do if it does not fail. -/
inductive NativeMove (lane : Lane) (returnsValue : Bool) (h : Heap) (s : NativeState) :
    Step → Flow → Prop where
  | push (v : Int64) : NativeMove lane returnsValue h s (.push v) (s.goOn (v :: s.stack))
  | ldv {i : Instruction} {v : Int64} (opcode : i.opcode = .ldv)
      (known : s.locals[i.arg]? = some v) :
      NativeMove lane returnsValue h s (.op i) (s.goOn (v :: s.stack))
  | store {i : Instruction} {v : Int64} {stack : List Int64} (opcode : i.opcode = .store)
      (operands : s.stack = v :: stack) (bound : i.arg < s.locals.size) :
      NativeMove lane returnsValue h s (.op i)
        ({ s with locals := s.locals.setIfInBounds i.arg v }.goOn stack)
  | dup {i : Instruction} {v : Int64} {stack : List Int64} (opcode : i.opcode = .dup)
      (operands : s.stack = v :: stack) :
      NativeMove lane returnsValue h s (.op i) (s.goOn (v :: v :: stack))
  | swap {i : Instruction} {a b : Int64} {stack : List Int64} (opcode : i.opcode = .swap)
      (operands : s.stack = b :: a :: stack) :
      NativeMove lane returnsValue h s (.op i) (s.goOn (a :: b :: stack))
  | binary {i : Instruction} {op : BinaryOp} {a b v : Int64} {stack : List Int64}
      (opcode : i.opcode = .binary op) (operands : s.stack = b :: a :: stack)
      (result : op.onWords lane a b = .ok v) :
      NativeMove lane returnsValue h s (.op i) (s.goOn (v :: stack))
  | unary {i : Instruction} {op : UnaryOp} {a : Int64} {stack : List Int64}
      (opcode : i.opcode = .unary op) (operands : s.stack = a :: stack) :
      NativeMove lane returnsValue h s (.op i) (s.goOn (op.onWord lane a :: stack))
  | jmp {i : Instruction} (opcode : i.opcode = .jmp) :
      NativeMove lane returnsValue h s (.op i) (s.jump i.arg s.stack)
  | jz {i : Instruction} {v : Int64} {stack : List Int64} (opcode : i.opcode = .jz)
      (operands : s.stack = v :: stack) :
      NativeMove lane returnsValue h s (.op i)
        (if v = 0 then s.jump i.arg stack else s.goOn stack)
  | jnz {i : Instruction} {v : Int64} {stack : List Int64} (opcode : i.opcode = .jnz)
      (operands : s.stack = v :: stack) :
      NativeMove lane returnsValue h s (.op i)
        (if v = 0 then s.goOn stack else s.jump i.arg stack)
  | ldelem {i : Instruction} {index array v : Int64} {stack : List Int64}
      (opcode : i.opcode = .ldelem) (operands : s.stack = index :: array :: stack)
      (loaded : s.load h (refOfWord array) index = .ok v) :
      NativeMove lane returnsValue h s (.op i) (s.goOn (v :: stack))
  | stelem {i : Instruction} {word index array : Int64} {stack : List Int64} {t : NativeState}
      (opcode : i.opcode = .stelem) (operands : s.stack = word :: index :: array :: stack)
      (stored : s.store h ⟨refOfWord array, index, word⟩ = .ok t) :
      NativeMove lane returnsValue h s (.op i) (t.goOn stack)
  | retValue {i : Instruction} {v : Int64} {stack : List Int64} (opcode : i.opcode = .ret)
      (value : returnsValue = true) (operands : s.stack = v :: stack) :
      NativeMove lane returnsValue h s (.op i) (.returned v { s with stack := stack })
  | retVoid {i : Instruction} (opcode : i.opcode = .ret) (none : returnsValue = false) :
      NativeMove lane returnsValue h s (.op i) (.returned 0 s)

theorem NativeState.move_of_step {lane : Lane} {returnsValue : Bool} {h : Heap}
    {s : NativeState} {step : Step} {flow : Flow}
    (done : s.step lane returnsValue h step = .ok flow) :
    NativeMove lane returnsValue h s step flow := by
  cases step with
  | push v =>
      cases done
      exact .push v
  | op i =>
      simp only [NativeState.step, NativeState.instruction] at done
      split at done
      · rename_i opcode
        split at done
        · cases done; exact .ldv opcode ‹_›
        · cases done
      · rename_i opcode operands
        split at done
        · cases done; exact .store opcode operands ‹_›
        · cases done
      · cases done; exact .dup ‹_› ‹_›
      · cases done; exact .swap ‹_› ‹_›
      · rename_i opcode operands
        split at done
        · cases done; exact .binary opcode operands ‹_›
        · cases done
      · cases done; exact .unary ‹_› ‹_›
      · cases done; exact .jmp ‹_›
      · cases done; exact .jz ‹_› ‹_›
      · cases done; exact .jnz ‹_› ‹_›
      · rename_i opcode operands
        split at done
        · cases done; exact .ldelem opcode operands ‹_›
        · cases done
      · rename_i opcode operands
        split at done
        · cases done; exact .stelem opcode operands ‹_›
        · cases done
      · rename_i opcode
        split at done
        · rename_i value
          split at done
          · cases done; exact .retValue opcode value ‹_›
          · cases done
        · rename_i none
          cases done; exact .retVoid opcode (by simpa using none)
      all_goals cases done

def Step.LeadsTo (step : Step) (pc next : Nat) : Prop :=
  (next = pc + 1 ∧ step.fallsThrough = true) ∨ step.target? = some next

theorem Step.leadsTo_after {i : Instruction} (pc : Nat) (opcode : i.opcode ≠ .ret)
    (other : i.opcode ≠ .jmp) : (Step.op i).LeadsTo pc (pc + 1) := by
  simp [Step.LeadsTo, Step.fallsThrough, Step.opcode?, opcode, other]

theorem Step.leadsTo_target {i : Instruction} (pc : Nat) (jump : i.opcode.isJump = true) :
    (Step.op i).LeadsTo pc i.arg := by
  simp [Step.LeadsTo, Step.target?, jump]

theorem NativeState.leadsTo_of_step {lane : Lane} {returnsValue : Bool} {h : Heap}
    {s t : NativeState} {step : Step} (next : s.step lane returnsValue h step = .ok (.next t)) :
    step.LeadsTo s.pc t.pc := by
  generalize flow_eq : Flow.next t = flow at next
  cases NativeState.move_of_step next with
  | push v => cases flow_eq; exact .inl ⟨rfl, rfl⟩
  | jmp opcode => cases flow_eq; exact Step.leadsTo_target _ (by simp [opcode, Opcode.isJump])
  | jz opcode | jnz opcode =>
      split at flow_eq <;> cases flow_eq
      all_goals first
        | exact Step.leadsTo_target _ (by simp [opcode, Opcode.isJump])
        | exact Step.leadsTo_after _ (by simp [opcode]) (by simp [opcode])
  | stelem opcode _ stored =>
      cases flow_eq
      rw [NativeState.store_eq stored]
      exact Step.leadsTo_after _ (by simp [opcode]) (by simp [opcode])
  | retValue | retVoid => cases flow_eq
  | ldv opcode | store opcode | dup opcode | swap opcode | binary opcode | unary opcode
  | ldelem opcode =>
      cases flow_eq
      exact Step.leadsTo_after _ (by simp [opcode]) (by simp [opcode])

/-! ## Closing gaps -/

def Flow.mapPc (g : Nat → Nat) : Flow → Flow
  | .next s => .next { s with pc := g s.pc }
  | .returned v s => .returned v { s with pc := g s.pc }

def NativeState.mapPc (g : Nat → Nat) (s : NativeState) : NativeState := { s with pc := g s.pc }

theorem Step.retarget_of_not_jump {i : Instruction} (g : Nat → Nat)
    (other : i.opcode.isJump = false) : (Step.op i).retarget g = .op i := by
  simp [Step.retarget, other]

theorem Step.retarget_of_jump {i : Instruction} (g : Nat → Nat) (jump : i.opcode.isJump = true) :
    (Step.op i).retarget g = .op { i with operand := some (UInt32.ofNat (g i.arg)) } := by
  simp [Step.retarget, jump]

theorem Instruction.arg_retarget {g : Nat → Nat} (below : ∀ n, g n ≤ n) (i : Instruction)
    (o : Opcode) : (⟨o, some (UInt32.ofNat (g i.arg))⟩ : Instruction).arg = g i.arg := by
  have bound : i.arg < UInt32.size := UInt32.toNat_lt_size _
  simp only [Instruction.arg, Option.getD_some]
  exact UInt32.toNat_ofNat_of_lt' (Nat.lt_of_le_of_lt (below i.arg) bound)

theorem NativeState.goOn_mapPc {g : Nat → Nat} {s : NativeState}
    (after : g (s.pc + 1) = g s.pc + 1) (stack : List Int64) :
    (s.mapPc g).goOn stack = (s.goOn stack).mapPc g := by
  simp only [goOn, mapPc, Flow.mapPc, after]

theorem NativeState.store_mapPc (g : Nat → Nat) (s : NativeState) (h : Heap) (held : HeldStore) :
    (s.mapPc g).store h held = (s.store h held).map (mapPc g) := by
  unfold store
  cases h.arrayLength held.array with
  | error fault => rfl
  | ok length =>
      dsimp only
      split <;> rfl

/-- Moving the code moves the run: a step with its target moved, at the moved program counter,
does what the step does, and leads to the moved place. -/
theorem NativeState.step_retarget {g : Nat → Nat} {s : NativeState} (lane : Lane)
    (returnsValue : Bool) (h : Heap) (step : Step) (below : ∀ n, g n ≤ n)
    (after : g (s.pc + 1) = g s.pc + 1) :
    (s.mapPc g).step lane returnsValue h (step.retarget g)
      = (s.step lane returnsValue h step).map (Flow.mapPc g) := by
  have goOn_moves := goOn_mapPc after
  cases step with
  | push v => exact congrArg Except.ok (goOn_moves _)
  | op i =>
      have arg_moves := Instruction.arg_retarget below i
      have stack_same : (s.mapPc g).stack = s.stack := rfl
      have locals_same : (s.mapPc g).locals = s.locals := rfl
      cases opcode : i.opcode with
      | jmp =>
          rw [Step.retarget_of_jump g (by rw [opcode]; rfl)]
          simp only [NativeState.step, instruction, opcode, arg_moves]
          rfl
      | jz | jnz =>
          rw [Step.retarget_of_jump g (by rw [opcode]; rfl)]
          simp only [NativeState.step, instruction, opcode, arg_moves, stack_same]
          rcases s.stack with _ | ⟨v, stack⟩
          · rfl
          · by_cases zero : v = 0
            all_goals simp only [zero, goOn_moves, if_true, if_false]; rfl
      | ldv =>
          rw [Step.retarget_of_not_jump g (by rw [opcode]; rfl)]
          simp only [NativeState.step, instruction, opcode, stack_same, locals_same, goOn_moves]
          cases s.locals[i.arg]? <;> rfl
      | store =>
          rw [Step.retarget_of_not_jump g (by rw [opcode]; rfl)]
          simp only [NativeState.step, instruction, opcode, stack_same, locals_same]
          rcases s.stack with _ | ⟨v, stack⟩
          · rfl
          · by_cases bound : i.arg < s.locals.size
            · simp only [bound, if_true]
              exact congrArg Except.ok
                (goOn_mapPc (s := { s with locals := s.locals.setIfInBounds i.arg v }) after stack)
            · simp only [bound, if_false]
              rfl
      | dup | unary =>
          rw [Step.retarget_of_not_jump g (by rw [opcode]; rfl)]
          simp only [NativeState.step, instruction, opcode, stack_same, goOn_moves]
          rcases s.stack with _ | ⟨v, stack⟩ <;> rfl
      | swap =>
          rw [Step.retarget_of_not_jump g (by rw [opcode]; rfl)]
          simp only [NativeState.step, instruction, opcode, stack_same, goOn_moves]
          rcases s.stack with _ | ⟨b, _ | ⟨a, stack⟩⟩ <;> rfl
      | binary op =>
          rw [Step.retarget_of_not_jump g (by rw [opcode]; rfl)]
          simp only [NativeState.step, instruction, opcode, stack_same, goOn_moves]
          rcases s.stack with _ | ⟨b, _ | ⟨a, stack⟩⟩
          · rfl
          · rfl
          · dsimp only
            cases op.onWords lane a b <;> rfl
      | ldelem =>
          rw [Step.retarget_of_not_jump g (by rw [opcode]; rfl)]
          have load_same : ∀ r index, (s.mapPc g).load h r index = s.load h r index :=
            fun _ _ => rfl
          simp only [NativeState.step, instruction, opcode, stack_same, goOn_moves, load_same]
          rcases s.stack with _ | ⟨index, _ | ⟨array, stack⟩⟩
          · rfl
          · rfl
          · dsimp only
            cases s.load h (refOfWord array) index <;> rfl
      | stelem =>
          rw [Step.retarget_of_not_jump g (by rw [opcode]; rfl)]
          simp only [NativeState.step, instruction, opcode, stack_same, store_mapPc]
          rcases s.stack with _ | ⟨word, _ | ⟨index, _ | ⟨array, stack⟩⟩⟩
          · rfl
          · rfl
          · rfl
          · dsimp only
            cases stored : s.store h ⟨refOfWord array, index, word⟩ with
            | error e => rfl
            | ok t =>
                have same_pc : t.pc = s.pc := by rw [store_eq stored]
                exact congrArg Except.ok (goOn_mapPc (by rw [same_pc]; exact after) stack)
      | ret =>
          rw [Step.retarget_of_not_jump g (by rw [opcode]; rfl)]
          simp only [NativeState.step, instruction, opcode, stack_same]
          cases returnsValue with
          | false => rfl
          | true => rcases s.stack with _ | ⟨v, stack⟩ <;> rfl
      | _ =>
          rw [Step.retarget_of_not_jump g (by rw [opcode]; rfl)]
          simp only [NativeState.step, instruction, opcode]
          rfl

section Compaction

variable (flagged : List (Step × Bool))

/-- The code with gaps in place of the steps that are not kept. -/
def GappedCode.ofFlagged : GappedCode :=
  flagged.map fun (step, kept) => if kept then some step else none

theorem GappedCode.getElem?_ofFlagged_zip {code : List Step} {keep : List Bool} {pc : Nat}
    {step : Step} {kept : Bool} (here : code[pc]? = some step) (flag : keep[pc]? = some kept) :
    (ofFlagged (code.zip keep))[pc]? = some (if kept then some step else none) := by
  have zipped : (code.zip keep)[pc]? = some (step, kept) :=
    List.getElem?_zip_eq_some.mpr ⟨here, flag⟩
  rw [ofFlagged, List.getElem?_map, zipped, Option.map_some]

theorem GappedCode.getElem?_ofFlagged_zip_none {code : List Step} (keep : List Bool) {pc : Nat}
    (outside : code[pc]? = none) : (ofFlagged (code.zip keep))[pc]? = none := by
  have beyond : code.length ≤ pc := List.getElem?_eq_none_iff.mp outside
  simp only [ofFlagged, List.getElem?_eq_none_iff, List.length_map, List.length_zip]
  omega

theorem landing_le (pc : Nat) : landing flagged pc ≤ pc := by
  have counted : landing flagged pc ≤ (flagged.take pc).length := List.countP_le_length
  have taken : (flagged.take pc).length ≤ pc := List.length_take_le _ _
  omega

variable {flagged}

theorem landing_succ_of_kept {pc : Nat} {step : Step}
    (here : flagged[pc]? = some (step, true)) :
    landing flagged (pc + 1) = landing flagged pc + 1 := by
  simp [landing, List.take_add_one, here]

theorem landing_succ_of_dropped {pc : Nat} {step : Step}
    (here : flagged[pc]? = some (step, false)) :
    landing flagged (pc + 1) = landing flagged pc := by
  simp [landing, List.take_add_one, here]

variable (flagged) in
def compactFlagged : List Step :=
  flagged.filterMap fun (step, kept) =>
    if kept then some (step.retarget (landing flagged)) else none

/-- The kept steps before a place are as many as the steps of the compacted code that come from
them. -/
theorem length_filterMap_take (pc : Nat) (g : Nat → Nat) :
    ((flagged.take pc).filterMap fun (step, kept) =>
      if kept then some (step.retarget g) else none).length = landing flagged pc := by
  rw [List.length_filterMap_eq_countP, landing]
  congr 1
  funext entry
  obtain ⟨step, kept⟩ := entry
  cases kept <;> rfl

theorem getElem?_compactFlagged_of_kept {pc : Nat} {step : Step}
    (here : flagged[pc]? = some (step, true)) :
    (compactFlagged flagged)[landing flagged pc]?
      = some (step.retarget (landing flagged)) := by
  obtain ⟨bound, at_pc⟩ := List.getElem?_eq_some_iff.mp here
  have cut : flagged = flagged.take pc ++ (step, true) :: flagged.drop (pc + 1) := by
    rw [← at_pc, List.getElem_cons_drop, List.take_append_drop]
  rw [compactFlagged]
  conv => lhs; arg 1; arg 2; rw [cut]
  have before : ((flagged.take pc).filterMap fun (step, kept) =>
      if kept then some (step.retarget (landing flagged)) else none).length
        = landing flagged pc := length_filterMap_take pc _
  rw [List.filterMap_append, List.getElem?_append_right (Nat.le_of_eq before), before]
  simp

theorem getElem?_compactFlagged_of_end {pc : Nat} (outside : flagged[pc]? = none) :
    (compactFlagged flagged)[landing flagged pc]? = none := by
  have beyond : flagged.length ≤ pc := List.getElem?_eq_none_iff.mp outside
  have all : (compactFlagged flagged).length = landing flagged pc := by
    rw [← length_filterMap_take pc (landing flagged), List.take_of_length_le beyond,
      compactFlagged]
  exact List.getElem?_eq_none_iff.mpr (by omega)

variable {c : NativeContext}

/-- Where a step is kept, the compacted code does what the code with gaps does. -/
theorem next_compactFlagged_of_kept {s : NativeState} {step : Step}
    (here : flagged[s.pc]? = some (step, true)) :
    (GappedCode.full (compactFlagged flagged)).next c (s.mapPc (landing flagged))
      = ((GappedCode.ofFlagged flagged).next c s).map (Flow.mapPc (landing flagged)) := by
  have compacted : (GappedCode.full (compactFlagged flagged))[(s.mapPc (landing flagged)).pc]?
      = some (some (step.retarget (landing flagged))) := by
    simp only [GappedCode.full, List.getElem?_map]
    exact congrArg (Option.map some) (getElem?_compactFlagged_of_kept here)
  have gapped : (GappedCode.ofFlagged flagged)[s.pc]? = some (some step) := by
    simp [GappedCode.ofFlagged, here]
  rw [GappedCode.next_of_step compacted, GappedCode.next_of_step gapped]
  exact NativeState.step_retarget _ _ _ _ (landing_le flagged) (landing_succ_of_kept here)

theorem next_compactFlagged_of_end {s : NativeState} (outside : flagged[s.pc]? = none) :
    (GappedCode.full (compactFlagged flagged)).next c (s.mapPc (landing flagged))
        = .error (.missingReturn c.name)
      ∧ (GappedCode.ofFlagged flagged).next c s = .error (.missingReturn c.name) := by
  constructor
  · refine GappedCode.next_of_end ?_
    simp only [GappedCode.full, List.getElem?_map]
    exact congrArg (Option.map some) (getElem?_compactFlagged_of_end outside)
  · exact GappedCode.next_of_end (by simp [GappedCode.ofFlagged, outside])

theorem next_ofFlagged_of_dropped {s : NativeState} {step : Step}
    (here : flagged[s.pc]? = some (step, false)) :
    (GappedCode.ofFlagged flagged).next c s = .ok (.next { s with pc := s.pc + 1 }) :=
  GappedCode.next_of_gap (by simp [GappedCode.ofFlagged, here])

theorem NativeState.mapPc_of_dropped {s : NativeState} {step : Step}
    (here : flagged[s.pc]? = some (step, false)) :
    ({ s with pc := s.pc + 1 } : NativeState).mapPc (landing flagged)
      = s.mapPc (landing flagged) := by
  simp only [mapPc, landing_succ_of_dropped here]

/-- Closing the gaps takes no more fuel. -/
theorem run_compactFlagged {fuel : Nat} {s : NativeState} {r : NativeEnd}
    (gapped : (GappedCode.ofFlagged flagged).run c fuel s = some r) :
    (GappedCode.full (compactFlagged flagged)).run c fuel (s.mapPc (landing flagged)) = some r := by
  induction fuel generalizing s with
  | zero => simp [GappedCode.run] at gapped
  | succ fuel ih =>
      cases here : flagged[s.pc]? with
      | none =>
          obtain ⟨closed, open_⟩ := next_compactFlagged_of_end (c := c) here
          rw [GappedCode.run_of_error fuel open_] at gapped
          rw [GappedCode.run_of_error fuel closed, gapped]
      | some entry =>
          obtain ⟨step, kept⟩ := entry
          cases kept with
          | false =>
              rw [GappedCode.run_of_next fuel (next_ofFlagged_of_dropped here)] at gapped
              have closed := ih gapped
              rw [NativeState.mapPc_of_dropped here] at closed
              exact GappedCode.run_mono (Nat.le_succ fuel) closed
          | true =>
              have closed := next_compactFlagged_of_kept (c := c) here
              cases next : (GappedCode.ofFlagged flagged).next c s with
              | error e =>
                  rw [next] at closed
                  rw [GappedCode.run_of_error fuel next] at gapped
                  rw [GappedCode.run_of_error fuel closed, gapped]
              | ok flow =>
                  rw [next] at closed
                  cases flow with
                  | returned v t =>
                      rw [GappedCode.run_of_returned fuel next] at gapped
                      rw [GappedCode.run_of_returned fuel closed, ← gapped]
                  | next t =>
                      rw [GappedCode.run_of_next fuel next] at gapped
                      rw [GappedCode.run_of_next fuel closed]
                      exact ih gapped

/-- Every run of the compacted code is one of the code with gaps. The outer induction is on the
fuel; between two kept steps there are only so many gaps. -/
theorem run_ofFlagged_of_compact {fuel : Nat} {s : NativeState} {r : NativeEnd}
    (closed :
      (GappedCode.full (compactFlagged flagged)).run c fuel (s.mapPc (landing flagged)) = some r) :
    ∃ more, (GappedCode.ofFlagged flagged).run c more s = some r := by
  induction fuel generalizing s with
  | zero => simp [GappedCode.run] at closed
  | succ fuel ih =>
      induction ahead : flagged.length - s.pc generalizing s with
      | zero =>
          have outside : flagged[s.pc]? = none := List.getElem?_eq_none_iff.mpr (by omega)
          obtain ⟨closed_next, gapped_next⟩ := next_compactFlagged_of_end (c := c) outside
          rw [GappedCode.run_of_error fuel closed_next] at closed
          exact ⟨1, by rw [GappedCode.run_of_error 0 gapped_next, closed]⟩
      | succ ahead shorter =>
          have inside : s.pc < flagged.length := by omega
          have here := List.getElem?_eq_getElem inside
          rcases entry_eq : flagged[s.pc] with ⟨step, kept⟩
          rw [entry_eq] at here
          cases kept with
          | false =>
              rw [← NativeState.mapPc_of_dropped here] at closed
              obtain ⟨more, gapped⟩ := shorter closed (by dsimp only; omega)
              exact ⟨more + 1,
                by rw [GappedCode.run_of_next more (next_ofFlagged_of_dropped here), gapped]⟩
          | true =>
              have closed_next := next_compactFlagged_of_kept (c := c) here
              cases next : (GappedCode.ofFlagged flagged).next c s with
              | error e =>
                  rw [next] at closed_next
                  rw [GappedCode.run_of_error fuel closed_next] at closed
                  exact ⟨1, by rw [GappedCode.run_of_error 0 next, closed]⟩
              | ok flow =>
                  rw [next] at closed_next
                  cases flow with
                  | returned v t =>
                      rw [GappedCode.run_of_returned fuel closed_next] at closed
                      exact ⟨1, by rw [GappedCode.run_of_returned 0 next, ← closed]⟩
                  | next t =>
                      rw [GappedCode.run_of_next fuel closed_next] at closed
                      obtain ⟨more, gapped⟩ := ih closed
                      exact ⟨more + 1, by rw [GappedCode.run_of_next more next, gapped]⟩

end Compaction

/-! ## Code that does the same -/

/-- From the start, the second code ends as the first does, and as soon. -/
structure GappedCode.Condenses (c : NativeContext) (code code' : GappedCode) : Prop where
  ends : ∀ {fuel : Nat} {s : NativeState} {r : NativeEnd}, s.pc = 0 →
    code.run c fuel s = some r → code'.run c fuel s = some r
  ended : ∀ {fuel : Nat} {s : NativeState} {r : NativeEnd}, s.pc = 0 →
    code'.run c fuel s = some r → ∃ more, code.run c more s = some r

namespace GappedCode.Condenses

variable {c : NativeContext} {code code' code'' : GappedCode}

theorem of_eq (same : ∀ fuel s, s.pc = 0 → code.run c fuel s = code'.run c fuel s) :
    Condenses c code code' where
  ends start run := by rw [← same _ _ start, run]
  ended start run := ⟨_, by rw [same _ _ start, run]⟩

theorem trans (first : Condenses c code code') (second : Condenses c code' code'') :
    Condenses c code code'' where
  ends start run := second.ends start (first.ends start run)
  ended start run := by
    obtain ⟨more, between⟩ := second.ended start run
    exact first.ended start between

theorem compactFlagged (flagged : List (Step × Bool)) :
    Condenses c (ofFlagged flagged) (full (compactFlagged flagged)) := by
  have unmoved : ∀ s : NativeState, s.pc = 0 → s.mapPc (landing flagged) = s := by
    intro s start
    obtain ⟨pc, stack, locals, journal⟩ := s
    subst start
    rfl
  constructor
  · intro fuel s r start run
    rw [← unmoved s start]
    exact run_compactFlagged run
  · intro fuel s r start run
    rw [← unmoved s start] at run
    exact run_ofFlagged_of_compact run

end GappedCode.Condenses

end StackMachine
