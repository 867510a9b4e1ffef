import StackMachine.Program.Basic

/-! # Verification

A function is accepted when each of its operands refers to something that exists, and when each
instruction that control can reach has one stack height, high enough for what it pops. Control
that runs past the end of the code is not followed.
-/

namespace StackMachine

inductive VerifyProblem where
  | badConstant (index : Nat) (fault : Fault)
  | badElementType (index : Nat) (fault : Fault)
  | voidElementType (index : Nat)
  | badExitCode (index : Nat) (fault : Fault)
  | exitCodeTag (index : Nat) (tag : ConstantTag)
  | noLocalSlot (opcode : Opcode) (index locals : Nat)
  | badTarget (opcode : Opcode) (target length : Nat)
  | badCallee (index : Nat) (fault : Fault)
  | underflow (instruction : Instruction) (needed height : Nat)
  | heightMismatch (known arriving : Nat)
  deriving DecidableEq, Repr

def VerifyProblem.message : VerifyProblem → String
  | .badConstant index fault => s!"LDC {index}: {fault.message}"
  | .badElementType index fault => s!"NEWARR {index}: {fault.message}"
  | .voidElementType index => s!"NEWARR {index}: array of void"
  | .badExitCode index fault => s!"HALT {index}: {fault.message}"
  | .exitCodeTag index tag => s!"HALT {index}: exit code constant has tag {tag.name}"
  | .noLocalSlot opcode index locals =>
      s!"{opcode.mnemonic} {index}: only {locals} local slots"
  | .badTarget opcode target length =>
      s!"{opcode.mnemonic} {target}: target outside code of length {length}"
  | .badCallee index fault => s!"CALL {index}: {fault.message}"
  | .underflow instruction needed height =>
      s!"stack underflow at {instruction.text}, needed {needed} items, have {height}"
  | .heightMismatch known arriving =>
      s!"inconsistent stack height at join: {known} vs {arriving}"

structure VerifyError where
  function : String
  pc : Nat
  problem : VerifyProblem
  deriving DecidableEq, Repr

def VerifyError.text (e : VerifyError) : String :=
  s!"verify error in {e.function} at pc={e.pc}: {e.problem.message}"

namespace Program

/-! ## Operands -/

/-- What is wrong with the operand of an instruction of the function, if anything. -/
def operandProblem? (p : Program) (f : LinkedFunction) (i : Instruction) :
    Option VerifyProblem :=
  match i.opcode with
  | .ldc =>
      match p.constantValue i.arg with
      | .ok _ => none
      | .error fault => some (.badConstant i.arg fault)
  | .newarr =>
      match p.descriptor i.arg with
      | .ok element => if element.isVoid then some (.voidElementType i.arg) else none
      | .error fault => some (.badElementType i.arg fault)
  | .halt =>
      match p.constant i.arg with
      | .ok c => if c.tag.isInteger then none else some (.exitCodeTag i.arg c.tag)
      | .error fault => some (.badExitCode i.arg fault)
  | .ldv | .store =>
      if i.arg < f.locals then none else some (.noLocalSlot i.opcode i.arg f.locals)
  | .jmp | .jz | .jnz =>
      if i.arg < f.code.size then none else some (.badTarget i.opcode i.arg f.code.size)
  | .call =>
      match p.function i.arg with
      | .ok _ => none
      | .error fault => some (.badCallee i.arg fault)
  | _ => none

def checkOperands (p : Program) (f : LinkedFunction) (pc : Nat) :
    List Instruction → Except VerifyError Unit
  | [] => .ok ()
  | i :: rest =>
      match p.operandProblem? f i with
      | some problem => .error ⟨f.name, pc, problem⟩
      | none => p.checkOperands f (pc + 1) rest

/-! ## Stack heights -/

/-- How many operands the instruction pops and pushes in the function. -/
def stackEffect (p : Program) (f : LinkedFunction) (i : Instruction) : Nat × Nat :=
  match i.opcode with
  | .call =>
      match p.function i.arg with
      | .ok callee => (callee.arity, if callee.returnsValue then 1 else 0)
      | .error _ => (0, 0)
  | .ret => (if f.returnsValue then 1 else 0, 0)
  | op => op.stackEffect?.getD (0, 0)

end Program

/-- Where control can go after the instruction at `pc`. -/
def Instruction.successors (i : Instruction) (pc : Nat) : List Nat :=
  match i.opcode with
  | .ret | .halt => []
  | .jmp => [i.arg]
  | .jz | .jnz => [pc + 1, i.arg]
  | _ => [pc + 1]

/-- The heights found so far, and the places whose successors are still to be visited. -/
structure HeightSearch where
  heights : Array (Option Nat)
  pending : List Nat

namespace HeightSearch

def start (f : LinkedFunction) : HeightSearch :=
  ⟨(Array.replicate f.code.size none).setIfInBounds 0 (some f.arity), [0]⟩

def unknown (heights : Array (Option Nat)) : Nat := heights.countP (·.isNone)

/-- What is left to do: each place is visited at most once. -/
def work (s : HeightSearch) : Nat := unknown s.heights + s.pending.length

/-- Control arrives at `pc` with the given height. -/
def arrive (function : String) (height : Nat) (s : HeightSearch) (pc : Nat) :
    Except VerifyError HeightSearch :=
  if h : pc < s.heights.size then
    match s.heights[pc] with
    | none => .ok ⟨s.heights.set pc (some height), pc :: s.pending⟩
    | some known =>
        if known = height then .ok s
        else .error ⟨function, pc, .heightMismatch known height⟩
  else .ok s

def arriveAll (function : String) (height : Nat) (s : HeightSearch) :
    List Nat → Except VerifyError HeightSearch
  | [] => .ok s
  | pc :: rest =>
      match arrive function height s pc with
      | .ok s => arriveAll function height s rest
      | .error e => .error e

theorem work_of_arrive {function : String} {height : Nat} {s t : HeightSearch} {pc : Nat}
    (h : arrive function height s pc = .ok t) : t.work = s.work := by
  unfold arrive at h
  split at h
  · rename_i bound
    split at h
    · rename_i unset
      simp only [Except.ok.injEq] at h
      subst h
      have counted : 0 < s.heights.countP (·.isNone) :=
        Array.countP_pos_iff.mpr ⟨s.heights[pc], Array.getElem_mem bound, by simp [unset]⟩
      simp only [work, unknown, Array.countP_set bound, unset, List.length_cons]
      simp
      omega
    · split at h
      · simp only [Except.ok.injEq] at h
        rw [h]
      · simp at h
  · simp only [Except.ok.injEq] at h
    rw [h]

theorem work_of_arriveAll {function : String} {height : Nat} {s t : HeightSearch}
    {places : List Nat} (h : arriveAll function height s places = .ok t) : t.work = s.work := by
  induction places generalizing s with
  | nil =>
      simp only [arriveAll, Except.ok.injEq] at h
      rw [h]
  | cons pc rest ih =>
      simp only [arriveAll] at h
      split at h
      · rename_i u step
        rw [ih h, work_of_arrive step]
      · simp at h

/-- Visits the instruction at `pc`: it must not pop more than there is, and its successors are
entered with what it leaves. -/
def visit (p : Program) (f : LinkedFunction) (s : HeightSearch) (pc : Nat) :
    Except VerifyError HeightSearch :=
  match s.heights[pc]?.join, f.code[pc]? with
  | some height, some i =>
      if height < (p.stackEffect f i).1 then
        .error ⟨f.name, pc, .underflow i (p.stackEffect f i).1 height⟩
      else
        arriveAll f.name (height - (p.stackEffect f i).1 + (p.stackEffect f i).2) s
          (i.successors pc)
  | _, _ => .ok s

theorem work_of_visit {p : Program} {f : LinkedFunction} {s t : HeightSearch} {pc : Nat}
    (h : visit p f s pc = .ok t) : t.work = s.work := by
  unfold visit at h
  split at h
  · split at h
    · simp at h
    · exact work_of_arriveAll h
  · simp only [Except.ok.injEq] at h
    rw [h]

/-- Visits pending places, the latest first, until none is left. -/
def finish (p : Program) (f : LinkedFunction) (s : HeightSearch) :
    Except VerifyError (Array (Option Nat)) :=
  match _pending : s.pending with
  | [] => .ok s.heights
  | pc :: rest =>
      match _visited : visit p f ⟨s.heights, rest⟩ pc with
      | .ok t => finish p f t
      | .error e => .error e
termination_by s.work
decreasing_by
  rw [work_of_visit ‹_›]
  simp only [work, ‹s.pending = _›, List.length_cons]
  omega

end HeightSearch

namespace Program

/-- The stack height of each instruction that control can reach. -/
def stackHeights (p : Program) (f : LinkedFunction) :
    Except VerifyError (Array (Option Nat)) :=
  (HeightSearch.start f).finish p f

def verifyFunction (p : Program) (f : LinkedFunction) : Except VerifyError Unit :=
  match p.checkOperands f 0 f.code.toList with
  | .error e => .error e
  | .ok () =>
      match p.stackHeights f with
      | .error e => .error e
      | .ok _ => .ok ()

def verifyAll (p : Program) : List LinkedFunction → Except VerifyError Unit
  | [] => .ok ()
  | f :: rest =>
      match p.verifyFunction f with
      | .error e => .error e
      | .ok () => p.verifyAll rest

def verifyFrom (p : Program) (first : Nat) : Except VerifyError Unit :=
  p.verifyAll (p.functions.toList.drop first)

end Program

end StackMachine
