import StackMachine.Native.Execute
import StackMachine.Native.Kind
import StackMachine.Native.Optimize

/-! # Compilation

A compiler says whether it can compile a function, and compiles it to code that can be called.
The bundled compiler takes functions whose integers are signed and all of 32 or all of 64 bits,
whose kinds are known in advance, and which do not call, allocate, print or halt.
-/

namespace StackMachine

/-- Code that can be called with words. A call is given fuel and gives nothing if it runs out. -/
structure NativeCode where
  arity : Nat
  invoke : Nat → List Int64 → Heap → Option (Heap × Except NativeError Int64)

structure Compiler where
  canCompile : Program → LinkedFunction → Bool × List LogEntry
  compile : Program → LinkedFunction → Except NativeError NativeCode × List LogEntry

def NativeFunction.toCode (f : NativeFunction) : NativeCode := ⟨f.arity, f.invoke⟩

/-! ## The lane of a function -/

def agreeWidth (f : LinkedFunction) (agreed : Option Width) (what : String) (w : Width) :
    Except NativeError (Option Width) :=
  if w ≠ .w32 ∧ w ≠ .w64 then .error (.unsupported f.name s!"{what} is {w.bits}-bit")
  else if agreed.all (· == w) then .ok (some w)
  else .error (.unsupported f.name "mixed integer widths")

/-- The width that a parameter or the result asks for. -/
def agreeType (f : LinkedFunction) (agreed : Option Width) (d : Descriptor) :
    Except NativeError (Option Width) :=
  match d with
  | .int ⟨true, w⟩ => agreeWidth f agreed "an integer" w
  | .array (.int ⟨true, w⟩) => agreeWidth f agreed "an array element" w
  | .array element => .error (.unsupported f.name s!"array of {element.text}")
  | .bool => .ok agreed
  | .void => .ok agreed
  | d => .error (.unsupported f.name s!"type {d.text}")

/-- The width that a constant of the code asks for. -/
def agreeConstant (p : Program) (f : LinkedFunction) (agreed : Option Width) (i : Instruction) :
    Except NativeError (Option Width) :=
  if i.opcode = .ldc then
    match p.constant i.arg with
    | .error fault => .error (.fault fault)
    | .ok c =>
        match c.tag with
        | .int ⟨true, .w32⟩ => agreeWidth f agreed "a constant" .w32
        | .int ⟨true, .w64⟩ => agreeWidth f agreed "a constant" .w64
        | .bool => .ok agreed
        | tag => .error (.unsupported f.name s!"{tag.name} constant")
  else .ok agreed

/-- The lane that all integers of the function agree on. -/
def selectLane (p : Program) (f : LinkedFunction) : Except NativeError Lane := do
  let agreed ← (f.params ++ [f.result]).foldlM (agreeType f) none
  let agreed ← f.code.toList.foldlM (agreeConstant p f) agreed
  return if agreed = some .w32 then .i32 else .i64

/-! ## The bundled compiler -/

/-- The lane of a function that can be compiled. -/
def analyze (p : Program) (f : LinkedFunction) : Except NativeError Lane := do
  let lane ← selectLane p f
  let _ ← f.kinds p lane
  return lane

/-- Whether native code can hold the step. -/
def Step.isNative : Step → Bool
  | .push _ => true
  | .op i =>
      match i.opcode with
      | .ldc | .call | .newarr | .print | .halt => false
      | _ => true

def checkSteps : List Step → Except NativeError Unit
  | [] => .ok ()
  | step :: rest =>
      match step with
      | .op i =>
          if step.isNative then checkSteps rest
          else .error (.unsupported "" i.opcode.mnemonic)
      | .push _ => checkSteps rest

def compileFunction (p : Program) (f : LinkedFunction) : Except NativeError NativeFunction := do
  let lane ← analyze p f
  let steps := optimize lane (← lower p f)
  checkSteps steps
  return ⟨f.name, f.arity, f.locals, lane, f.returnsValue, steps.toArray⟩

namespace Compiler

def bundled : Compiler where
  canCompile p f :=
    match analyze p f with
    | .ok _ => (true, [])
    | .error e => (false, [⟨.debug, s!"jit: {e.message}"⟩])
  compile p f :=
    match compileFunction p f with
    | .ok native =>
        (.ok native.toCode,
          [⟨.debug, s!"jit: compiled `{f.name}` ({native.code.size} ops from {f.code.size} instructions, {native.lane.bits}-bit lane)"⟩])
    | .error e => (.error e, [])

end Compiler

end StackMachine
