import StackMachine.Program.File

/-! # Linking

A file's records count constants and functions from the start of the file. Linking moves them
to the ends of a program's pools, shifts every index by what the pools held before, and
verifies the functions that were added. What was added before a failure stays.
-/

namespace StackMachine

structure Relocation where
  constants : UInt32
  functions : UInt32
  deriving DecidableEq, Repr

namespace Relocation

def ofProgram (p : Program) : Relocation :=
  ⟨UInt32.ofNat p.constants.size, UInt32.ofNat p.functions.size⟩

/-- Shifts operands that refer to constants or functions; slots and targets stay. -/
def instruction (r : Relocation) (i : Instruction) : Instruction :=
  if i.opcode.refersToConstant then { i with operand := i.operand.map (· + r.constants) }
  else if i.opcode = .call then { i with operand := i.operand.map (· + r.functions) }
  else i

def function (r : Relocation) (f : FunctionRecord) : FunctionRecord :=
  { f with
    name := f.name + r.constants
    params := f.params + r.constants
    result := f.result + r.constants
    code := f.code.map r.instruction }

def field (r : Relocation) (f : FieldRecord) : FieldRecord :=
  ⟨f.name + r.constants, f.descriptor + r.constants⟩

def classRecord (r : Relocation) (c : ClassRecord) : ClassRecord :=
  ⟨c.name + r.constants, c.fields.map r.field, c.methods.map (· + r.functions)⟩

end Relocation

namespace Program

def addConstants (p : Program) (constants : List Constant) : Program :=
  constants.foldl (fun p c => (p.addConstant c).1) p

/-- Adds functions until one is refused; `number` counts them within their file. -/
def addFunctions (origin : String) (p : Program) (number : Nat) :
    List FunctionRecord → Program × Except LoadError Unit
  | [] => (p, .ok ())
  | f :: rest =>
      match p.addFunction f with
      | (p, .ok _) => addFunctions origin p (number + 1) rest
      | (p, .error fault) => (p, .error ⟨s!"{origin} function #{number}", .badFunction fault⟩)

def addClasses (origin : String) (p : Program) (number : Nat) :
    List ClassRecord → Program × Except LoadError Unit
  | [] => (p, .ok ())
  | c :: rest =>
      match p.addClass c with
      | (p, .ok _) => addClasses origin p (number + 1) rest
      | (p, .error fault) => (p, .error ⟨s!"{origin} class #{number}", .badClass fault⟩)

/-- Adds the records of a file and verifies its functions. -/
def link (p : Program) (origin : String) (file : ProgramFile) :
    Program × Except LoadError Unit :=
  let shift := Relocation.ofProgram p
  let withConstants := p.addConstants file.constants
  match addFunctions origin withConstants 0 (file.functions.map shift.function) with
  | (p', .error e) => (p', .error e)
  | (withFunctions, .ok ()) =>
      match addClasses origin withFunctions 0 (file.classes.map shift.classRecord) with
      | (p', .error e) => (p', .error e)
      | (linked, .ok ()) =>
          match linked.verifyFrom p.functions.size with
          | .error e => (linked, .error ⟨origin, .rejected e⟩)
          | .ok () => (linked, .ok ())

/-- A program after a load that may have failed, and what the load logged. -/
structure Loaded (α : Type) where
  program : Program
  log : List LogEntry
  result : Except LoadError α

/-- Reads a file and links it. Nothing is added unless the whole file can be read. -/
def load (p : Program) (input : List UInt8) (origin : String) : Loaded Counts :=
  match ProgramFile.parse origin input with
  | .error e => ⟨p, [], .error e⟩
  | .ok (file, trailing) =>
      let (linked, result) := p.link origin file
      let skipped : List LogEntry :=
        if trailing.isEmpty then []
        else [⟨.debug, s!"{origin}: ignoring {trailing.length} trailing bytes"⟩]
      let linking : LogEntry :=
        ⟨.debug, s!"linking {origin} at constant base {p.constants.size}, function base {p.functions.size}"⟩
      let log := skipped ++ linking :: growthEntries p linked
      match result with
      | .error e => ⟨linked, log, .error e⟩
      | .ok () =>
          ⟨linked, log ++ [⟨.info, s!"loaded {origin}: {file.counts.text}"⟩], .ok file.counts⟩

/-- The function that a program starts with: it takes nothing and returns nothing. -/
def entryPoint (p : Program) : Except LoadError LinkedFunction :=
  match p.function? entryName with
  | none => .error ⟨entryName, .noEntryPoint⟩
  | some f =>
      if f.params.isEmpty && f.result.isVoid then .ok f
      else
        .error ⟨entryName, .badEntryPoint
          (.invalidEntryPointSignature f.name (Descriptor.listText f.params) f.result.text)⟩

def entryEntries (p : Program) : List LogEntry :=
  match p.entryPoint with
  | .ok f => [⟨.info, s!"entry point {f.name}{f.signature}"⟩]
  | .error _ => []

def loadMain (p : Program) (input : List UInt8) (origin : String) : Loaded LinkedFunction :=
  let loaded := p.load input origin
  match loaded.result with
  | .error e => ⟨loaded.program, loaded.log, .error e⟩
  | .ok _ =>
      ⟨loaded.program, loaded.log ++ loaded.program.entryEntries, loaded.program.entryPoint⟩

end Program

end StackMachine
