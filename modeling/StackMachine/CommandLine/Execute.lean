import StackMachine.CommandLine.Directory
import StackMachine.CommandLine.Options
import StackMachine.Machine.Loading
import StackMachine.Program.Listing

/-! # Commands

What a command does: it loads a program or an image, perhaps writes an image, and then shows the
program or runs it. Loading and running are apart, so that the image can be written in between.
A load that fails leaves a machine too, whose log says how far it came.
-/

namespace StackMachine.CommandLine

/-- How a command ended. -/
structure Report where
  exit : Nat
  stdout : String
  stderr : String
  deriving DecidableEq, Repr

/-- The report of a command that failed after it printed something. -/
def failure (stdout : String) (e : MachineError) : Report := ⟨1, stdout, e.text ++ "\n"⟩

/-- The status of a process that exits with the code: its lowest byte. -/
def exitStatus : Outcome → Nat
  | .returned => 0
  | .halted code => (code % 256).toNat

def checkExtension (path : String) : Except MachineError Unit :=
  if extension path = some "ball" then .ok ()
  else .error (.usage s!"expected a .ball or .bimg file, got {path}")

def readProgram (read : String → Except String (List UInt8)) (path : String) :
    Except MachineError (List UInt8) :=
  match read path with
  | .ok bytes => .ok bytes
  | .error reason => .error (.load ⟨path, .unreadable reason⟩)

def loadLibraryFile (read : String → Except String (List UInt8)) (path : String) :
    Change Machine MachineError Counts := do
  checkExtension path
  let bytes ← readProgram read path
  Change.ofFunction (·.loadLibrary bytes path)

def loadFiles (o : Options) (read : String → Except String (List UInt8)) :
    Change Machine MachineError Unit := do
  if extension o.program = some "bimg" then
    if o.library.isSome then
      throw (.usage
        "--stdlib cannot be combined with an image; images already contain their library")
    match read o.program with
    | .error reason => throw (.io reason)
    | .ok bytes => Change.ofFunction (·.loadImage bytes o.program)
  else
    checkExtension o.program
    if let some path := o.library then
      discard (loadLibraryFile read path)
    let bytes ← readProgram read o.program
    Change.ofFunction (·.loadProgram bytes o.program)

def load (o : Options) (read : String → Except String (List UInt8)) (log : Log) :
    Machine × Except MachineError Unit :=
  (loadFiles o read).apply (.new o.config .working log)

def noteImage (m : Machine) (path : String) : Machine :=
  m.note [⟨.info, s!"wrote image {path} ({m.program.saveImage.length} bytes)"⟩]

/-- Shows or runs what was loaded; a run that exceeds its fuel has no report. -/
def conclude (o : Options) (fuel : Nat) (m : Machine) : Option (Report × Machine) :=
  if o.listing then some (⟨0, m.program.listing ++ m.program.statistics, ""⟩, m)
  else
    match m.run fuel with
    | none => none
    | some (m, .ok outcome) => some (⟨exitStatus outcome, m.state.console.text, ""⟩, m)
    | some (m, .error e) => some (failure m.state.console.text e, m)

def executeIn (d : Directory) (o : Options) (fuel : Nat) : Option (Report × Directory) :=
  let read := fun path => (d.read path).mapError FileError.message
  match load o read (Log.empty none) with
  | (_, .error e) => some (failure "" e, d)
  | (m, .ok ()) =>
      let written := match o.image with
        | some path => d.write path m.program.saveImage
        | none => .ok d
      match written with
      | .error e => some (failure "" (.io e.message), d)
      | .ok d =>
          match conclude o fuel m with
          | none => none
          | some (report, _) => some (report, d)

end StackMachine.CommandLine
