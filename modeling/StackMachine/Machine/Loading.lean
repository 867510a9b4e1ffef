import StackMachine.Machine.Run
import StackMachine.Program.Image

/-! # Machines

A machine holds a program, the state that runs of it leave behind, and the function to start
with. Libraries and programs are linked onto what is loaded; an image replaces a machine's
program, which must not have functions yet. A load that fails leaves the entry as it was.
-/

namespace StackMachine

inductive MachineError where
  | load (e : LoadError)
  | runtime (e : RuntimeError)
  | image (e : ImageError)
  | io (reason : String)
  | usage (reason : String)
  deriving DecidableEq, Repr

def MachineError.text : MachineError → String
  | .load e => e.text
  | .runtime e => e.text
  | .image e => e.message
  | .io reason => s!"i/o error: {reason}"
  | .usage reason => reason

structure Machine where
  config : Config
  compiler : Option Compiler
  program : Program
  state : State
  entry : Option LinkedFunction

namespace Machine

/-- A machine without a program, with the bundled compiler if the configuration asks for one. -/
def new (config : Config) (console : Console) (log : Log) : Machine where
  config := config
  compiler := if config.jitEnabled then some .bundled else none
  program := .empty
  state := .start config console log
  entry := none

def environment (m : Machine) : Environment := ⟨m.config, m.compiler, m.program⟩

def note (m : Machine) (entries : List LogEntry) : Machine :=
  { m with state := m.state.noteAll entries }

/-- The machine with another program, of whose functions nothing native is known. -/
def replaceProgram (m : Machine) (p : Program) : Machine :=
  { m with program := p, state := { m.state with natives := #[] } }

/-! ## Loading -/

def loadLibrary (m : Machine) (input : List UInt8) (origin : String) :
    Machine × Except MachineError Counts :=
  let loaded := m.program.load input origin
  let m := { m with program := loaded.program }.note loaded.log
  match loaded.result with
  | .ok counts => (m, .ok counts)
  | .error e => (m, .error (.load e))

def loadProgram (m : Machine) (input : List UInt8) (origin : String) :
    Machine × Except MachineError Unit :=
  let loaded := m.program.loadMain input origin
  let m := { m with program := loaded.program }.note loaded.log
  match loaded.result with
  | .ok entry => ({ m with entry := some entry }, .ok ())
  | .error e => (m, .error (.load e))

def loadImage (m : Machine) (input : List UInt8) (origin : String) :
    Machine × Except MachineError Unit :=
  if m.program.functions.isEmpty then
    match Program.loadImage input with
    | (.error e, log) => (m.note log, .error (.image e))
    | (.ok program, log) =>
        let m := (m.replaceProgram program).note (log ++ program.entryEntries)
        match program.entryPoint with
        | .ok entry => ({ m with entry := some entry }, .ok ())
        | .error e => (m, .error (.load e))
  else (m, .error (.load ⟨origin, .notEmpty⟩))

/-! ## Running -/

def runFunction (m : Machine) (fuel : Nat) (f : LinkedFunction) :
    Option (Machine × Except RuntimeError Outcome) :=
  match ({ m.state with console := m.state.console.cleared } : State).run m.environment fuel f with
  | none => none
  | some (state, result) => some ({ m with state := state }, result)

def run (m : Machine) (fuel : Nat) : Option (Machine × Except MachineError Outcome) :=
  let m := { m with state := { m.state with console := m.state.console.cleared } }
  match m.entry with
  | none => some (m, .error (.load ⟨Program.entryName, .nothingLoaded⟩))
  | some entry =>
      match (m.note [⟨.info, s!"running {entry.name}"⟩]).runFunction fuel entry with
      | none => none
      | some (m, .ok outcome) => some (m, .ok outcome)
      | some (m, .error e) => some (m, .error (.runtime e))

end Machine

end StackMachine
