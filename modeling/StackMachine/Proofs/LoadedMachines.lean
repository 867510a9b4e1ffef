import Mathlib
import StackMachine.Proofs.LoadHistories
import StackMachine.Proofs.NativeTransparency
import StackMachine.Proofs.Registry

/-! # Machines that have loaded and not yet run

Loads change the program, the entry and the log of a machine. The program stays consistent, and
the entry is the function that the program says to start with. So what is seen of the first run
depends on the configuration, the console, the program and the entry alone.
-/

namespace StackMachine

theorem Program.KeptBy.entryPoint {p q : Program} (kept : p.KeptBy q) {f : LinkedFunction}
    (found : p.entryPoint = .ok f) : q.entryPoint = .ok f := by
  unfold Program.entryPoint at found ⊢
  cases named : p.function? entryName with
  | none => simp [named] at found
  | some g =>
      rw [named] at found
      rw [kept.namedFunctions entryName g named]
      exact found

theorem Program.verifyAll_of_accepted {p : Program} {functions : List LinkedFunction}
    (accepted : ∀ f ∈ functions, p.verifyFunction f = .ok ()) : p.verifyAll functions = .ok () := by
  induction functions with
  | nil => rfl
  | cons f rest ih =>
      simp only [verifyAll, accepted f (List.mem_cons_self ..)]
      exact ih fun g member => accepted g (List.mem_cons_of_mem _ member)

/-- Neither the compiler that a configuration asks for nor the log shows in a run from a fresh
heap. -/
theorem State.yields_configured {config : Config} {console : Console} {log : Log}
    {program : Program} {entry : LinkedFunction} {o : Observation} :
    (State.start config console log).Yields
        ⟨config, if config.jitEnabled then some .bundled else none, program⟩ entry o
      ↔ (State.start config console (.empty none)).Yields ⟨config, none, program⟩ entry o := by
  by_cases enabled : config.jitEnabled = true
  · rw [if_pos enabled]
    have ready : Ready ⟨config, some .bundled, program⟩ _ := ready_start rfl console log entry
    rw [ready.yields_iff]
    exact State.yields_interpreted_congr ⟨config, some .bundled, program⟩ ⟨config, none, program⟩
      rfl rfl rfl
  · rw [if_neg enabled]
    exact State.yields_interpreted_congr ⟨config, none, program⟩ ⟨config, none, program⟩
      rfl rfl rfl

namespace Machine

/-! ## What loads keep -/

/-- The machine is as it was made, but for what it has loaded and logged. -/
structure Unrun (config : Config) (console : Console) (m : Machine) : Prop where
  configured : m.config = config
  compiler : m.compiler = if config.jitEnabled then some .bundled else none
  state : ∃ log, m.state = .start config console log

/-- The program is one that registration builds, and the entry is where it starts. -/
structure Settled (m : Machine) : Prop where
  program : m.program.Consistent
  entry : ∀ f, m.entry = some f → m.program.entryPoint = .ok f

section Loads

variable {config : Config} {console : Console} {m : Machine}

theorem Unrun.new (config : Config) (console : Console) (log : Log) :
    (Machine.new config console log).Unrun config console :=
  ⟨rfl, rfl, log, rfl⟩

theorem Unrun.of_log {m' : Machine} (unrun : m.Unrun config console)
    (same : m'.config = m.config ∧ m'.compiler = m.compiler) (log : Log)
    (state : m'.state = { m.state with natives := #[], log := log }) :
    m'.Unrun config console := by
  obtain ⟨before, started⟩ := unrun.state
  refine ⟨same.1.trans unrun.configured, same.2.trans unrun.compiler, log, ?_⟩
  rw [state, started]
  rfl

theorem Unrun.natives (unrun : m.Unrun config console) : m.state.natives = #[] := by
  obtain ⟨log, started⟩ := unrun.state
  rw [started]
  rfl

theorem Unrun.handle (unrun : m.Unrun config console) (request : LoadRequest) :
    (m.handle request).Unrun config console := by
  have natives := unrun.natives
  cases request with
  | library input origin =>
      show (m.loadLibrary input origin).1.Unrun config console
      unfold Machine.loadLibrary
      dsimp only
      split <;> exact unrun.of_log ⟨rfl, rfl⟩ _ (by rw [← natives]; rfl)
  | program input origin =>
      show (m.loadProgram input origin).1.Unrun config console
      unfold Machine.loadProgram
      dsimp only
      split <;> exact unrun.of_log ⟨rfl, rfl⟩ _ (by rw [← natives]; rfl)
  | image input origin =>
      show (m.loadImage input origin).1.Unrun config console
      unfold Machine.loadImage
      dsimp only
      split
      · split
        · exact unrun.of_log ⟨rfl, rfl⟩ _ (by rw [← natives]; rfl)
        · split <;> exact unrun.of_log ⟨rfl, rfl⟩ _ rfl
      · exact unrun

theorem Unrun.handleAll (unrun : m.Unrun config console) (requests : List LoadRequest) :
    (m.handleAll requests).Unrun config console := by
  induction requests generalizing m with
  | nil => exact unrun
  | cons request later ih => exact ih (unrun.handle request)

theorem Settled.new (config : Config) (console : Console) (log : Log) :
    (Machine.new config console log).Settled where
  program := .empty
  entry := by
    intro f set
    cases set

/-- A file's records are added, and the entry stays where the program starts. -/
theorem Settled.load (settled : m.Settled) (input : List UInt8) (origin : String) :
    (m.program.load input origin).program.Consistent
      ∧ ∀ f, m.entry = some f → (m.program.load input origin).program.entryPoint = .ok f := by
  have grown := Program.GrowsTo.load m.program input origin
  refine ⟨grown.consistent settled.program, ?_⟩
  intro f set
  exact grown.keptBy.entryPoint (settled.entry f set)

theorem Settled.handle (settled : m.Settled) (request : LoadRequest) :
    (m.handle request).Settled := by
  cases request with
  | library input origin =>
      obtain ⟨consistent, entry⟩ := settled.load input origin
      show (m.loadLibrary input origin).1.Settled
      unfold Machine.loadLibrary
      dsimp only
      split <;> exact ⟨consistent, entry⟩
  | program input origin =>
      obtain ⟨consistent, entry⟩ := settled.load input origin
      show (m.loadProgram input origin).1.Settled
      unfold Machine.loadProgram Program.loadMain
      dsimp only
      cases (m.program.load input origin).result with
      | error e => exact ⟨consistent, entry⟩
      | ok counts =>
          dsimp only
          cases found : (m.program.load input origin).program.entryPoint with
          | error e => exact ⟨consistent, entry⟩
          | ok f =>
              refine ⟨consistent, ?_⟩
              intro g set
              cases set
              exact found
  | image input origin =>
      show (m.loadImage input origin).1.Settled
      unfold Machine.loadImage
      by_cases empty : m.program.functions.isEmpty = true
      · rw [if_pos empty]
        cases loaded : Program.loadImage input with
        | mk result log =>
            cases result with
            | error e => exact ⟨settled.program, settled.entry⟩
            | ok p =>
                have consistent := Program.consistent_of_loadImage loaded
                dsimp only
                cases found : p.entryPoint with
                | error e =>
                    refine ⟨consistent, ?_⟩
                    intro f set
                    have member := (Program.entryPoint_spec (settled.entry f set)).1
                    rw [Array.isEmpty_iff.mp empty] at member
                    simp at member
                | ok f =>
                    refine ⟨consistent, ?_⟩
                    intro g set
                    cases set
                    exact found
      · rw [if_neg empty]
        exact settled

theorem Settled.handleAll (settled : m.Settled) (requests : List LoadRequest) :
    (m.handleAll requests).Settled := by
  induction requests generalizing m with
  | nil => exact settled
  | cons request later ih => exact ih (settled.handle request)

end Loads

/-! ## Loads that succeed -/

def Accepts (m : Machine) : LoadRequest → Prop
  | .library input origin => ∃ counts, (m.loadLibrary input origin).2 = .ok counts
  | .program input origin => (m.loadProgram input origin).2 = .ok ()
  | .image input origin => (m.loadImage input origin).2 = .ok ()

/-- Each load succeeds, on the machine that the loads before it leave. -/
def AcceptsAll (m : Machine) : List LoadRequest → Prop
  | [] => True
  | request :: later => m.Accepts request ∧ (m.handle request).AcceptsAll later

section Accepted

variable {m : Machine}

theorem result_of_loadLibrary {input : List UInt8} {origin : String} {counts : Counts}
    (accepted : (m.loadLibrary input origin).2 = .ok counts) :
    (m.program.load input origin).result = .ok counts := by
  unfold loadLibrary at accepted
  dsimp only at accepted
  split at accepted
  · rename_i succeeded
    cases accepted
    exact succeeded
  · cases accepted

theorem result_of_loadProgram {input : List UInt8} {origin : String}
    (accepted : (m.loadProgram input origin).2 = .ok ()) :
    ∃ counts, (m.program.load input origin).result = .ok counts := by
  unfold loadProgram Program.loadMain at accepted
  dsimp only at accepted
  cases result : (m.program.load input origin).result with
  | error e =>
      rw [result] at accepted
      cases accepted
  | ok counts => exact ⟨counts, rfl⟩

theorem program_of_loadLibrary (m : Machine) (input : List UInt8) (origin : String) :
    (m.loadLibrary input origin).1.program = (m.program.load input origin).program := by
  unfold loadLibrary
  dsimp only
  split <;> rfl

theorem program_of_loadProgram (m : Machine) (input : List UInt8) (origin : String) :
    (m.loadProgram input origin).1.program = (m.program.load input origin).program := by
  unfold loadProgram Program.loadMain
  dsimp only
  cases (m.program.load input origin).result with
  | error e => rfl
  | ok counts =>
      dsimp only
      split <;> rfl

theorem entry_of_loadProgram {input : List UInt8} {origin : String}
    (accepted : (m.loadProgram input origin).2 = .ok ()) :
    ∃ entry, (m.loadProgram input origin).1.entry = some entry := by
  unfold loadProgram at accepted ⊢
  dsimp only at accepted ⊢
  split at accepted
  · rename_i entry _
    exact ⟨entry, rfl⟩
  · cases accepted

theorem leaves_of_accepts {request : LoadRequest} (accepted : m.Accepts request) :
    m.leaves request = [] := by
  cases request with
  | library input origin =>
      obtain ⟨counts, succeeded⟩ := accepted
      simp only [leaves, result_of_loadLibrary succeeded]
  | program input origin =>
      obtain ⟨counts, succeeded⟩ := result_of_loadProgram accepted
      simp only [leaves, succeeded]
  | image input origin => rfl

theorem leftBehind_of_acceptsAll {requests : List LoadRequest} (accepted : m.AcceptsAll requests) :
    m.leftBehind requests = [] := by
  induction requests generalizing m with
  | nil => rfl
  | cons request later ih =>
      rw [leftBehind, leaves_of_accepts accepted.1, ih accepted.2, List.append_nil]

/-- Where every load succeeds, the whole program is verified. -/
theorem verified_of_acceptsAll {config : Config} {console : Console} {log : Log}
    {requests : List LoadRequest}
    (accepted : (Machine.new config console log).AcceptsAll requests) :
    ((Machine.new config console log).handleAll requests).program.verifyFrom 0 = .ok () := by
  have vetted := (Vetted.new config console log).handleAll requests
  rw [leftBehind_of_acceptsAll accepted] at vetted
  refine Program.verifyAll_of_accepted ?_
  intro f member
  rcases vetted.functions f (by simpa using member) with fine | left
  · exact fine
  · cases left

end Accepted

/-! ## The first run -/

def Finishes (m : Machine) (console : Console) (result : Except MachineError Outcome) : Prop :=
  ∃ fuel m', m.run fuel = some (m', result) ∧ m'.state.console = console

theorem finishes_of_run {m : Machine} {fuel : Nat} {console : Console}
    {result : Except MachineError Outcome}
    (run : (m.run fuel).map (fun ran => (ran.1.state.console, ran.2)) = some (console, result)) :
    m.Finishes console result := by
  obtain ⟨ran, finished, seen⟩ := Option.map_eq_some_iff.mp run
  cases seen
  exact ⟨fuel, ran.1, finished, rfl⟩

theorem run_eq {m : Machine} {entry : LinkedFunction} (set : m.entry = some entry) :
    ∃ log, ∀ fuel, m.run fuel
      = (({ m.state with console := m.state.console.cleared, log := log } : State).run
          m.environment fuel entry).map fun ran =>
            ({ m with state := ran.1 }, ran.2.mapError MachineError.runtime) := by
  refine ⟨m.state.log.noteAll [⟨.info, s!"running {entry.name}"⟩], ?_⟩
  intro fuel
  unfold Machine.run Machine.runFunction
  rw [set]
  dsimp only [Machine.note, Machine.environment, State.noteAll, Console.cleared]
  split
  · rename_i unfinished
    split at unfinished
    · rename_i ran
      rw [ran]
      rfl
    · cases unfinished
  · rename_i ended
    split at ended
    · cases ended
    · rename_i ran
      cases ended
      rw [ran]
      rfl
  · rename_i ended
    split at ended
    · cases ended
    · rename_i ran
      cases ended
      rw [ran]
      rfl

/-- What is seen of a first run is what is seen of the interpreter's run from a fresh heap. -/
theorem Unrun.finishes_iff {config : Config} {console out : Console} {m : Machine}
    {entry : LinkedFunction} {result : Except MachineError Outcome}
    (unrun : m.Unrun config console) (set : m.entry = some entry) :
    m.Finishes out result
      ↔ ∃ o : Observation,
          (State.start config console.cleared (.empty none)).Yields
            ⟨config, none, m.program⟩ entry o
          ∧ o.console = out ∧ o.result.mapError MachineError.runtime = result := by
  obtain ⟨log, run⟩ := run_eq set
  obtain ⟨before, started⟩ := unrun.state
  have first : ({ m.state with console := m.state.console.cleared, log := log } : State)
      = .start config console.cleared log := by
    rw [started]
    rfl
  have environment : m.environment
      = ⟨config, if config.jitEnabled then some .bundled else none, m.program⟩ := by
    rw [environment, unrun.configured, unrun.compiler]
  rw [first, environment] at run
  constructor
  · rintro ⟨fuel, m', finished, rfl⟩
    rw [run, Option.map_eq_some_iff] at finished
    obtain ⟨ran, ended, same⟩ := finished
    cases same
    exact ⟨_, State.yields_configured.mp ⟨fuel, ran.1, ran.2, ended, rfl⟩, rfl, rfl⟩
  · rintro ⟨o, yields, rfl, rfl⟩
    obtain ⟨fuel, t, result, ended, rfl⟩ := State.yields_configured.mpr yields
    refine ⟨fuel, { m with state := t }, ?_, rfl⟩
    rw [run, ended]
    rfl

end Machine

end StackMachine
