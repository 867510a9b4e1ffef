import StackMachine.Heap.Allocation
import StackMachine.Native.Compiler

/-! # The state of a machine

What a run reads (its environment: limits, compiler and program) and what it changes (its state:
heap, call stack, what is known about native code, console and log).
-/

namespace StackMachine

structure Config where
  maxHeapBytes : Nat := 16777216
  gcEnabled : Bool := true
  jitEnabled : Bool := true
  jitThreshold : Nat := 100
  maxCallDepth : Nat := 10000
  deriving DecidableEq, Repr

def Config.describe (c : Config) : String :=
  s!"VmConfig \x7b max_heap_bytes: {c.maxHeapBytes}, gc_enabled: {c.gcEnabled}, jit_enabled: {c.jitEnabled}, jit_threshold: {c.jitThreshold}, max_call_depth: {c.maxCallDepth} \x7d"

/-! ## The console -/

/-- What was printed, and why printing or flushing fails, if it does. -/
structure Console where
  text : String
  writeError : Option String
  flushError : Option String
  deriving DecidableEq, Repr

namespace Console

def working : Console := ⟨"", none, none⟩

def cleared (c : Console) : Console := { c with text := "" }

/-- Why the text cannot be written, if it cannot; writing nothing always succeeds. -/
def writeFault? (c : Console) (s : String) : Option Fault :=
  if s.isEmpty then none else c.writeError.map Fault.io

def append (c : Console) (s : String) : Console := { c with text := c.text ++ s }

end Console

/-! ## Native code of functions -/

/-- How often a function was called, its native code, and whether that was given up. -/
structure NativeStatus where
  calls : Nat
  code : Option NativeCode
  disabled : Bool

namespace NativeStatus

def fresh : NativeStatus := ⟨0, none, false⟩

def maxCalls : Nat := 4294967295

def recordCall (s : NativeStatus) : NativeStatus :=
  { s with calls := min (s.calls + 1) maxCalls }

def install (s : NativeStatus) (code : NativeCode) : NativeStatus :=
  { s with code := some code }

/-- Gives native code up for good. -/
def disable (s : NativeStatus) : NativeStatus :=
  { s with code := none, disabled := true }

def describe (s : NativeStatus) : String :=
  s!"JitState \x7b calls: {s.calls}, compiled: {s.code.isSome}, disabled: {s.disabled} \x7d"

end NativeStatus

/-- The status of each function, by index; functions beyond the end have a fresh one. -/
abbrev NativeTable := Array NativeStatus

namespace NativeTable

def get (t : NativeTable) (index : Nat) : NativeStatus := t.getD index NativeStatus.fresh

def put (t : NativeTable) (index : Nat) (s : NativeStatus) : NativeTable :=
  if index < t.size then t.setIfInBounds index s
  else (t ++ Array.replicate (index - t.size) NativeStatus.fresh).push s

end NativeTable

/-! ## Environment and state -/

structure Environment where
  config : Config
  compiler : Option Compiler
  program : Program

structure State where
  heap : Heap
  frames : CallStack
  natives : NativeTable
  console : Console
  log : Log

namespace State

def start (config : Config) (console : Console) (log : Log) : State :=
  ⟨.empty config.maxHeapBytes config.gcEnabled, [], #[], console, log⟩

def note (s : State) (level : Level) (message : Unit → String) : State :=
  { s with log := s.log.note level message }

def noteAll (s : State) (entries : List LogEntry) : State :=
  { s with log := s.log.noteAll entries }

def setNative (s : State) (index : Nat) (status : NativeStatus) : State :=
  { s with natives := s.natives.put index status }

def disableNative (s : State) (index : Nat) : State :=
  s.setNative index (s.natives.get index).disable

end State

end StackMachine
