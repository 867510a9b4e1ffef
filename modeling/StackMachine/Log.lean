/-! # Log

Messages with a level of detail. A log has a threshold and keeps the messages that are at most
as detailed; without a threshold it keeps none, and no message is built.
-/

namespace StackMachine

inductive Level where
  | warn
  | info
  | debug
  | trace
  deriving DecidableEq, Repr

namespace Level

def detail : Level → Nat
  | .warn => 1
  | .info => 2
  | .debug => 3
  | .trace => 4

def label : Level → String
  | .warn => "WARN"
  | .info => "INFO"
  | .debug => "DEBUG"
  | .trace => "TRACE"

end Level

structure LogEntry where
  level : Level
  message : String
  deriving DecidableEq, Repr

def LogEntry.text (e : LogEntry) : String :=
  e.level.label ++ " " ++ e.message

structure Log where
  threshold : Option Level
  /-- The newest entry comes first. -/
  newestFirst : List LogEntry

namespace Log

def empty (threshold : Option Level) : Log := ⟨threshold, []⟩

def keeps (log : Log) (level : Level) : Bool :=
  match log.threshold with
  | none => false
  | some threshold => level.detail ≤ threshold.detail

def note (log : Log) (level : Level) (message : Unit → String) : Log :=
  if log.keeps level then { log with newestFirst := ⟨level, message ()⟩ :: log.newestFirst }
  else log

def noteAll (log : Log) (entries : List LogEntry) : Log :=
  entries.foldl (fun log e => log.note e.level fun _ => e.message) log

def entries (log : Log) : List LogEntry := log.newestFirst.reverse

def cleared (log : Log) : Log := empty log.threshold

end Log

end StackMachine
