import StackMachine.Bytes.Cursor
import StackMachine.Program.Verify

/-! # Load errors

Why a program could not be loaded: a cause, which also tells the stage of loading, and the
place in the input that it was found at.
-/

namespace StackMachine

inductive LoadCause where
  | unreadable (reason : String)
  | truncated (read : Truncation)
  | badMagic (found : Nat)
  | unsupportedVersion (major minor patch : UInt8)
  | unsupportedFlags (flags : Nat)
  | unknownTag (byte : Nat)
  | invalidText
  | unknownOpcode (code : Nat)
  | badFunction (fault : Fault)
  | badClass (fault : Fault)
  | rejected (error : VerifyError)
  | noEntryPoint
  | badEntryPoint (fault : Fault)
  | nothingLoaded
  | notEmpty
  deriving DecidableEq, Repr

def ProgramFile.magic : Nat := 0x62616c6c

def Program.entryName : String := "Main"

namespace LoadCause

def stage : LoadCause → String
  | .unreadable _ => "io"
  | .truncated _ => "ByteReader"
  | .badMagic _ | .unsupportedVersion _ _ _ | .unsupportedFlags _ => "header"
  | .unknownTag _ | .invalidText => "constants"
  | .unknownOpcode _ | .badFunction _ => "functions"
  | .badClass _ => "classes"
  | .rejected _ => "verify"
  | .noEntryPoint | .badEntryPoint _ | .nothingLoaded => "entry"
  | .notEmpty => "image"

def message : LoadCause → String
  | .unreadable reason => reason
  | .truncated read => read.message
  | .badMagic found =>
      "bad magic 0x" ++ Text.hex 8 found ++ ", expected 0x" ++ Text.hex 8 ProgramFile.magic
  | .unsupportedVersion major minor patch => s!"unsupported version {major}.{minor}.{patch}"
  | .unsupportedFlags flags => "unsupported flags 0x" ++ Text.hex 2 flags
  | .unknownTag byte => "unknown constant tag 0x" ++ Text.hex 2 byte
  | .invalidText => "string is not valid UTF-8"
  | .unknownOpcode code => "unknown opcode 0x" ++ Text.hex 4 code
  | .badFunction fault => fault.message
  | .badClass fault => fault.message
  | .rejected error => error.text
  | .noEntryPoint => s!"no function named `{Program.entryName}` is loaded"
  | .badEntryPoint fault => fault.message
  | .nothingLoaded => "no program has been loaded"
  | .notEmpty => "an image must be loaded into an empty VM"

end LoadCause

structure LoadError where
  context : String
  cause : LoadCause
  deriving DecidableEq, Repr

namespace LoadError

def stage (e : LoadError) : String := e.cause.stage

def message (e : LoadError) : String := e.cause.message

def text (e : LoadError) : String :=
  s!"[loader][{e.stage}] {e.context}: {e.message}"

end LoadError

end StackMachine
