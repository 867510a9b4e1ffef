import StackMachine.CommandLine.Execute

/-! # The command

Reads the arguments and the files that they name, and executes the command.
-/

namespace StackMachine.CommandLine

def usageText : String :=
  "Usage: stackmachine [OPTIONS] <PROGRAM>\n\n"
    ++ "Arguments:\n"
    ++ "  <PROGRAM>  The .ball program (or .bimg image) to run\n\n"
    ++ "Options:\n"
    ++ "      --stdlib <FILE>          Standard library .ball file to load first\n"
    ++ "      --max-heap-size <BYTES>  Maximum heap footprint in bytes\n"
    ++ "      --no-gc                  Disable garbage collection\n"
    ++ "      --no-jit                 Never compile hot functions to native code\n"
    ++ "      --jit-threshold <N>      Calls before a function is compiled\n"
    ++ "      --disasm                 Disassemble instead of executing\n"
    ++ "      --emit-image <FILE>      Write a pre-linked image after loading\n"
    ++ "  -v, --verbose...             More logging (-v info, -vv debug, -vvv trace)\n"
    ++ "  -h, --help                   Print help\n"
    ++ "  -V, --version                Print version\n"

/-- The number of a failure, which may be given with its sign changed. -/
def errorNumber (code : UInt32) : Nat :=
  if code.toNat < 0x80000000 then code.toNat else 0x100000000 - code.toNat

def worded (code : UInt32) (details : String) : String :=
  match errorNumber code with
  | 2 => FileError.message .notFound
  | 13 => "Permission denied (os error 13)"
  | 20 => FileError.message .notADirectory
  | 21 => FileError.message .isADirectory
  | 36 => FileError.message .nameTooLong
  | n => s!"{details} (os error {n})"

def reasonOf (e : IO.Error) : String :=
  match e with
  | .otherError code details | .resourceBusy code details | .resourceVanished code details
  | .unsupportedOperation code details | .hardwareFault code details
  | .unsatisfiedConstraints code details | .illegalOperation code details
  | .protocolError code details | .timeExpired code details
  | .interrupted _ code details | .noFileOrDirectory _ code details
  | .alreadyExists _ code details | .invalidArgument _ code details
  | .permissionDenied _ code details | .resourceExhausted _ code details
  | .inappropriateType _ code details | .noSuchThing _ code details => worded code details
  | .unexpectedEof | .userError _ => toString e

/-- The levels that verbosities show. -/
def levelOf : Nat → Level
  | 0 => .warn
  | 1 => .info
  | 2 => .debug
  | _ => .trace

def readBytes (path : String) : IO (Except String (List UInt8)) := do
  try
    let bytes ← IO.FS.readBinFile path
    return .ok bytes.toList
  catch e => return .error (reasonOf e)

def writeBytes (path : String) (bytes : List UInt8) : IO (Except String Unit) := do
  try
    IO.FS.writeBinFile path ⟨bytes.toArray⟩
    return .ok ()
  catch e => return .error (reasonOf e)

def deliver (report : Report) (log : Log) : IO UInt32 := do
  let out ← IO.getStdout
  let err ← IO.getStderr
  for e in log.entries do
    err.putStrLn e.text
  out.putStr report.stdout
  out.flush
  err.putStr report.stderr
  return UInt32.ofNat report.exit

/-- Runs a loaded machine for as long as it takes. -/
partial def concludeUnbounded (o : Options) (m : Machine) (fuel : Nat) :
    IO (Report × Machine) := do
  match conclude o fuel m with
  | some result => return result
  | none => concludeUnbounded o m (2 * fuel)

def executeCommand (o : Options) : IO UInt32 := do
  let log := Log.empty (some (levelOf o.verbosity))
  let program ← readBytes o.program
  let library ← match o.library with
    | some path => readBytes path
    | none => pure (.error "")
  let read := fun path => if path == o.program then program else library
  match load o read log with
  | (m, .error e) => deliver (failure "" e) m.state.log
  | (m, .ok ()) =>
      let written ← match o.image with
        | some path => writeBytes path m.program.saveImage
        | none => pure (.ok ())
      match written with
      | .error reason => deliver (failure "" (.io reason)) m.state.log
      | .ok () =>
          let m := match o.image with
            | some path => noteImage m path
            | none => m
          let (report, m) ← concludeUnbounded o m 0x4000000000000000
          deliver report m.state.log

end StackMachine.CommandLine

open StackMachine StackMachine.CommandLine in
def main (args : List String) : IO UInt32 := do
  match request args with
  | .execute o => executeCommand o
  | .help => deliver ⟨0, usageText, ""⟩ (Log.empty none)
  | .version => deliver ⟨0, "stackmachine 0.1.0\n", ""⟩ (Log.empty none)
  | .misuse => deliver ⟨2, "", usageText⟩ (Log.empty none)
