import StackMachine.Machine.State

/-! # Options

The arguments of the command line. Options may stand before and after the program; one that
takes a value has it after an equals sign or in the next argument, which must not look like an
option itself. A double dash ends the options. Only the verbosity may be given more than once.
-/

namespace StackMachine.CommandLine

structure Options where
  program : String
  library : Option String
  maxHeapSize : Option Nat
  noGc : Bool
  noJit : Bool
  jitThreshold : Option Nat
  listing : Bool
  image : Option String
  verbosity : Nat
  deriving DecidableEq, Repr

def Options.config (o : Options) : Config :=
  let standard : Config := {}
  { maxHeapBytes := o.maxHeapSize.getD standard.maxHeapBytes
    gcEnabled := !o.noGc
    jitEnabled := !o.noJit
    jitThreshold := o.jitThreshold.getD standard.jitThreshold
    maxCallDepth := standard.maxCallDepth }

/-- What the arguments ask for. -/
inductive Request where
  | execute (o : Options)
  | help
  | version
  | misuse
  deriving DecidableEq, Repr

/-- What was read of the arguments so far. -/
structure Draft where
  program : Option String := none
  library : Option String := none
  maxHeapSize : Option Nat := none
  noGc : Bool := false
  noJit : Bool := false
  jitThreshold : Option Nat := none
  listing : Bool := false
  image : Option String := none
  verbosity : Nat := 0

def Draft.finish (d : Draft) : Request :=
  match d.program with
  | none => .misuse
  | some program =>
      .execute ⟨program, d.library, d.maxHeapSize, d.noGc, d.noJit, d.jitThreshold, d.listing,
        d.image, d.verbosity⟩

def digits? (digits : List Char) : Option Nat :=
  if digits.isEmpty || !digits.all Char.isDigit then none
  else some (digits.foldl (fun n c => 10 * n + (c.toNat - '0'.toNat)) 0)

/-- A number of bytes: decimal, perhaps with a plus sign, and within the address space. -/
def byteCount? (text : String) : Option Nat :=
  let n? := match text.toList with
    | '+' :: digits => digits? digits
    | digits => digits? digits
  n?.filter (· < addressSpace)

/-- A number of calls: decimal, perhaps with a sign, and from 0 to the greatest count. -/
def callCount? (text : String) : Option Nat :=
  match text.toList with
  | '-' :: digits => (digits? digits).filter (· == 0)
  | '+' :: digits => (digits? digits).filter (· ≤ NativeStatus.maxCalls)
  | digits => (digits? digits).filter (· ≤ NativeStatus.maxCalls)

/-- A path is any text but the empty one. -/
def path? (text : String) : Option String :=
  if text.isEmpty then none else some text

def setOnce {α : Type} (old : Option α) (new : Option α) : Option α :=
  match old with
  | none => new
  | some _ => none

def Draft.flag? (d : Draft) (name : String) : Option Draft :=
  match name with
  | "no-gc" => if d.noGc then none else some { d with noGc := true }
  | "no-jit" => if d.noJit then none else some { d with noJit := true }
  | "disasm" => if d.listing then none else some { d with listing := true }
  | "verbose" => some { d with verbosity := d.verbosity + 1 }
  | _ => none

def takesValue (name : String) : Bool :=
  name == "stdlib" || name == "emit-image" || name == "max-heap-size"
    || name == "jit-threshold"

def Draft.value? (d : Draft) (name value : String) : Option Draft :=
  match name with
  | "stdlib" =>
      (setOnce d.library (path? value)).map fun path => { d with library := some path }
  | "emit-image" =>
      (setOnce d.image (path? value)).map fun path => { d with image := some path }
  | "max-heap-size" =>
      (setOnce d.maxHeapSize (byteCount? value)).map fun n =>
        { d with maxHeapSize := some n }
  | "jit-threshold" =>
      (setOnce d.jitThreshold (callCount? value)).map fun n =>
        { d with jitThreshold := some n }
  | _ => none

def Draft.positional? (d : Draft) (text : String) : Option Draft :=
  (setOnce d.program (path? text)).map fun path => { d with program := some path }

def readPositional (d : Draft) : List String → Request
  | [] => d.finish
  | arg :: rest =>
      match d.positional? arg with
      | some d => readPositional d rest
      | none => .misuse

/-- What a group of one-letter flags makes of the draft: a new one, or an end of the reading. -/
def readLetters (d : Draft) : List Char → Draft ⊕ Request
  | [] => .inl d
  | 'v' :: rest => readLetters { d with verbosity := d.verbosity + 1 } rest
  | 'h' :: _ => .inr .help
  | 'V' :: _ => .inr .version
  | _ :: _ => .inr .misuse

/-- How an argument is to be taken. -/
inductive Argument where
  | endOfOptions
  | long (name : String) (value : Option String)
  | letters (letters : List Char)
  | positional

def classify (arg : String) : Argument :=
  match arg.toList with
  | ['-', '-'] => .endOfOptions
  | '-' :: '-' :: text =>
      let name := String.ofList (text.takeWhile (· != '='))
      match text.dropWhile (· != '=') with
      | [] => .long name none
      | _ :: value => .long name (some (String.ofList value))
  | '-' :: c :: rest => .letters (c :: rest)
  | _ => .positional

/-- Whether the argument can be the value of an option before it. -/
def isValue (arg : String) : Bool :=
  match classify arg with
  | .positional => true
  | _ => false

def readArguments (d : Draft) : List String → Request
  | [] => d.finish
  | arg :: rest =>
      match classify arg with
      | .endOfOptions => readPositional d rest
      | .positional =>
          match d.positional? arg with
          | some d => readArguments d rest
          | none => .misuse
      | .letters letters =>
          match readLetters d letters with
          | .inl d => readArguments d rest
          | .inr request => request
      | .long "help" none => .help
      | .long "version" none => .version
      | .long name (some value) =>
          match d.value? name value with
          | some d => readArguments d rest
          | none => .misuse
      | .long name none =>
          if takesValue name then
            match rest with
            | value :: rest =>
                if isValue value then
                  match d.value? name value with
                  | some d => readArguments d rest
                  | none => .misuse
                else .misuse
            | [] => .misuse
          else
            match d.flag? name with
            | some d => readArguments d rest
            | none => .misuse

def request (args : List String) : Request := readArguments {} args

end StackMachine.CommandLine
