import StackMachine.CommandLine.Path

/-! # Directories

The files that a command can see: a directory, with the directories that the names of its files
imply. Around it there are only the outer directories, up to the root, which is its own parent;
what is written there is not seen.

A path is followed part by part. Every part but the last must lead to a directory; a single dot
leads to where it stands, two dots lead to the outer directory.
-/

namespace StackMachine.CommandLine

inductive FileError where
  | notFound
  | notADirectory
  | isADirectory
  | nameTooLong
  deriving DecidableEq, Repr

def FileError.message : FileError → String
  | .notFound => "No such file or directory (os error 2)"
  | .notADirectory => "Not a directory (os error 20)"
  | .isADirectory => "Is a directory (os error 21)"
  | .nameTooLong => "File name too long (os error 36)"

/-- Files by name, with their contents. -/
abbrev Directory := List (String × List UInt8)

/-- The name of a place in a directory: its parts, the last one first. -/
abbrev Place := List (List Char)

/-- A directory that a path has led to. -/
inductive Location where
  | inside (place : Place)
  /-- One of the outer directories. -/
  | outside
  deriving DecidableEq, Repr

namespace Location

/-- Where a path starts: an absolute one at the root. -/
def start (path : String) : Location :=
  if path.toList.head? == some '/' then .outside else .inside []

def outer : Location → Location
  | .inside (_ :: place) => .inside place
  | _ => .outside

end Location

/-- What a path names: a directory that there is, or a name in one, perhaps with a slash after
it. -/
inductive Target where
  | directory
  | entry (here : Location) (name : List Char) (slash : Bool)
  deriving DecidableEq, Repr

def maxPathBytes : Nat := 4095

def maxNameBytes : Nat := 255

def isTooLong (name : List Char) : Bool :=
  decide (maxNameBytes < (String.ofList name).utf8ByteSize)

namespace Directory

def placeOf (name : String) : Place := (parts name).reverse

def file? (d : Directory) (place : Place) : Option (List UInt8) :=
  (d.find? fun file => placeOf file.1 == place).map (·.2)

/-- Whether the place is the directory itself or implied by the name of a file. -/
def isDirectory (d : Directory) (place : Place) : Bool :=
  place.isEmpty || d.any fun file => place.isSuffixOf (placeOf file.1).tail

/-- Goes from a directory to a part of it. -/
def enter (d : Directory) (here : Location) (part : List Char) : Except FileError Location :=
  if part == current then .ok here
  else if part == parent then .ok here.outer
  else if isTooLong part then .error .nameTooLong
  else
    match here with
    | .outside => .error .notFound
    | .inside place =>
        if d.isDirectory (part :: place) then .ok (.inside (part :: place))
        else if (d.file? (part :: place)).isSome then .error .notADirectory
        else .error .notFound

/-- Follows parts that all must lead to directories. -/
def walk (d : Directory) (here : Location) : List (List Char) → Except FileError Location
  | [] => .ok here
  | part :: rest => do d.walk (← d.enter here part) rest

/-- Follows a path up to its last part. -/
def resolve (d : Directory) (path : String) : Except FileError Target :=
  if path.isEmpty then .error .notFound
  else if maxPathBytes < path.utf8ByteSize then .error .nameTooLong
  else
    match (namedParts path).reverse with
    | [] => .ok .directory
    | last :: before => do
        let here ← d.walk (.start path) before.reverse
        if last == current || last == parent then return .directory
        else return .entry here last (endsInSlash path)

def read (d : Directory) (path : String) : Except FileError (List UInt8) :=
  match d.resolve path with
  | .error e => .error e
  | .ok .directory => .error .isADirectory
  | .ok (.entry here name slash) =>
      if isTooLong name then .error .nameTooLong
      else
        match here with
        | .outside => .error .notFound
        | .inside place =>
            match d.file? (name :: place) with
            | some bytes => if slash then .error .notADirectory else .ok bytes
            | none => .error (if d.isDirectory (name :: place) then .isADirectory else .notFound)

def put (d : Directory) (place : Place) (bytes : List UInt8) : Directory :=
  if (d.file? place).isSome then
    d.map fun file => if placeOf file.1 == place then (file.1, bytes) else file
  else d ++ [(String.ofList (List.intercalate ['/'] place.reverse), bytes)]

/-- The directory with the file written, new or anew. A file cannot be made under a name that
ends in a slash. -/
def write (d : Directory) (path : String) (bytes : List UInt8) : Except FileError Directory :=
  match d.resolve path with
  | .error e => .error e
  | .ok .directory => .error .isADirectory
  | .ok (.entry here name slash) =>
      if slash then .error .isADirectory
      else if isTooLong name then .error .nameTooLong
      else
        match here with
        | .outside => .ok d
        | .inside place =>
            if d.isDirectory (name :: place) then .error .isADirectory
            else .ok (d.put (name :: place) bytes)

/-- The files of `after` that `before` does not have, or has with other contents. -/
def changes (before after : Directory) : Directory :=
  after.filter fun file => !before.contains file

end Directory

end StackMachine.CommandLine
