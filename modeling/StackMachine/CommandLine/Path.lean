/-! # Paths

The parts of a path, and what the name of a file ends in.
-/

namespace StackMachine.CommandLine

def rawParts (path : String) : List (List Char) :=
  path.toList.splitOn '/'

/-- The part that leads to where it stands. -/
def current : List Char := ['.']

/-- The part that leads to the outer directory. -/
def parent : List Char := ['.', '.']

def namedParts (path : String) : List (List Char) :=
  (rawParts path).filter fun part => !part.isEmpty

/-- The parts that lead somewhere: neither empty nor a single dot. -/
def parts (path : String) : List (List Char) :=
  (namedParts path).filter (· != current)

def endsInSlash (path : String) : Bool := path.toList.getLast? == some '/'

/-- What follows the last dot of a file name. A name without a dot, or with its only dot at the
start, has none. -/
def extensionOf (name : List Char) : Option (List Char) :=
  let after := (name.reverse.takeWhile (· != '.')).reverse
  let before := name.length - after.length - 1
  if name == parent || after.length == name.length || before == 0 then none else some after

def extension (path : String) : Option String :=
  ((parts path).getLast?.bind extensionOf).map String.ofList

end StackMachine.CommandLine
