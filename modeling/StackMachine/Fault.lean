/-! # Faults

What registering, verifying or running a program can fail with. A fault carries its cause;
`Fault.message` is the only place that words it.
-/

namespace StackMachine

inductive Entity where
  | constant
  | function
  | record
  | field
  deriving DecidableEq, Repr

def Entity.label : Entity → String
  | .constant => "constant"
  | .function => "function"
  | .record => "class"
  | .field => "field"

inductive Fault where
  | duplicateDefinition (entity : Entity) (name : String)
  | indexOutOfRange (pool : Entity) (index size : Nat)
  | malformedName (index : Nat) (tag : String)
  | malformedDescriptor (text : String)
  | malformedConstant (index : Nat) (reason : String)
  | unsupportedConstant (index : Nat) (tag : String)
  | stackUnderflow
  | noActiveFrame
  | callDepthExceeded (limit : Nat)
  | operandStackUnderflow (operation : String) (needed found : Nat)
  | localOutOfRange (index count : Nat)
  | typeMismatch (operation detail : String)
  | divisionByZero
  | jumpOutOfBounds (target length : Nat)
  | notAnArray (object : String)
  | indexOutOfBounds (index : Int) (length : Nat)
  | invalidArraySize (size : Int)
  | invalidHeapRef (id : Nat)
  | heapExhausted (requested used limit : Nat)
  | missingReturn (function : String)
  | returnTypeMismatch (function expected found : String)
  | invalidEntryPointSignature (name params result : String)
  | io (reason : String)
  deriving DecidableEq, Repr

def Fault.message : Fault → String
  | .duplicateDefinition entity name => s!"duplicate definition of {entity.label} `{name}`"
  | .indexOutOfRange pool index size =>
      s!"{pool.label} index {index} out of range (size {size})"
  | .malformedName index tag => s!"name constant #{index} is not a string (tag {tag})"
  | .malformedDescriptor text => s!"malformed type descriptor `{text}`"
  | .malformedConstant index reason => s!"malformed constant #{index}: {reason}"
  | .unsupportedConstant index tag =>
      s!"constant #{index} with tag {tag} cannot be loaded as a value"
  | .stackUnderflow => "call stack underflow"
  | .noActiveFrame => "no active frame"
  | .callDepthExceeded limit => s!"call depth limit exceeded ({limit})"
  | .operandStackUnderflow operation needed found =>
      s!"operand stack underflow in {operation}: needed {needed}, found {found}"
  | .localOutOfRange index count => s!"local slot {index} out of range ({count} locals)"
  | .typeMismatch operation detail => s!"type mismatch in {operation}: {detail}"
  | .divisionByZero => "division by zero"
  | .jumpOutOfBounds target length =>
      s!"jump target {target} out of bounds (code length {length})"
  | .notAnArray object => s!"object is not an array: {object}"
  | .indexOutOfBounds index length =>
      s!"index {index} out of bounds for array of length {length}"
  | .invalidArraySize size => s!"invalid array size {size}"
  | .invalidHeapRef id => s!"invalid heap reference #{id}"
  | .heapExhausted requested used limit =>
      s!"heap exhausted: {requested} bytes requested, {used} of {limit} bytes in use"
  | .missingReturn function =>
      s!"function `{function}` reached the end of its code without a return"
  | .returnTypeMismatch function expected found =>
      s!"`{function}` must return {expected}, got {found}"
  | .invalidEntryPointSignature name params result =>
      s!"entry point `{name}` must take no parameters and return void;, found ({params}) -> {result}"
  | .io reason => s!"i/o error: {reason}"

end StackMachine
