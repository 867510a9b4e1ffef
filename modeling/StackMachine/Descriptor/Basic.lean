import StackMachine.Value

/-! # Type descriptors

The types of parameters, results, fields and array elements. A descriptor describes values by
their tag: every reference fits every array and record type.
-/

namespace StackMachine

inductive Descriptor where
  | int (kind : IntKind)
  | bool
  | string
  | array (element : Descriptor)
  | record (name : String)
  | void
  deriving DecidableEq, Repr

namespace Descriptor

def isVoid : Descriptor → Bool
  | .void => true
  | _ => false

def isReference : Descriptor → Bool
  | .array _ => true
  | .record _ => true
  | _ => false

def element? : Descriptor → Option Descriptor
  | .array element => some element
  | _ => none

/-- The spelling of the descriptor. -/
def text : Descriptor → String
  | .int kind => kind.name ++ ";"
  | .bool => "B;"
  | .string => "String;"
  | .array element => "[" ++ element.text
  | .record name => name ++ ";"
  | .void => "void;"

def listText (params : List Descriptor) : String :=
  String.join (params.map text)

/-- The descriptor written out as a term. -/
def describe : Descriptor → String
  | .int kind => s!"Int \x7b signed: {kind.signed}, bits: {kind.width.bits} \x7d"
  | .bool => "Bool"
  | .string => "String"
  | .array element => s!"Array({element.describe})"
  | .record name => s!"Class(\"{name}\")"
  | .void => "Void"

/-- Whether the value has the tag that the descriptor asks for. -/
def admits : Descriptor → Value → Bool
  | .int kind, .int n => kind == n.kind
  | .bool, .bool _ => true
  | .string, .str _ => true
  | .array _, .ref _ => true
  | .record _, .ref _ => true
  | _, _ => false

/-- The integer type's value congruent to `n`. -/
def wrapInt? : Descriptor → Int → Option Value
  | .int kind, n => some (.ofInt kind n)
  | _, _ => none

/-- What a slot of the type holds at first; `void;` has no slots. -/
def default? : Descriptor → Option Value
  | .int kind => some (.ofInt kind 0)
  | .bool => some (.bool false)
  | .string => some (.str "")
  | .array _ => some (.ref .null)
  | .record _ => some (.ref .null)
  | .void => none

/-- The bytes of a field in the layout of a record. -/
def fieldSize : Descriptor → Nat
  | .int kind => kind.width.bytes
  | .bool => 1
  | .string => 4
  | .array _ => 4
  | .record _ => 4
  | .void => 0

end Descriptor

end StackMachine
