import StackMachine.Bytes.Word
import StackMachine.Text.Quoted
import StackMachine.Value

/-! # Constants

An entry of the constant pool is a tag and its payload as it stands in the file: integers are
big-endian and as wide as their kind, a boolean is one byte, strings and class names are UTF-8.
The payload is decoded at each use, and may turn out not to be one.
-/

namespace StackMachine

inductive ConstantTag where
  | int (kind : IntKind)
  | string
  | bool
  | className
  deriving DecidableEq, Repr

namespace ConstantTag

def all : List ConstantTag :=
  [.int .u8, .int .u16, .int .u32, .int .i32, .int .i16, .int .i8, .int .u64, .int .i64,
   .int .u128, .int .i128, .string, .bool, .className]

def ordinal (tag : ConstantTag) : Nat := all.idxOf tag

def ofOrdinal? (n : Nat) : Option ConstantTag := all[n]?

/-- The byte that stands for the tag in program files. -/
def code (tag : ConstantTag) : UInt8 := UInt8.ofNat (tag.ordinal + 1)

def ofCode? (byte : Nat) : Option ConstantTag :=
  match byte with
  | 0 => none
  | n + 1 => ofOrdinal? n

def name : ConstantTag → String
  | .int kind => kind.name
  | .string => "String"
  | .bool => "Bool"
  | .className => "Class"

/-- The length of the payload, where the tag fixes it. -/
def width? : ConstantTag → Option Nat
  | .int kind => some kind.width.bytes
  | .bool => some 1
  | .string | .className => none

def isInteger : ConstantTag → Bool
  | .int _ => true
  | _ => false

def isText : ConstantTag → Bool
  | .string | .className => true
  | _ => false

theorem mem_all (tag : ConstantTag) : tag ∈ all := by
  cases tag with
  | int kind =>
      obtain ⟨signed, width⟩ := kind
      cases signed <;> cases width <;> decide
  | _ => decide

end ConstantTag

structure Constant where
  tag : ConstantTag
  payload : List UInt8
  deriving DecidableEq, Repr

namespace Constant

def ofInt (n : FixedInt) : Constant :=
  ⟨.int n.kind, Bytes.ofNat n.kind.width.bytes (n.val % n.kind.width.modulus).toNat⟩

def ofBool (b : Bool) : Constant := ⟨.bool, [if b then 1 else 0]⟩

def ofString (s : String) : Constant := ⟨.string, Bytes.ofString s⟩

def ofClassName (s : String) : Constant := ⟨.className, Bytes.ofString s⟩

def text? (c : Constant) : Option String :=
  if c.tag.isText then Bytes.toString? c.payload else none

def widthError? (c : Constant) : Option String :=
  match c.tag.width? with
  | none => none
  | some width =>
      if c.payload.length = width then none
      else some s!"{c.tag.name} payload is {c.payload.length} bytes, expected {width}"

/-- The value that the constant stands for; `index` is its place in the pool. -/
def value (c : Constant) (index : Nat) : Except Fault Value :=
  match c.widthError? with
  | some reason => .error (.malformedConstant index reason)
  | none =>
      match c.tag with
      | .int kind => .ok (.ofInt kind (Bytes.toNat c.payload))
      | .bool => .ok (.bool (Bytes.toNat c.payload != 0))
      | .string =>
          match c.text? with
          | some s => .ok (.str s)
          | none => .error (.malformedConstant index "string is not valid UTF-8")
      | .className => .error (.unsupportedConstant index c.tag.name)

/-- The constant as it is shown in listings. -/
def text (c : Constant) : String :=
  match c.tag with
  | .string => Text.quoted (c.text?.getD "<invalid utf-8>")
  | .className => "class " ++ c.text?.getD "<invalid utf-8>"
  | tag =>
      match c.value 0 with
      | .ok v => tag.name ++ " " ++ v.text
      | .error _ => tag.name ++ " <malformed>"

end Constant

end StackMachine
