import StackMachine.Fault
import StackMachine.Number

/-! # Values

What locals, operand stacks and object fields hold: integers of ten kinds, booleans,
strings and heap references. Arithmetic and order need two integers of one kind, equality
two values of one tag, and logic two booleans.
-/

namespace StackMachine

/-- The id of a heap object. Id 0 is never given out and is the null reference. -/
structure HeapRef where
  id : UInt32
  deriving DecidableEq

namespace HeapRef

def null : HeapRef := ⟨0⟩

def isNull (r : HeapRef) : Bool := r.id == 0

def index (r : HeapRef) : Nat := r.id.toNat

def text (r : HeapRef) : String :=
  if r.isNull then "null" else s!"#{r.index}"

end HeapRef

inductive Value where
  | int (n : FixedInt)
  | bool (b : Bool)
  | str (s : String)
  | ref (r : HeapRef)
  deriving DecidableEq

namespace Value

def ofInt (k : IntKind) (n : Int) : Value := .int (.ofInt k n)

/-- What a local slot holds before anything is stored in it. -/
def unset : Value := ofInt .i32 0

def tagName : Value → String
  | .int n => n.kind.name
  | .bool _ => "Bool"
  | .str _ => "String"
  | .ref _ => "Ref"

def text : Value → String
  | .int n => toString n.val
  | .bool b => if b then "true" else "false"
  | .str s => s
  | .ref r => s!"<ref {r.text}>"

def isInteger : Value → Bool
  | .int _ => true
  | _ => false

/-- The integer as a signed 128-bit number: unsigned numbers of 128 bits may be too large. -/
def widen? : Value → Option Int
  | .int n => if n.val < IntKind.i128.bound then some n.val else none
  | _ => none

def bool? : Value → Option Bool
  | .bool b => some b
  | _ => none

def str? : Value → Option String
  | .str s => some s
  | _ => none

def ref? : Value → Option HeapRef
  | .ref r => some r
  | _ => none

/-- Whether a condition fails: zero and `false` do; strings and references are no conditions. -/
def falsy? : Value → Option Bool
  | .int n => some (n.val == 0)
  | .bool b => some !b
  | _ => none

/-- The bytes that the value adds to an object beyond its slot. -/
def payloadBytes : Value → Nat
  | .str s => s.utf8ByteSize
  | _ => 0

/-- The two values have the same tag. -/
def sameTag : Value → Value → Bool
  | .int a, .int b => a.kind == b.kind
  | .bool _, .bool _ => true
  | .str _, .str _ => true
  | .ref _, .ref _ => true
  | _, _ => false

/-- Applies `f` to two integers of one kind, and to nothing else. -/
def onIntegers (operation : String) (f : FixedInt → FixedInt → Except Fault Value) :
    Value → Value → Except Fault Value
  | .int a, .int b =>
      if a.kind = b.kind then f a b
      else .error (.typeMismatch operation s!"cannot apply to {a.kind.name} and {b.kind.name}")
  | a, b => .error (.typeMismatch operation s!"cannot apply to {a.tagName} and {b.tagName}")

def onBooleans (operation : String) (f : Bool → Bool → Bool) :
    Value → Value → Except Fault Value
  | .bool a, .bool b => .ok (.bool (f a b))
  | a, b =>
      .error (.typeMismatch operation s!"expected two Bool, got {a.tagName} and {b.tagName}")

/-- A quotient or remainder, which a zero divisor does not have. -/
def orDivisionByZero : Option FixedInt → Except Fault Value
  | some n => .ok (.int n)
  | none => .error .divisionByZero

def add : Value → Value → Except Fault Value :=
  onIntegers "ADD" fun a b => .ok (.int (a.add b))

def sub : Value → Value → Except Fault Value :=
  onIntegers "SUB" fun a b => .ok (.int (a.sub b))

def mul : Value → Value → Except Fault Value :=
  onIntegers "MUL" fun a b => .ok (.int (a.mul b))

def div : Value → Value → Except Fault Value :=
  onIntegers "DIV" fun a b => orDivisionByZero (a.div? b)

def rem : Value → Value → Except Fault Value :=
  onIntegers "MOD" fun a b => orDivisionByZero (a.rem? b)

def lessThan : Value → Value → Except Fault Value :=
  onIntegers "LT" fun a b => .ok (.bool (decide (a.val < b.val)))

def lessOrEqual : Value → Value → Except Fault Value :=
  onIntegers "LEQ" fun a b => .ok (.bool (decide (a.val ≤ b.val)))

def equals (a b : Value) : Except Fault Value :=
  if a.sameTag b then .ok (.bool (a == b))
  else .error (.typeMismatch "EQ" s!"cannot compare {a.tagName} and {b.tagName}")

def or : Value → Value → Except Fault Value :=
  onBooleans "LOR" (· || ·)

def and : Value → Value → Except Fault Value :=
  onBooleans "LAND" (· && ·)

def negate : Value → Except Fault Value
  | .int n => .ok (.int n.neg)
  | a => .error (.typeMismatch "MIN" s!"expected an integer, got {a.tagName}")

def not : Value → Except Fault Value
  | .bool b => .ok (.bool !b)
  | a => .error (.typeMismatch "NEG" s!"expected Bool, got {a.tagName}")

end Value

end StackMachine
