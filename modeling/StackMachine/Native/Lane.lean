import StackMachine.Heap.Basic

/-! # Lanes

Native code works on 64-bit words. An integer goes into a word if it fits, a boolean as 0 or 1,
and a reference as its id. The integers of one function all have the width of its lane.
-/

namespace StackMachine

namespace Value

/-- The value as a word; strings and integers beyond 64 signed bits have none. -/
def toLane? : Value → Option Int64
  | .bool b => some (if b then 1 else 0)
  | .ref r => some r.id.toUInt64.toInt64
  | .str _ => none
  | .int n => if IntKind.i64.Contains n.val then some (Int64.ofInt n.val) else none

/-- The value of the type that the word stands for. -/
def ofLane? (raw : Int64) : Descriptor → Option Value
  | .bool => some (.bool (raw != 0))
  | .array _ => some (.ref ⟨raw.toUInt64.toUInt32⟩)
  | .record _ => some (.ref ⟨raw.toUInt64.toUInt32⟩)
  | .int kind => some (.ofInt kind raw.toInt)
  | .string => none
  | .void => none

end Value

/-- The width that all integers of a native function share. -/
inductive Lane where
  | i32
  | i64
  deriving DecidableEq, Repr

namespace Lane

def bits : Lane → Nat
  | .i32 => 32
  | .i64 => 64

def wrap : Lane → Int64 → Int64
  | .i32, v => v.toInt32.toInt64
  | .i64, v => v

end Lane

end StackMachine
