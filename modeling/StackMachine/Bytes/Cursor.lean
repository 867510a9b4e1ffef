import StackMachine.Bytes.Word

/-! # Reading bytes in order

A cursor is what is left of the input and the position it starts at. A read takes bytes off
the front or finds the input too short; a reader that needs more than one read leaves the
cursor where the one that failed began.
-/

namespace StackMachine

structure Cursor where
  rest : List UInt8
  position : Nat
  deriving DecidableEq, Repr

/-- A read of `needed` bytes at `position`, where only `left` were left. -/
structure Truncation where
  position : Nat
  needed : Nat
  left : Nat
  deriving DecidableEq, Repr

def Truncation.message (t : Truncation) : String :=
  s!"unexpected end of input: need {t.needed} bytes, {t.left} left"

def splitExactly? {α : Type} : Nat → List α → Option (List α × List α)
  | 0, rest => some ([], rest)
  | _ + 1, [] => none
  | n + 1, a :: rest => (splitExactly? n rest).map fun (taken, rest) => (a :: taken, rest)

namespace Cursor

def ofBytes (bytes : List UInt8) : Cursor := ⟨bytes, 0⟩

def remaining (c : Cursor) : Nat := c.rest.length

def bytes (c : Cursor) (n : Nat) : Except Truncation (List UInt8 × Cursor) :=
  match splitExactly? n c.rest with
  | some (taken, rest) => .ok (taken, ⟨rest, c.position + n⟩)
  | none => .error ⟨c.position, n, c.remaining⟩

def number (c : Cursor) (width : Nat) : Except Truncation (Nat × Cursor) :=
  match c.bytes width with
  | .ok (taken, c) => .ok (Bytes.toNat taken, c)
  | .error t => .error t

def u8 (c : Cursor) : Except Truncation (Nat × Cursor) := c.number 1

def u16 (c : Cursor) : Except Truncation (Nat × Cursor) := c.number 2

def u32 (c : Cursor) : Except Truncation (Nat × Cursor) := c.number 4

/-- A length of two bytes and as many bytes as it says. -/
def prefixed (c : Cursor) : Except Truncation (List UInt8 × Cursor) :=
  match c.u16 with
  | .ok (n, c) => c.bytes n
  | .error t => .error t

end Cursor

end StackMachine
