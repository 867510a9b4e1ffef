/-! # Variable-length numbers

A number is written in groups of seven bits, the lowest first; every byte but the last has its
top bit set. A reader accepts groups up to those that its width needs, and padding with empty
groups among them.
-/

namespace StackMachine

inductive CodecError where
  | endOfInput
  | badVarint
  | badOption
  | unknownVariant
  deriving DecidableEq, Repr

def CodecError.message : CodecError → String
  | .endOfInput => "Hit the end of buffer, expected more data"
  | .badVarint =>
      "Found a varint that didn't terminate. Is the usize too big for this platform?"
  | .badOption => "Found an Option discriminant that wasn't 0 or 1"
  | .unknownVariant => "Serde Deserialization Error"

/-- Reads from the front of the bytes, or fails to. -/
abbrev Decoder (α : Type) := StateT (List UInt8) (Except CodecError) α

namespace Varint

def encode (n : Nat) : List UInt8 :=
  if n < 128 then [UInt8.ofNat n] else UInt8.ofNat (n % 128 + 128) :: encode (n / 128)
termination_by n

/-- The widths of numbers, by the most groups that they take and what the last may hold. -/
structure Shape where
  groups : Nat
  lastMax : Nat

def u16 : Shape := ⟨3, 3⟩

def u32 : Shape := ⟨5, 15⟩

def length : Shape := ⟨10, 1⟩

/-- Reads up to `left` more groups, of which only the last is limited. -/
def decodeGroups (lastMax : Nat) : Nat → Decoder Nat
  | 0 => fun _ => .error .badVarint
  | left + 1 => fun
      | [] => .error .endOfInput
      | byte :: rest =>
          if byte.toNat < 128 then
            if left = 0 ∧ lastMax < byte.toNat then .error .badVarint
            else .ok (byte.toNat, rest)
          else
            match decodeGroups lastMax left rest with
            | .ok (high, rest) => .ok (byte.toNat - 128 + 128 * high, rest)
            | .error e => .error e

def decode (shape : Shape) : Decoder Nat := decodeGroups shape.lastMax shape.groups

end Varint

end StackMachine
