/-! # Numbers and text as bytes

Big-endian numbers of a given width, and text in UTF-8.
-/

namespace StackMachine.Bytes

/-- The number that the bytes spell, most significant byte first. -/
def toNat (bytes : List UInt8) : Nat :=
  bytes.foldl (fun n b => 256 * n + b.toNat) 0

/-- The lowest `width` bytes of the number, most significant byte first. -/
def ofNat (width n : Nat) : List UInt8 :=
  match width with
  | 0 => []
  | width + 1 => UInt8.ofNat (n >>> (8 * width)) :: ofNat width n

def ofString (s : String) : List UInt8 :=
  s.toUTF8.toList

def toString? (bytes : List UInt8) : Option String :=
  String.fromUTF8? ⟨bytes.toArray⟩

end StackMachine.Bytes
