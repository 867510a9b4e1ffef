/-! # Columns

Padding and number bases for text that is laid out in columns.
-/

namespace StackMachine.Text

def padRight (width : Nat) (s : String) : String :=
  s.pushn ' ' (width - s.length)

def padLeft (width : Nat) (s : String) : String :=
  "".pushn ' ' (width - s.length) ++ s

def zeros (width : Nat) (s : String) : String :=
  "".pushn '0' (width - s.length) ++ s

def decimal (width n : Nat) : String :=
  zeros width (toString n)

def hex (width n : Nat) : String :=
  zeros width (String.ofList (Nat.toDigits 16 n))

end StackMachine.Text
