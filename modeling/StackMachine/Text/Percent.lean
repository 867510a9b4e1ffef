import StackMachine.Text.Column

/-! # Percentages

A share in percent is computed in double precision and shown with one decimal. The digits are
those of the exact value of the double: a tie goes to the even neighbour.
-/

namespace StackMachine.Text

/-- The quotient rounded to the nearest integer, a tie to the even one. -/
def roundDiv (num den : Nat) : Nat :=
  let q := num / den
  let r := num % den
  if 2 * r < den then q
  else if den < 2 * r then q + 1
  else if q % 2 = 0 then q
  else q + 1

/-- The tenths of a finite nonnegative double, from its significand and exponent. -/
def tenths (x : Float) : Nat :=
  let bits := x.toBits.toNat
  let exponent := (bits >>> 52) % 0x800
  let fraction := bits % 0x10000000000000
  let significand := if exponent = 0 then fraction else 0x10000000000000 + fraction
  let power := max exponent 1
  if 1075 ≤ power then (10 * significand) <<< (power - 1075)
  else roundDiv (10 * significand) (1 <<< (1075 - power))

def percent (part whole : Nat) : String :=
  let n := tenths (part.toFloat / whole.toFloat * 100.0)
  s!"{n / 10}.{n % 10}"

end StackMachine.Text
