import Mathlib
import StackMachine.Value

/-! # Arithmetic at every width

The integers of a kind are one for each residue modulo two to the width. Arithmetic gives the exact
result modulo that, so laws of exact arithmetic that are equations carry over; among them is the law
that ties quotient and remainder, also where the quotient is out of range.
-/

namespace StackMachine

/-! ## Ranges and residues -/

namespace IntKind

variable {k : IntKind} {m n : Int}

def Spans (k : IntKind) (n : Int) : Prop :=
  if k.signed then -2 ^ (k.width.bits - 1) ≤ n ∧ n < 2 ^ (k.width.bits - 1)
  else 0 ≤ n ∧ n < 2 ^ k.width.bits

theorem modulus_eq (k : IntKind) : (k.width.modulus : Int) = 2 ^ k.width.bits := by
  rw [k.width.modulus_eq_two_pow]
  exact Nat.cast_pow 2 k.width.bits

theorem half_eq (k : IntKind) : (k.width.half : Int) = 2 ^ (k.width.bits - 1) := by
  cases k.width <;> rfl

theorem spans_of_contains (h : k.Contains n) : k.Spans n := by
  unfold Contains least bound at h
  unfold Spans
  rw [← half_eq, ← modulus_eq]
  cases signed : k.signed with
  | true => simpa only [signed, if_true] using h
  | false => simpa only [signed, Bool.false_eq_true, if_false] using h

theorem wrap_modEq (k : IntKind) (n : Int) : k.wrap n ≡ n [ZMOD 2 ^ k.width.bits] := by
  rw [← modulus_eq, wrap]
  cases k.signed with
  | true => exact Int.bmod_emod
  | false => exact Int.mod_modEq n _

/-- What is left of an integer depends on its residue only. -/
theorem wrap_congr (same : m ≡ n [ZMOD 2 ^ k.width.bits]) : k.wrap m = k.wrap n := by
  rw [← modulus_eq] at same
  unfold wrap
  cases k.signed with
  | true => rw [if_pos rfl, if_pos rfl, ← Int.emod_bmod m, same, Int.emod_bmod]
  | false => exact same

theorem contains_zero (k : IntKind) : k.Contains 0 := by
  have pos := k.width.half_pos
  have double := k.width.modulus_eq_two_mul_half
  unfold Contains least bound
  cases k.signed with
  | true =>
      simp only [if_true]
      omega
  | false =>
      simp only [Bool.false_eq_true, if_false]
      omega

end IntKind

/-! ## Quotients and remainders -/

/-- The remainder of division toward zero is between zero and the dividend. -/
theorem tmod_between (a b : Int) :
    (0 ≤ a → 0 ≤ a.tmod b ∧ a.tmod b ≤ a) ∧ (a ≤ 0 → a ≤ a.tmod b ∧ a.tmod b ≤ 0) := by
  have small : (a.tmod b).natAbs ≤ a.natAbs := by
    rw [Int.natAbs_tmod]
    exact Nat.mod_le _ _
  constructor
  · intro positive
    have sign := Int.tmod_nonneg b positive
    omega
  · intro negative
    have sign := Int.tmod_nonneg b (Int.neg_nonneg_of_nonpos negative)
    rw [Int.neg_tmod] at sign
    omega

namespace FixedInt

variable {a b : FixedInt}

theorem ofInt_congr {k : IntKind} {m n : Int} (same : m ≡ n [ZMOD 2 ^ k.width.bits]) :
    ofInt k m = ofInt k n :=
  eq_of_val rfl (IntKind.wrap_congr same)

/-- A remainder is never out of range. -/
theorem wrap_tmod (a : FixedInt) (n : Int) : a.kind.wrap (a.val.tmod n) = a.val.tmod n := by
  apply IntKind.wrap_of_contains
  obtain ⟨nonneg, nonpos⟩ := tmod_between a.val n
  obtain ⟨lower, upper⟩ := a.inRange
  obtain ⟨least, bound⟩ := a.kind.contains_zero
  rcases Int.le_total 0 a.val with positive | negative
  · obtain ⟨above, below⟩ := nonneg positive
    exact ⟨by omega, by omega⟩
  · obtain ⟨above, below⟩ := nonpos negative
    exact ⟨by omega, by omega⟩

/-- The quotient may have been reduced, and the product is, but the sum is the dividend. -/
theorem quotient_mul_add_remainder (a b : FixedInt) :
    ((ofInt a.kind (a.val.tdiv b.val)).mul b).add (ofInt a.kind (a.val.tmod b.val)) = a := by
  have exact : a.kind.wrap (a.kind.wrap (a.val.tdiv b.val) * b.val)
        + a.kind.wrap (a.val.tmod b.val)
      ≡ a.val [ZMOD 2 ^ a.kind.width.bits] :=
    calc a.kind.wrap (a.kind.wrap (a.val.tdiv b.val) * b.val) + a.kind.wrap (a.val.tmod b.val)
        ≡ a.kind.wrap (a.val.tdiv b.val) * b.val + a.val.tmod b.val
          [ZMOD 2 ^ a.kind.width.bits] := (a.kind.wrap_modEq _).add (a.kind.wrap_modEq _)
      _ ≡ a.val.tdiv b.val * b.val + a.val.tmod b.val [ZMOD 2 ^ a.kind.width.bits] :=
          ((a.kind.wrap_modEq _).mul_right _).add_right _
      _ = a.val := Int.tdiv_mul_add_tmod a.val b.val
  calc ((ofInt a.kind (a.val.tdiv b.val)).mul b).add (ofInt a.kind (a.val.tmod b.val))
      = ofInt a.kind a.val := ofInt_congr exact
    _ = a := a.ofInt_self

end FixedInt

/-! ## Operations on values -/

namespace Value

def AlikeIntegers (v w : Value) : Prop :=
  ∃ a b : FixedInt, v = .int a ∧ w = .int b ∧ a.kind = b.kind

def integerOperations : List (String × (Value → Value → Except Fault Value)) :=
  [("ADD", add), ("SUB", sub), ("MUL", mul), ("DIV", div), ("MOD", rem), ("LT", lessThan),
    ("LEQ", lessOrEqual)]

theorem onIntegers_of_alike {operation : String} {f : FixedInt → FixedInt → Except Fault Value}
    {a b : FixedInt} (same : a.kind = b.kind) :
    onIntegers operation f (.int a) (.int b) = f a b := if_pos same

theorem onIntegers_of_not_alike {operation : String}
    {f : FixedInt → FixedInt → Except Fault Value} {v w : Value} (other : ¬ v.AlikeIntegers w) :
    onIntegers operation f v w
      = .error (.typeMismatch operation s!"cannot apply to {v.tagName} and {w.tagName}") := by
  cases v with
  | int a =>
      cases w with
      | int b => exact if_neg fun same => other ⟨a, b, rfl, rfl, same⟩
      | _ => rfl
  | _ => rfl

/-- The outcome is the integer of the kind that is `n` modulo two to the width. -/
def Reduces (outcome : Except Fault Value) (k : IntKind) (n : Int) : Prop :=
  ∃ m : FixedInt, outcome = .ok (.int m) ∧ m.kind = k ∧ k.Spans m.val
    ∧ m.val ≡ n [ZMOD 2 ^ k.width.bits]

theorem reduces_ofInt (k : IntKind) (n : Int) : Reduces (.ok (.ofInt k n)) k n :=
  ⟨.ofInt k n, rfl, rfl, IntKind.spans_of_contains (k.wrap_contains n), k.wrap_modEq n⟩

structure ComputesExactly (a b : FixedInt) : Prop where
  sum : Reduces (add (.int a) (.int b)) a.kind (a.val + b.val)
  difference : Reduces (sub (.int a) (.int b)) a.kind (a.val - b.val)
  product : Reduces (mul (.int a) (.int b)) a.kind (a.val * b.val)
  negation : Reduces (negate (.int a)) a.kind (-a.val)
  less : lessThan (.int a) (.int b) = .ok (.bool (decide (a.val < b.val)))
  notGreater : lessOrEqual (.int a) (.int b) = .ok (.bool (decide (a.val ≤ b.val)))

/-- The remainder of division toward zero, which has the sign of the dividend. -/
structure IsRemainder (a b r : FixedInt) : Prop where
  kind : r.kind = a.kind
  val : r.val = a.val.tmod b.val
  small : |r.val| < |b.val|
  nonneg : 0 ≤ a.val → 0 ≤ r.val
  nonpos : a.val ≤ 0 → r.val ≤ 0

structure DividesExactly (a b : FixedInt) : Prop where
  noQuotient : div (.int a) (.int b) = .error .divisionByZero ↔ b.val = 0
  noRemainder : rem (.int a) (.int b) = .error .divisionByZero ↔ b.val = 0
  quotient : b.val ≠ 0 → Reduces (div (.int a) (.int b)) a.kind (a.val.tdiv b.val)
  remainder : b.val ≠ 0 → ∃ r, rem (.int a) (.int b) = .ok (.int r) ∧ IsRemainder a b r
  law : b.val ≠ 0 →
    (do
      let quotient ← div (.int a) (.int b)
      let product ← mul quotient (.int b)
      let remainder ← rem (.int a) (.int b)
      add product remainder) = .ok (.int a)

section Alike

variable {a b : FixedInt}

theorem computesExactly (same : a.kind = b.kind) : ComputesExactly a b where
  sum := by
    rw [add, onIntegers_of_alike same]
    exact reduces_ofInt a.kind _
  difference := by
    rw [sub, onIntegers_of_alike same]
    exact reduces_ofInt a.kind _
  product := by
    rw [mul, onIntegers_of_alike same]
    exact reduces_ofInt a.kind _
  negation := reduces_ofInt a.kind _
  less := onIntegers_of_alike same
  notGreater := onIntegers_of_alike same

theorem div_of_alike (same : a.kind = b.kind) :
    div (.int a) (.int b)
      = if b.val = 0 then .error .divisionByZero else .ok (.ofInt a.kind (a.val.tdiv b.val)) := by
  rw [div, onIntegers_of_alike same, FixedInt.div?]
  split <;> rfl

theorem rem_of_alike (same : a.kind = b.kind) :
    rem (.int a) (.int b)
      = if b.val = 0 then .error .divisionByZero else .ok (.ofInt a.kind (a.val.tmod b.val)) := by
  rw [rem, onIntegers_of_alike same, FixedInt.rem?]
  split <;> rfl

theorem isRemainder (divisor : b.val ≠ 0) :
    IsRemainder a b (.ofInt a.kind (a.val.tmod b.val)) where
  kind := rfl
  val := a.wrap_tmod b.val
  small := by
    rw [FixedInt.ofInt_val, a.wrap_tmod, Int.abs_eq_natAbs, Int.abs_eq_natAbs, Int.natAbs_tmod,
      Int.ofNat_lt]
    exact Nat.mod_lt _ (Int.natAbs_pos.mpr divisor)
  nonneg := by
    rw [FixedInt.ofInt_val, a.wrap_tmod]
    exact fun positive => ((tmod_between a.val b.val).1 positive).1
  nonpos := by
    rw [FixedInt.ofInt_val, a.wrap_tmod]
    exact fun negative => ((tmod_between a.val b.val).2 negative).2

theorem dividesExactly (same : a.kind = b.kind) : DividesExactly a b where
  noQuotient := by
    rw [div_of_alike same]
    by_cases zero : b.val = 0 <;> simp [zero]
  noRemainder := by
    rw [rem_of_alike same]
    by_cases zero : b.val = 0 <;> simp [zero]
  quotient := by
    intro divisor
    rw [div_of_alike same, if_neg divisor]
    exact reduces_ofInt a.kind _
  remainder := by
    intro divisor
    rw [rem_of_alike same, if_neg divisor]
    exact ⟨_, rfl, isRemainder divisor⟩
  law := by
    intro divisor
    rw [div_of_alike same, if_neg divisor, rem_of_alike same, if_neg divisor]
    have product : mul (.ofInt a.kind (a.val.tdiv b.val)) (.int b)
        = .ok (.int ((FixedInt.ofInt a.kind (a.val.tdiv b.val)).mul b)) :=
      onIntegers_of_alike same
    have sum : add (.int ((FixedInt.ofInt a.kind (a.val.tdiv b.val)).mul b))
        (.ofInt a.kind (a.val.tmod b.val)) = .ok (.int a) := by
      rw [add, ofInt, onIntegers_of_alike (by rfl), FixedInt.quotient_mul_add_remainder]
    calc (do
          let product ← mul (.ofInt a.kind (a.val.tdiv b.val)) (.int b)
          add product (.ofInt a.kind (a.val.tmod b.val)))
        = add (.int ((FixedInt.ofInt a.kind (a.val.tdiv b.val)).mul b))
            (.ofInt a.kind (a.val.tmod b.val)) := by rw [product]; rfl
      _ = .ok (.int a) := sum

end Alike

end Value

/-- On two integers of one kind, sums, differences, products, negations and quotients are the exact
ones modulo two to the width, comparisons and remainders are exact, only a division by zero fails,
and quotient times divisor plus remainder is the dividend. On any other two values, each operation
fails and names their tags. -/
theorem arithmetic_is_exact_modulo_the_width :
    (∀ a b : FixedInt, a.kind = b.kind →
        Value.ComputesExactly a b ∧ Value.DividesExactly a b)
      ∧ ∀ v w : Value, ¬ v.AlikeIntegers w → ∀ operation ∈ Value.integerOperations,
          operation.2 v w = .error
            (.typeMismatch operation.1 s!"cannot apply to {v.tagName} and {w.tagName}") := by
  refine ⟨fun a b same => ⟨Value.computesExactly same, Value.dividesExactly same⟩, ?_⟩
  intro v w other operation member
  simp only [Value.integerOperations, List.mem_cons, List.not_mem_nil, or_false] at member
  rcases member with rfl | rfl | rfl | rfl | rfl | rfl | rfl <;>
    exact Value.onIntegers_of_not_alike other

/-! The least value divided by -1 is out of range, and no operation takes integers of two kinds. -/

namespace Extremes

def least : FixedInt := .ofInt .i8 (-128)

def minusOne : FixedInt := .ofInt .i8 (-1)

theorem evaluated :
    least.val = -128 ∧ minusOne.val = -1
      ∧ Value.div (.int least) (.int minusOne) = .ok (.int least)
      ∧ Value.rem (.int least) (.int minusOne) = .ok (.ofInt .i8 0) := by
  refine ⟨?_, ?_, ?_, ?_⟩ <;> decide

theorem not_alike : ¬ (Value.int least).AlikeIntegers (.ofInt .u8 1) := by
  rintro ⟨a, b, first, second, same⟩
  cases first
  cases second
  revert same
  decide

theorem least_is_divided_and_kinds_do_not_mix :
    least.kind = minusOne.kind ∧ minusOne.val ≠ 0
      ∧ Value.Reduces (.ok (.int least)) .i8 128
      ∧ Value.IsRemainder least minusOne (.ofInt .i8 0)
      ∧ (do
          let product ← Value.mul (.int least) (.int minusOne)
          Value.add product (.ofInt .i8 0)) = .ok (.int least)
      ∧ ¬ (Value.int least).AlikeIntegers (.ofInt .u8 1)
      ∧ Value.add (.int least) (.ofInt .u8 1)
          = .error (.typeMismatch "ADD" "cannot apply to I8 and U8") := by
  obtain ⟨alike, mixed⟩ := arithmetic_is_exact_modulo_the_width
  obtain ⟨value, divisor, quotient, remainder⟩ := evaluated
  have nonzero : minusOne.val ≠ 0 := by rw [divisor]; decide
  obtain ⟨_, divides⟩ := alike least minusOne rfl
  refine ⟨rfl, nonzero, ?_, ?_, ?_, not_alike, ?_⟩
  · have reduced := divides.quotient nonzero
    rwa [quotient, value, divisor] at reduced
  · obtain ⟨r, found, isRemainder⟩ := divides.remainder nonzero
    rw [remainder] at found
    cases found
    exact isRemainder
  · have law := divides.law nonzero
    rwa [quotient, remainder] at law
  · exact mixed _ _ not_alike ("ADD", Value.add) List.mem_cons_self

end Extremes

end StackMachine
