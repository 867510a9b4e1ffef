/-! # Fixed-width integers

Ten integer kinds: signed and unsigned, of 8 to 128 bits. A `FixedInt` is an exact integer,
its kind, and the proof that the integer lies in the range of the kind. Arithmetic is exact
and is reduced once, by `IntKind.wrap`.
-/

namespace StackMachine

inductive Width where
  | w8
  | w16
  | w32
  | w64
  | w128
  deriving DecidableEq, Repr

namespace Width

def bits : Width → Nat
  | w8 => 8
  | w16 => 16
  | w32 => 32
  | w64 => 64
  | w128 => 128

def bytes : Width → Nat
  | w8 => 1
  | w16 => 2
  | w32 => 4
  | w64 => 8
  | w128 => 16

def modulus : Width → Nat
  | w8 => 0x100
  | w16 => 0x10000
  | w32 => 0x100000000
  | w64 => 0x10000000000000000
  | w128 => 0x100000000000000000000000000000000

/-- Half the modulus: one past the greatest signed value. -/
def half : Width → Nat
  | w8 => 0x80
  | w16 => 0x8000
  | w32 => 0x80000000
  | w64 => 0x8000000000000000
  | w128 => 0x80000000000000000000000000000000

theorem modulus_eq_two_pow (w : Width) : w.modulus = Nat.pow 2 w.bits := by
  cases w <;> rfl

theorem modulus_eq_two_mul_half (w : Width) : w.modulus = 2 * w.half := by
  cases w <;> rfl

theorem half_pos (w : Width) : 0 < w.half := by
  cases w <;> decide

def ofBits? : Nat → Option Width
  | 8 => some w8
  | 16 => some w16
  | 32 => some w32
  | 64 => some w64
  | 128 => some w128
  | _ => none

end Width

structure IntKind where
  signed : Bool
  width : Width
  deriving DecidableEq, Repr

namespace IntKind

abbrev u8 : IntKind := ⟨false, .w8⟩
abbrev u16 : IntKind := ⟨false, .w16⟩
abbrev u32 : IntKind := ⟨false, .w32⟩
abbrev u64 : IntKind := ⟨false, .w64⟩
abbrev u128 : IntKind := ⟨false, .w128⟩
abbrev i8 : IntKind := ⟨true, .w8⟩
abbrev i16 : IntKind := ⟨true, .w16⟩
abbrev i32 : IntKind := ⟨true, .w32⟩
abbrev i64 : IntKind := ⟨true, .w64⟩
abbrev i128 : IntKind := ⟨true, .w128⟩

/-- The tag of the kind, such as `I32` or `U128`. -/
def name (k : IntKind) : String :=
  (if k.signed then "I" else "U") ++ toString k.width.bits

def least (k : IntKind) : Int :=
  if k.signed then -(k.width.half : Int) else 0

/-- One past the greatest integer of the kind. -/
def bound (k : IntKind) : Int :=
  if k.signed then (k.width.half : Int) else (k.width.modulus : Int)

def Contains (k : IntKind) (n : Int) : Prop :=
  k.least ≤ n ∧ n < k.bound

instance (k : IntKind) (n : Int) : Decidable (k.Contains n) :=
  inferInstanceAs (Decidable (k.least ≤ n ∧ n < k.bound))

/-- The integer of the kind that is congruent to `n` modulo two to the width. -/
def wrap (k : IntKind) (n : Int) : Int :=
  if k.signed then n.bmod k.width.modulus else n % (k.width.modulus : Int)

theorem wrap_contains (k : IntKind) (n : Int) : k.Contains (k.wrap n) := by
  have double := k.width.modulus_eq_two_mul_half
  have pos := k.width.half_pos
  unfold Contains least bound wrap
  cases k.signed with
  | true =>
      have lower := Int.le_bmod (x := n) (m := k.width.modulus) (by omega)
      have upper := Int.bmod_lt (x := n) (m := k.width.modulus) (by omega)
      simp only [if_true]
      omega
  | false =>
      have lower := Int.emod_nonneg n (b := (k.width.modulus : Int)) (by omega)
      have upper := Int.emod_lt_of_pos n (b := (k.width.modulus : Int)) (by omega)
      simp only [Bool.false_eq_true, if_false]
      omega

theorem wrap_of_contains {k : IntKind} {n : Int} (h : k.Contains n) : k.wrap n = n := by
  have double := k.width.modulus_eq_two_mul_half
  unfold Contains least bound at h
  unfold wrap
  cases signed : k.signed with
  | true =>
      simp only [signed, if_true] at h ⊢
      exact Int.bmod_eq_of_le (by omega) (by omega)
  | false =>
      simp only [signed, Bool.false_eq_true, if_false] at h ⊢
      exact Int.emod_eq_of_lt h.1 h.2

end IntKind

/-- An integer in the range of its kind. -/
structure FixedInt where
  kind : IntKind
  val : Int
  inRange : kind.Contains val
  deriving DecidableEq

namespace FixedInt

theorem eq_of_val {a b : FixedInt} (kind : a.kind = b.kind) (val : a.val = b.val) : a = b := by
  cases a
  cases b
  cases kind
  cases val
  rfl

def ofInt (k : IntKind) (n : Int) : FixedInt :=
  ⟨k, k.wrap n, k.wrap_contains n⟩

/-- The integer itself, if the kind has it. -/
def ofInt? (k : IntKind) (n : Int) : Option FixedInt :=
  if h : k.Contains n then some ⟨k, n, h⟩ else none

@[simp] theorem ofInt_kind (k : IntKind) (n : Int) : (ofInt k n).kind = k := rfl

@[simp] theorem ofInt_val (k : IntKind) (n : Int) : (ofInt k n).val = k.wrap n := rfl

theorem ofInt_self (a : FixedInt) : ofInt a.kind a.val = a :=
  eq_of_val rfl (IntKind.wrap_of_contains a.inRange)

/-! ## Arithmetic

The second operand is read as a number of the first operand's kind. -/

def add (a b : FixedInt) : FixedInt := ofInt a.kind (a.val + b.val)

def sub (a b : FixedInt) : FixedInt := ofInt a.kind (a.val - b.val)

def mul (a b : FixedInt) : FixedInt := ofInt a.kind (a.val * b.val)

/-- The quotient toward zero, if the divisor is not zero. -/
def div? (a b : FixedInt) : Option FixedInt :=
  if b.val = 0 then none else some (ofInt a.kind (a.val.tdiv b.val))

/-- The remainder of the quotient toward zero, if the divisor is not zero. -/
def rem? (a b : FixedInt) : Option FixedInt :=
  if b.val = 0 then none else some (ofInt a.kind (a.val.tmod b.val))

def neg (a : FixedInt) : FixedInt := ofInt a.kind (-a.val)

end FixedInt

end StackMachine
