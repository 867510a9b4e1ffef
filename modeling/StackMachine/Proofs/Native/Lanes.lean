import Mathlib
import StackMachine.Proofs.Arithmetic
import StackMachine.Proofs.Native.Words

/-! # Values in words

A word carries the number of an integer, 0 or 1 for a boolean, and the id of a reference. Read back
at a type it is reduced to what the type has room for. A value of the type that a word carries lost
nothing on the way, so it is what is read back.
-/

namespace StackMachine

/-! ## Carrying and restoring -/

/-- The word holds the number, the truth value or the id. -/
inductive Value.CarriedBy (word : Int64) : Value → Prop where
  | int (n : FixedInt) (same : word.toInt = n.val) : CarriedBy word (.int n)
  | bool (b : Bool) (same : word.toInt = if b then 1 else 0) : CarriedBy word (.bool b)
  | ref (r : HeapRef) (same : word.toInt = r.index) : CarriedBy word (.ref r)

/-- The value is of the type, and it is the word as far as the type has room for it. -/
inductive Descriptor.Restores (word : Int64) : Descriptor → Value → Prop where
  | int {kind : IntKind} (n : FixedInt) (same : n.kind = kind)
      (residue : n.val ≡ word.toInt [ZMOD 2 ^ kind.width.bits]) : Restores word (.int kind) (.int n)
  | bool : Restores word .bool (.bool (decide (word.toInt ≠ 0)))
  | array (element : Descriptor) (r : HeapRef)
      (residue : (r.index : Int) ≡ word.toInt [ZMOD 2 ^ 32]) :
      Restores word (.array element) (.ref r)
  | record (name : String) (r : HeapRef)
      (residue : (r.index : Int) ≡ word.toInt [ZMOD 2 ^ 32]) :
      Restores word (.record name) (.ref r)

/-! ## Words of values -/

theorem contains_i64_iff {n : Int} : IntKind.i64.Contains n ↔ -2 ^ 63 ≤ n ∧ n < 2 ^ 63 := by
  rfl

theorem contains_toInt (word : Int64) : IntKind.i64.Contains word.toInt :=
  contains_i64_iff.mpr ⟨word.le_toInt, word.toInt_lt⟩

theorem toInt_wordOfRef (r : HeapRef) : (r.id.toUInt64.toInt64).toInt = r.index := by
  have small : r.id.toNat < 2 ^ 32 := r.id.toNat_lt
  have word : r.id.toUInt64.toInt64.toBitVec.toNat = r.id.toNat := UInt32.toNat_toUInt64 r.id
  calc (r.id.toUInt64.toInt64).toInt = r.id.toUInt64.toInt64.toBitVec.toInt := rfl
    _ = r.id.toUInt64.toInt64.toBitVec.toNat := BitVec.toInt_eq_toNat_of_lt (by omega)
    _ = r.index := by rw [word]; rfl

theorem bne_zero_eq (word : Int64) : (word != 0) = decide (word.toInt ≠ 0) := by
  rw [Bool.eq_iff_iff, bne_iff_ne, decide_eq_true_iff]
  exact not_congr Int64.toInt_inj.symm

/-- The reference in a word has the lower half of the word for its id. -/
theorem refOfWord_residue (word : Int64) :
    ((refOfWord word).index : Int) ≡ word.toInt [ZMOD 2 ^ 32] := by
  have index : (refOfWord word).index = word.toUInt64.toNat % 2 ^ 32 :=
    UInt64.toNat_toUInt32 word.toUInt64
  have signed : word.toInt = (word.toUInt64.toNat : Int).bmod (2 ^ 64) :=
    BitVec.toInt_eq_toNat_bmod word.toBitVec
  have whole : (word.toUInt64.toNat : Int) ≡ word.toInt [ZMOD 2 ^ 64] := by
    rw [signed]
    exact Int.bmod_emod.symm
  calc ((refOfWord word).index : Int)
      = (word.toUInt64.toNat : Int) % 2 ^ 32 := by rw [index]; norm_cast
    _ ≡ word.toUInt64.toNat [ZMOD 2 ^ 32] := Int.mod_modEq _ _
    _ ≡ word.toInt [ZMOD 2 ^ 32] := whole.of_dvd (by decide)

theorem eq_refOfWord {r : HeapRef} {word : Int64}
    (residue : (r.index : Int) ≡ word.toInt [ZMOD 2 ^ 32]) : r = refOfWord word := by
  have same : (r.index : Int) ≡ (refOfWord word).index [ZMOD 2 ^ 32] :=
    residue.trans (refOfWord_residue word).symm
  have indices : r.index = (refOfWord word).index :=
    Nat.ModEq.eq_of_lt_of_lt (Int.natCast_modEq_iff.mp same) r.id.toNat_lt
      (refOfWord word).id.toNat_lt
  cases r
  exact congrArg HeapRef.mk (UInt32.toNat_inj.mp indices)

namespace Value

variable {v : Value} {word : Int64}

theorem toLane?_eq_some_iff : v.toLane? = some word ↔ v.CarriedBy word := by
  cases v with
  | int n =>
      rw [toLane?, Option.ite_none_right_eq_some, Option.some.injEq]
      constructor
      · rintro ⟨fits, rfl⟩
        exact .int n (toInt_ofInt_of_contains fits)
      · intro carried
        cases carried with
        | int _ same => exact ⟨same ▸ contains_toInt word, same ▸ Int64.ofInt_toInt word⟩
  | bool b =>
      rw [toLane?, Option.some.injEq, eq_comm, ← Int64.toInt_inj, apply_ite Int64.toInt]
      constructor
      · exact .bool b
      · intro carried
        cases carried with
        | bool _ same => exact same
  | str s =>
      constructor
      · intro absurd
        cases absurd
      · intro absurd
        cases absurd
  | ref r =>
      rw [toLane?, Option.some.injEq, eq_comm, ← Int64.toInt_inj, toInt_wordOfRef]
      constructor
      · exact .ref r
      · intro carried
        cases carried with
        | ref _ same => exact same

/-- What no word carries. -/
theorem toLane?_eq_none_iff :
    v.toLane? = none
      ↔ (∃ s, v = .str s) ∨ ∃ n, v = .int n ∧ ¬ (-2 ^ 63 ≤ n.val ∧ n.val < 2 ^ 63) := by
  cases v with
  | int n => simp [toLane?, contains_i64_iff]
  | bool b => simp [toLane?]
  | str s => simp [toLane?]
  | ref r => simp [toLane?]

theorem ofLane?_eq_some_iff {d : Descriptor} : ofLane? word d = some v ↔ d.Restores word v := by
  constructor
  · intro read
    cases d with
    | int kind =>
        cases read
        exact .int (.ofInt kind word.toInt) rfl (kind.wrap_modEq _)
    | bool =>
        cases read
        rw [bne_zero_eq]
        exact .bool
    | string => cases read
    | array element =>
        cases read
        exact .array element _ (refOfWord_residue word)
    | record name =>
        cases read
        exact .record name _ (refOfWord_residue word)
    | void => cases read
  · intro restored
    cases restored with
    | int n same residue =>
        subst same
        have number : n.kind.wrap word.toInt = n.val :=
          (IntKind.wrap_congr residue.symm).trans (IntKind.wrap_of_contains n.inRange)
        exact congrArg (some ∘ int) (FixedInt.eq_of_val rfl number)
    | bool => exact congrArg (some ∘ bool) (bne_zero_eq word)
    | array element r residue => exact congrArg (some ∘ ref) (eq_refOfWord residue).symm
    | record name r residue => exact congrArg (some ∘ ref) (eq_refOfWord residue).symm

theorem CarriedBy.restores {d : Descriptor} (carried : v.CarriedBy word)
    (admitted : d.admits v = true) : d.Restores word v := by
  cases carried with
  | int n same =>
      cases d with
      | int kind =>
          have alike : kind = n.kind := by simpa [Descriptor.admits] using admitted
          exact .int n alike.symm (by rw [same])
      | _ => cases admitted
  | bool b same =>
      cases d with
      | bool =>
          have held : b = decide (word.toInt ≠ 0) := by
            rw [same]
            cases b <;> rfl
          rw [held]
          exact .bool
      | _ => cases admitted
  | ref r same =>
      cases d with
      | array element => exact .array element r (by rw [same])
      | record name => exact .record name r (by rw [same])
      | _ => cases admitted

end Value

theorem Descriptor.Restores.admits {d : Descriptor} {word : Int64} {v : Value}
    (restored : d.Restores word v) : d.admits v = true := by
  cases restored with
  | int n same _ => simp [Descriptor.admits, same]
  | bool | array | record => rfl

/-- Whatever the type, a value of it that has a word is read back from the word, and the word holds
its number, truth value or id; only strings and integers beyond 64 signed bits have no word. Every
word is read as some value of the type, reduced to what the type has room for, unless the type is
that of strings or of no value. -/
theorem words_give_values_back (d : Descriptor) :
    (∀ v, d.admits v = true →
        (∀ word, v.toLane? = some word → Value.ofLane? word d = some v ∧ v.CarriedBy word)
          ∧ (v.toLane? = none
              ↔ (∃ s, v = .str s) ∨ ∃ n, v = .int n ∧ ¬ (-2 ^ 63 ≤ n.val ∧ n.val < 2 ^ 63)))
      ∧ ∀ word, d ≠ .void → d ≠ .string →
          ∃ v, Value.ofLane? word d = some v ∧ d.admits v = true ∧ d.Restores word v := by
  constructor
  · intro v admitted
    refine ⟨fun word held => ?_, Value.toLane?_eq_none_iff⟩
    have carried := Value.toLane?_eq_some_iff.mp held
    exact ⟨Value.ofLane?_eq_some_iff.mpr (carried.restores admitted), carried⟩
  · intro word solid other
    have read : ∃ v, Value.ofLane? word d = some v := by
      cases d with
      | void => exact absurd rfl solid
      | string => exact absurd rfl other
      | int | bool | array | record => exact ⟨_, rfl⟩
    obtain ⟨v, read⟩ := read
    have restored := Value.ofLane?_eq_some_iff.mp read
    exact ⟨v, read, restored.admits, restored⟩

/-! The least integer of 64 bits, the first one beyond them, the last reference, and a word that has
no room in a byte. -/

namespace Brim

theorem fits_or_has_no_word :
    Value.ofLane? Int64.minValue (.int .i64) = some (.ofInt .i64 (-2 ^ 63))
      ∧ (Value.ofInt .u64 (2 ^ 63)).toLane? = none
      ∧ Value.ofLane? 0xffffffff (.array .bool) = some (.ref ⟨0xffffffff⟩)
      ∧ ∃ n : FixedInt, Value.ofLane? 0x1ff (.int .i8) = some (.int n)
          ∧ n.val ≡ 0x1ff [ZMOD 2 ^ 8] := by
  obtain ⟨least, _⟩ := words_give_values_back (.int .i64)
  obtain ⟨beyond, _⟩ := words_give_values_back (.int .u64)
  obtain ⟨last, _⟩ := words_give_values_back (.array .bool)
  obtain ⟨_, narrow⟩ := words_give_values_back (.int .i8)
  refine ⟨?_, ?_, ?_, ?_⟩
  · exact ((least (.ofInt .i64 (-2 ^ 63)) rfl).1 Int64.minValue (by decide)).1
  · exact (beyond (.ofInt .u64 (2 ^ 63)) rfl).2.mpr (.inr ⟨_, rfl, by decide⟩)
  · exact ((last (.ref ⟨0xffffffff⟩) rfl).1 0xffffffff (by decide)).1
  · obtain ⟨v, read, _, restored⟩ := narrow 0x1ff (by decide) (by decide)
    cases restored with
    | int n _ residue => exact ⟨n, read, residue⟩

end Brim

end StackMachine
