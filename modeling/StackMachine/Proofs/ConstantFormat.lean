import Mathlib
import StackMachine.Proofs.Arithmetic
import StackMachine.Proofs.FileFormat

/-! # What constants stand for

The format of constants, said apart from how they are read and written: integers are big-endian and
in two's complement, a byte that is not zero is true, text is UTF-8. A constant is decoded if and
only if it has the format, and what is written has it; an integer and a text are written in one way
only.
-/

namespace StackMachine

/-! ## Numbers -/

/-- The number whose digits to the base 256 are the bytes, the most significant one first. -/
def Bytes.bigEndian (bytes : List UInt8) : Nat :=
  Nat.ofDigits 256 (bytes.reverse.map UInt8.toNat)

/-- The integer of the kind that the bytes spell: in two's complement if the kind is signed. -/
def IntKind.spelled (k : IntKind) (bytes : List UInt8) : Int :=
  if k.signed = true ∧ 2 ^ (k.width.bits - 1) ≤ Bytes.bigEndian bytes then
    (Bytes.bigEndian bytes : Int) - 2 ^ k.width.bits
  else Bytes.bigEndian bytes

theorem Bytes.bigEndian_eq_toNat (bytes : List UInt8) : bigEndian bytes = toNat bytes := by
  induction bytes with
  | nil => rfl
  | cons b rest ih =>
      rw [toNat_cons, ← ih, bigEndian, bigEndian, List.reverse_cons, List.map_append,
        Nat.ofDigits_append, List.length_map, List.length_reverse, List.map_singleton,
        Nat.ofDigits_singleton, Nat.add_comm, Nat.mul_comm]

namespace IntKind

variable {k : IntKind} {bytes : List UInt8}

theorem modulus_eq_pow_bytes (k : IntKind) : k.width.modulus = 256 ^ k.width.bytes := by
  cases k.width <;> rfl

theorem toNat_lt_modulus (width : bytes.length = k.width.bytes) :
    Bytes.toNat bytes < k.width.modulus := by
  rw [modulus_eq_pow_bytes, ← width]
  exact Bytes.toNat_lt bytes

/-- Bytes of the right number spell what they reduce to. -/
theorem wrap_toNat (width : bytes.length = k.width.bytes) :
    k.wrap (Bytes.toNat bytes) = k.spelled bytes := by
  have small := toNat_lt_modulus width
  have double := k.width.modulus_eq_two_mul_half
  have half : (2 : Nat) ^ (k.width.bits - 1) = k.width.half := by
    cases k.width <;> rfl
  rw [spelled, Bytes.bigEndian_eq_toNat, half, ← modulus_eq]
  cases signed : k.signed with
  | false =>
      rw [wrap, signed, if_neg Bool.false_ne_true, if_neg (by simp)]
      exact Int.emod_eq_of_lt (Int.natCast_nonneg _) (by exact_mod_cast small)
  | true =>
      rw [wrap, signed, if_pos rfl, Int.bmod_def]
      rw [Int.emod_eq_of_lt (Int.natCast_nonneg _) (by exact_mod_cast small)]
      by_cases top : k.width.half ≤ Bytes.toNat bytes
      · rw [if_neg (by omega), if_pos ⟨rfl, top⟩]
      · rw [if_pos (by omega), if_neg (by simp [top])]

/-- Equally many bytes that spell one integer are the same. -/
theorem spelled_injective {bytes' : List UInt8} (width : bytes.length = k.width.bytes)
    (width' : bytes'.length = k.width.bytes) (same : k.spelled bytes = k.spelled bytes') :
    bytes = bytes' := by
  have residues : (Bytes.toNat bytes : Int) ≡ Bytes.toNat bytes' [ZMOD 2 ^ k.width.bits] :=
    calc (Bytes.toNat bytes : Int)
        ≡ k.wrap (Bytes.toNat bytes) [ZMOD 2 ^ k.width.bits] := (k.wrap_modEq _).symm
      _ = k.wrap (Bytes.toNat bytes') := by rw [wrap_toNat width, wrap_toNat width', same]
      _ ≡ Bytes.toNat bytes' [ZMOD 2 ^ k.width.bits] := k.wrap_modEq _
  rw [← k.modulus_eq, Int.natCast_modEq_iff] at residues
  have numbers := residues.eq_of_lt_of_lt (toNat_lt_modulus width) (toNat_lt_modulus width')
  calc bytes = Bytes.ofNat bytes.length (Bytes.toNat bytes) := (Bytes.ofNat_toNat bytes).symm
    _ = Bytes.ofNat bytes'.length (Bytes.toNat bytes') := by rw [numbers, width, width']
    _ = bytes' := Bytes.ofNat_toNat bytes'

end IntKind

/-! ## The format -/

def Bytes.utf8 (s : String) : List UInt8 := s.toList.flatMap String.utf8EncodeChar

namespace Constant

inductive Encodes : Constant → Value → Prop where
  | int (n : FixedInt) (payload : List UInt8) (width : payload.length = n.kind.width.bytes)
      (number : n.val = n.kind.spelled payload) : Encodes ⟨.int n.kind, payload⟩ (.int n)
  | bool (byte : UInt8) : Encodes ⟨.bool, [byte]⟩ (.bool (decide (byte ≠ 0)))
  | string (s : String) : Encodes ⟨.string, Bytes.utf8 s⟩ (.str s)

inductive Undecodable (index : Nat) : Constant → Fault → Prop where
  | width {c : Constant} {expected : Nat} (fixed : c.tag.width? = some expected)
      (other : c.payload.length ≠ expected) :
      Undecodable index c (.malformedConstant index
        s!"{c.tag.name} payload is {c.payload.length} bytes, expected {expected}")
  | text {payload : List UInt8} (other : ∀ s, Bytes.utf8 s ≠ payload) :
      Undecodable index ⟨.string, payload⟩
        (.malformedConstant index "string is not valid UTF-8")
  | className (payload : List UInt8) :
      Undecodable index ⟨.className, payload⟩ (.unsupportedConstant index "Class")

end Constant

/-! ## Text -/

namespace Bytes

theorem toList_loop (b : ByteArray) (i : Nat) (done : List UInt8) :
    ByteArray.toList.loop b i done = done.reverse ++ b.data.toList.drop i := by
  fun_induction ByteArray.toList.loop b i done with
  | case1 i done inside ih =>
      have here : b.get! i = b.data.toList[i] := getElem!_pos b.data i inside
      rw [ih, here, List.reverse_cons, List.append_assoc, List.singleton_append,
        List.getElem_cons_drop]
  | case2 i done outside =>
      have beyond : b.data.toList.length ≤ i := Nat.le_of_not_lt outside
      rw [List.drop_of_length_le beyond, List.append_nil]

theorem toByteArray_utf8 (s : String) : (utf8 s).toByteArray = s.toByteArray :=
  String.utf8Encode_toList

theorem ofString_eq_utf8 (s : String) : ofString s = utf8 s := by
  rw [ofString, String.toUTF8, ByteArray.toList, toList_loop, ← toByteArray_utf8,
    List.toList_data_toByteArray]
  rfl

theorem toString?_eq_some_iff {bytes : List UInt8} {s : String} :
    toString? bytes = some s ↔ utf8 s = bytes := by
  have array : (⟨bytes.toArray⟩ : ByteArray) = bytes.toByteArray :=
    ByteArray.ext List.data_toByteArray.symm
  rw [toString?, array, ← List.toByteArray_inj, toByteArray_utf8, String.fromUTF8?]
  constructor
  · intro found
    split at found
    · cases found
      rfl
    · cases found
  · intro same
    rw [dif_pos (same ▸ s.isValidUTF8), Option.some.injEq]
    exact String.toByteArray_inj.mp same.symm

theorem toString?_eq_none_iff {bytes : List UInt8} :
    toString? bytes = none ↔ ∀ s, utf8 s ≠ bytes := by
  rw [Option.eq_none_iff_forall_ne_some]
  exact forall_congr' fun s => not_congr toString?_eq_some_iff

end Bytes

/-! ## Decoding -/

namespace Constant

variable {index : Nat} {v : Value} {fault : Fault}

/-- Decoding looks at the width, where the tag fixes one, before anything else. -/
theorem value_of_width_ne {c : Constant} {expected : Nat} (fixed : c.tag.width? = some expected)
    (other : c.payload.length ≠ expected) (index : Nat) :
    c.value index = .error (.malformedConstant index
      s!"{c.tag.name} payload is {c.payload.length} bytes, expected {expected}") := by
  unfold value widthError?
  rw [fixed]
  simp only [if_neg other]

theorem value_int {kind : IntKind} {payload : List UInt8}
    (width : payload.length = kind.width.bytes) (index : Nat) :
    value ⟨.int kind, payload⟩ index = .ok (.ofInt kind (Bytes.toNat payload)) := by
  simp only [value, widthError?, ConstantTag.width?, if_pos width]

theorem value_bool (byte : UInt8) (index : Nat) :
    value ⟨.bool, [byte]⟩ index = .ok (.bool (decide (byte ≠ 0))) := by
  have number : Bytes.toNat [byte] = byte.toNat := by simp [Bytes.toNat]
  have same : (byte.toNat != 0) = decide (byte ≠ 0) := by
    rw [Bool.eq_iff_iff]
    simp [← UInt8.toNat_inj]
  simp only [value, widthError?, ConstantTag.width?, List.length_singleton, if_true, number, same]

theorem value_string (payload : List UInt8) (index : Nat) :
    value ⟨.string, payload⟩ index
      = match Bytes.toString? payload with
        | some s => .ok (.str s)
        | none => .error (.malformedConstant index "string is not valid UTF-8") := rfl

theorem Encodes.value {c : Constant} (encoded : c.Encodes v) (index : Nat) :
    c.value index = .ok v := by
  cases encoded with
  | int n payload width number =>
      have same : FixedInt.ofInt n.kind (Bytes.toNat payload) = n :=
        FixedInt.eq_of_val rfl ((IntKind.wrap_toNat width).trans number.symm)
      rw [value_int width, Value.ofInt, same]
  | bool byte => exact value_bool byte index
  | string s => rw [value_string, Bytes.toString?_eq_some_iff.mpr rfl]

theorem Undecodable.value {c : Constant} (failed : c.Undecodable index fault) :
    c.value index = .error fault := by
  cases failed with
  | width fixed other => exact value_of_width_ne fixed other index
  | text other => rw [value_string, Bytes.toString?_eq_none_iff.mpr other]
  | className payload => rfl

/-- A constant that does not stand for a value fails in one of the ways. -/
theorem encodes_or_undecodable (c : Constant) (index : Nat) :
    (∃ v, c.Encodes v) ∨ ∃ fault, c.Undecodable index fault := by
  obtain ⟨tag, payload⟩ := c
  cases tag with
  | int kind =>
      by_cases width : payload.length = kind.width.bytes
      · exact .inl ⟨_, .int (.ofInt kind (Bytes.toNat payload)) payload width
          (IntKind.wrap_toNat width)⟩
      · exact .inr ⟨_, .width rfl width⟩
  | bool =>
      by_cases width : payload.length = 1
      · obtain ⟨byte, rfl⟩ := List.length_eq_one_iff.mp width
        exact .inl ⟨_, .bool byte⟩
      · exact .inr ⟨_, .width rfl width⟩
  | string =>
      cases text : Bytes.toString? payload with
      | some s =>
          obtain rfl := Bytes.toString?_eq_some_iff.mp text
          exact .inl ⟨_, .string s⟩
      | none => exact .inr ⟨_, .text (Bytes.toString?_eq_none_iff.mp text)⟩
  | className => exact .inr ⟨_, .className payload⟩

theorem value_eq_ok_iff_encodes {c : Constant} : c.value index = .ok v ↔ c.Encodes v := by
  refine ⟨fun decoded => ?_, fun encoded => encoded.value index⟩
  rcases c.encodes_or_undecodable index with ⟨v', encoded⟩ | ⟨fault, failed⟩
  · rw [encoded.value index] at decoded
    cases decoded
    exact encoded
  · rw [failed.value] at decoded
    cases decoded

theorem value_eq_error_iff_undecodable {c : Constant} :
    c.value index = .error fault ↔ c.Undecodable index fault := by
  refine ⟨fun undecoded => ?_, fun failed => failed.value⟩
  rcases c.encodes_or_undecodable index with ⟨v, encoded⟩ | ⟨fault', failed⟩
  · rw [encoded.value index] at undecoded
    cases undecoded
  · rw [failed.value] at undecoded
    cases undecoded
    exact failed

/-! ## Encoding -/

theorem length_payload_ofInt (n : FixedInt) :
    (ofInt n).payload.length = n.kind.width.bytes := Bytes.length_ofNat _ _

theorem spelled_ofInt (n : FixedInt) : n.kind.spelled (ofInt n).payload = n.val := by
  have pos : 0 < n.kind.width.modulus := by
    have := n.kind.width.half_pos
    have := n.kind.width.modulus_eq_two_mul_half
    omega
  have residue : ((n.val % n.kind.width.modulus).toNat : Int) = n.val % n.kind.width.modulus :=
    Int.toNat_of_nonneg (Int.emod_nonneg _ (by omega))
  have small : (n.val % n.kind.width.modulus).toNat < 256 ^ n.kind.width.bytes := by
    have := Int.emod_lt_of_pos n.val (b := (n.kind.width.modulus : Int)) (by omega)
    rw [← IntKind.modulus_eq_pow_bytes]
    omega
  calc n.kind.spelled (ofInt n).payload
      = n.kind.wrap (Bytes.toNat (ofInt n).payload) :=
        (IntKind.wrap_toNat (length_payload_ofInt n)).symm
    _ = n.kind.wrap (n.val % n.kind.width.modulus) := by
        rw [ofInt, Bytes.toNat_ofNat small, residue]
    _ = n.kind.wrap n.val := IntKind.wrap_congr (n.kind.modulus_eq ▸ Int.mod_modEq n.val _)
    _ = n.val := IntKind.wrap_of_contains n.inRange

theorem encodes_ofInt (n : FixedInt) : (ofInt n).Encodes (.int n) :=
  .int n _ (length_payload_ofInt n) (spelled_ofInt n).symm

theorem encodes_ofBool (b : Bool) : (ofBool b).Encodes (.bool b) := by
  cases b with
  | false => exact .bool 0
  | true => exact .bool 1

theorem encodes_ofString (s : String) : (ofString s).Encodes (.str s) := by
  rw [ofString, Bytes.ofString_eq_utf8]
  exact .string s

/-- An integer and a text are written in one way only. -/
theorem Encodes.written {c : Constant} (encoded : c.Encodes v)
    (tag : c.tag.isInteger = true ∨ c.tag = .string) :
    (∃ n, v = .int n ∧ ofInt n = c) ∨ ∃ s, v = .str s ∧ ofString s = c := by
  cases encoded with
  | int n payload width number =>
      refine .inl ⟨n, rfl, ?_⟩
      obtain rfl : payload = (ofInt n).payload := IntKind.spelled_injective width
        (length_payload_ofInt n) (number.symm.trans (spelled_ofInt n).symm)
      rfl
  | bool byte => simp [ConstantTag.isInteger] at tag
  | string s =>
      refine .inr ⟨s, rfl, ?_⟩
      rw [ofString, Bytes.ofString_eq_utf8]

end Constant

/-- A constant made from an integer of any kind, a boolean or a text is decoded to just that. It is
decoded in no other case than that it has the format: integers big-endian in two's complement, text
in UTF-8; and if it has the tag of an integer or a text, then the value is written as the constant
was. It fails for a payload of another width than the tag fixes, for text that is not UTF-8 and for
the name of a class, and for nothing else. -/
theorem constants_are_decoded_as_written (index : Nat) :
    (∀ n, (Constant.ofInt n).value index = .ok (.int n))
      ∧ (∀ b, (Constant.ofBool b).value index = .ok (.bool b))
      ∧ (∀ s, (Constant.ofString s).value index = .ok (.str s))
      ∧ (∀ (c : Constant) v, c.tag.isInteger = true ∨ c.tag = .string → c.value index = .ok v →
          (∃ n, v = .int n ∧ Constant.ofInt n = c) ∨ ∃ s, v = .str s ∧ Constant.ofString s = c)
      ∧ (∀ (c : Constant) v, c.value index = .ok v ↔ c.Encodes v)
      ∧ ∀ (c : Constant) fault, c.value index = .error fault ↔ c.Undecodable index fault := by
  refine ⟨fun n => (Constant.encodes_ofInt n).value index,
    fun b => (Constant.encodes_ofBool b).value index,
    fun s => (Constant.encodes_ofString s).value index, ?_,
    fun c v => Constant.value_eq_ok_iff_encodes,
    fun c fault => Constant.value_eq_error_iff_undecodable⟩
  intro c v tag decoded
  exact (Constant.value_eq_ok_iff_encodes.mp decoded).written tag

/-! Bytes that would be another number in another order, or without the sign. -/

namespace Lopsided

def constant : Constant := ⟨.int .i16, [0x80, 0x01]⟩

def number : FixedInt := .ofInt .i16 (-32767)

theorem is_decoded_and_written_back :
    constant.tag.isInteger = true ∧ constant.value 3 = .ok (.int number)
      ∧ Constant.ofInt number = constant := by
  have decoded : constant.value 3 = .ok (.int number) := by decide
  refine ⟨rfl, decoded, ?_⟩
  obtain ⟨_, _, _, written, _⟩ := constants_are_decoded_as_written 3
  rcases written constant (.int number) (.inl rfl) decoded with ⟨n, same, back⟩ | ⟨s, same, _⟩
  · cases same
    exact back
  · cases same

end Lopsided

end StackMachine
