import Mathlib
import StackMachine.Program.File

/-! # The format of program files

A reader is exact if it accepts some values, each in one written form, and takes just that form off
the input. Exact readers are put together from exact readers, in the order in which the parts of a
record are written. So a file is read exactly where it was written, whatever follows it.
-/

namespace StackMachine

/-! ## Numbers of a width -/

namespace Bytes

theorem foldl_toNat (bytes : List UInt8) (start : Nat) :
    bytes.foldl (fun n b => 256 * n + b.toNat) start
      = start * 256 ^ bytes.length + toNat bytes := by
  induction bytes generalizing start with
  | nil => simp [toNat]
  | cons b rest ih =>
      have first := ih (256 * start + b.toNat)
      have second := ih (256 * 0 + b.toNat)
      rw [toNat, List.foldl_cons, List.foldl_cons, first, second, List.length_cons, Nat.pow_succ]
      ring

theorem toNat_cons (b : UInt8) (rest : List UInt8) :
    toNat (b :: rest) = b.toNat * 256 ^ rest.length + toNat rest := by
  rw [toNat, List.foldl_cons, Nat.mul_zero, Nat.zero_add, foldl_toNat]

theorem toNat_lt (bytes : List UInt8) : toNat bytes < 256 ^ bytes.length := by
  induction bytes with
  | nil => simp [toNat]
  | cons b rest ih =>
      have digit : b.toNat + 1 ≤ 256 := b.toNat_lt
      calc toNat (b :: rest) = b.toNat * 256 ^ rest.length + toNat rest := toNat_cons b rest
        _ < (b.toNat + 1) * 256 ^ rest.length := by rw [Nat.succ_mul]; omega
        _ ≤ 256 * 256 ^ rest.length := Nat.mul_le_mul_right _ digit
        _ = 256 ^ (rest.length + 1) := by rw [Nat.pow_succ, Nat.mul_comm]

@[simp] theorem length_ofNat (width n : Nat) : (ofNat width n).length = width := by
  induction width with
  | zero => rfl
  | succ width ih => rw [ofNat, List.length_cons, ih]

theorem shiftRight_bytes (n width : Nat) : n >>> (8 * width) = n / 256 ^ width := by
  rw [Nat.shiftRight_eq_div_pow, Nat.pow_mul]

theorem toNat_ofNat_mod (width n : Nat) : toNat (ofNat width n) = n % 256 ^ width := by
  induction width with
  | zero => simp [ofNat, toNat, Nat.mod_one]
  | succ width ih =>
      have digits : n % 256 ^ (width + 1)
          = n % 256 ^ width + 256 ^ width * (n / 256 ^ width % 256) := by
        rw [Nat.pow_succ, Nat.mod_mul]
      have top : (UInt8.ofNat (n >>> (8 * width))).toNat = n / 256 ^ width % 256 := by
        rw [UInt8.toNat_ofNat', shiftRight_bytes]
      rw [ofNat, toNat_cons, ih, length_ofNat, digits, top, Nat.mul_comm, Nat.add_comm]

theorem toNat_ofNat {width n : Nat} (small : n < 256 ^ width) : toNat (ofNat width n) = n := by
  rw [toNat_ofNat_mod, Nat.mod_eq_of_lt small]

/-- Only the lowest bytes of a number are written. -/
theorem ofNat_add_mul (width n k : Nat) : ofNat width (k * 256 ^ width + n) = ofNat width n := by
  induction width generalizing k with
  | zero => rfl
  | succ width ih =>
      have shifted : (k * 256 ^ (width + 1) + n) / 256 ^ width = 256 * k + n / 256 ^ width := by
        rw [Nat.pow_succ, show k * (256 ^ width * 256) = 256 ^ width * (256 * k) by ring,
          Nat.mul_add_div (by positivity)]
      have lower := ih (k * 256)
      rw [Nat.mul_assoc, Nat.mul_comm 256, ← Nat.pow_succ] at lower
      rw [ofNat, ofNat, lower, shiftRight_bytes, shiftRight_bytes, shifted]
      congr 1
      apply UInt8.toNat_inj.mp
      rw [UInt8.toNat_ofNat', UInt8.toNat_ofNat']
      omega

theorem ofNat_toNat (bytes : List UInt8) : ofNat bytes.length (toNat bytes) = bytes := by
  induction bytes with
  | nil => rfl
  | cons b rest ih =>
      have top : (b.toNat * 256 ^ rest.length + toNat rest) / 256 ^ rest.length = b.toNat := by
        rw [Nat.mul_comm, Nat.mul_add_div (by positivity), Nat.div_eq_of_lt (toNat_lt rest),
          Nat.add_zero]
      rw [List.length_cons, ofNat, toNat_cons, ofNat_add_mul, ih, shiftRight_bytes, top,
        UInt8.ofNat_toNat]

theorem ofNat_byte (b : UInt8) : ofNat 1 b.toNat = [b] := by
  have written := ofNat_toNat [b]
  rw [toNat_cons] at written
  simpa [toNat] using written

end Bytes

/-! ## Exact readers -/

namespace ProgramFile

variable {α β : Type}

/-- The reader accepts the valid values, each in the form in which it is written, takes that form
off the front of the input, and accepts nothing else. -/
def Reader.Exact (read : Reader α) (valid : α → Prop) (write : α → List UInt8) : Prop :=
  ∀ (c c' : Cursor) (a : α), read c = .ok (a, c')
    ↔ valid a ∧ c.rest = write a ++ c'.rest ∧ c'.position = c.position + (write a).length

namespace Reader

theorem bind_eq_ok {first : Reader α} {next : α → Reader β} {c c' : Cursor} {b : β} :
    (first >>= next) c = .ok (b, c')
      ↔ ∃ a between, first c = .ok (a, between) ∧ next a between = .ok (b, c') := by
  show (first c >>= fun read => next read.1 read.2) = _ ↔ _
  cases first c with
  | error e => simp [bind, Except.bind]
  | ok read =>
      obtain ⟨a, between⟩ := read
      simp [bind, Except.bind]

theorem fail_bind (context : String) (cause : LoadCause) (next : α → Reader β) :
    (Reader.fail context cause >>= next) = Reader.fail context cause := rfl

namespace Exact

variable {read : Reader α} {valid : α → Prop} {write : α → List UInt8}

theorem congr {valid' : α → Prop} {write' : α → List UInt8} (exact : Exact read valid write)
    (same : ∀ a, valid a ↔ valid' a) (written : ∀ a, valid a → write a = write' a) :
    Exact read valid' write' := by
  intro c c' a
  rw [exact c c' a, ← same a]
  constructor
  · intro accepted
    rw [← written a accepted.1]
    exact accepted
  · intro accepted
    rw [written a accepted.1]
    exact accepted

theorem pure (a : α) : Exact (pure a) (· = a) fun _ => [] := by
  intro c c' b
  obtain ⟨rest, position⟩ := c
  obtain ⟨rest', position'⟩ := c'
  show Except.ok (a, _) = _ ↔ _
  simp only [Except.ok.injEq, Prod.mk.injEq, Cursor.mk.injEq, List.nil_append, List.length_nil,
    Nat.add_zero]
  tauto

theorem fail {context : String} {cause : LoadCause} (none : ∀ a, ¬ valid a) :
    Exact (Reader.fail context cause) valid write := by
  intro c c' a
  simp [Reader.fail, none a]

/-- One reader after another, where the second result has the first one as a part. -/
theorem bind {next : α → Reader β} (one : Exact read valid write) (part : β → α)
    (valid' : α → β → Prop) (write' : β → List UInt8)
    (two : ∀ a, valid a → Exact (next a) (valid' a) write')
    (whole : ∀ a b, valid a → valid' a b → part b = a) :
    Exact (read >>= next) (fun b => valid (part b) ∧ valid' (part b) b)
      fun b => write (part b) ++ write' b := by
  intro c c' b
  rw [bind_eq_ok]
  constructor
  · rintro ⟨a, between, first, second⟩
    obtain ⟨good, taken, moved⟩ := (one _ _ _).mp first
    obtain ⟨good', taken', moved'⟩ := (two a good _ _ _).mp second
    obtain rfl := whole a b good good'
    refine ⟨⟨good, good'⟩, ?_, ?_⟩
    · rw [taken, taken', List.append_assoc]
    · rw [moved', moved, List.length_append, Nat.add_assoc]
  · rintro ⟨⟨good, good'⟩, taken, moved⟩
    refine ⟨part b, ⟨write' b ++ c'.rest, c.position + (write (part b)).length⟩,
      (one _ _ _).mpr ⟨good, ?_, rfl⟩, (two _ good _ _ _).mpr ⟨good', rfl, ?_⟩⟩
    · rw [taken, List.append_assoc]
    · rw [moved, List.length_append, Nat.add_assoc]

end Exact

/-! ## Bytes and numbers -/

theorem splitExactly?_eq_some {n : Nat} {items taken rest : List α} :
    splitExactly? n items = some (taken, rest) ↔ taken.length = n ∧ items = taken ++ rest := by
  induction n generalizing items taken with
  | zero =>
      rw [splitExactly?, Option.some.injEq, Prod.mk.injEq, List.length_eq_zero_iff]
      constructor
      · rintro ⟨rfl, rfl⟩
        exact ⟨rfl, rfl⟩
      · rintro ⟨rfl, rfl⟩
        exact ⟨rfl, rfl⟩
  | succ n ih =>
      cases items with
      | nil =>
          rw [splitExactly?]
          constructor
          · intro none
            cases none
          · rintro ⟨length, empty⟩
            have nothing : taken = [] := (List.append_eq_nil_iff.mp empty.symm).1
            rw [nothing] at length
            cases length
      | cons a items =>
          rw [splitExactly?, Option.map_eq_some_iff]
          constructor
          · rintro ⟨⟨taken', rest'⟩, split, same⟩
            cases same
            obtain ⟨length, rfl⟩ := ih.mp split
            exact ⟨by rw [List.length_cons, length], rfl⟩
          · rintro ⟨length, whole⟩
            cases taken with
            | nil => cases length
            | cons b taken' =>
                obtain ⟨rfl, rfl⟩ := List.cons_eq_cons.mp whole
                exact ⟨(taken', rest), ih.mpr ⟨Nat.succ.inj length, rfl⟩, rfl⟩

theorem exact_bytes (n : Nat) : Exact (bytes n) (·.length = n) id := by
  intro c c' taken
  obtain ⟨rest', position'⟩ := c'
  simp only [bytes, ofRead, Cursor.bytes]
  cases split : splitExactly? n c.rest with
  | none =>
      constructor
      · intro failed
        cases failed
      · rintro ⟨length, whole, _⟩
        have found := splitExactly?_eq_some.mpr ⟨length, whole⟩
        rw [split] at found
        cases found
  | some parts =>
      obtain ⟨first, rest⟩ := parts
      obtain ⟨length, whole⟩ := splitExactly?_eq_some.mp split
      simp only [Except.ok.injEq, Prod.mk.injEq, Cursor.mk.injEq, id]
      constructor
      · rintro ⟨rfl, rfl, rfl⟩
        exact ⟨length, whole, by rw [length]⟩
      · rintro ⟨length', whole', moved⟩
        obtain ⟨rfl, rfl⟩ := List.append_inj (whole.symm.trans whole') (length.trans length'.symm)
        exact ⟨rfl, rfl, by rw [moved, length]⟩

theorem exact_number (width : Nat) :
    Exact (ofRead (Cursor.number · width)) (· < 256 ^ width) (Bytes.ofNat width) := by
  intro c c' n
  have taken := exact_bytes width c c'
  simp only [bytes, ofRead] at taken
  simp only [ofRead, Cursor.number]
  cases read : c.bytes width with
  | error t =>
      rw [read] at taken
      constructor
      · intro failed
        cases failed
      · rintro ⟨_, whole, moved⟩
        cases (taken (Bytes.ofNat width n)).mpr ⟨Bytes.length_ofNat width n, whole, moved⟩
  | ok parts =>
      obtain ⟨found, rest⟩ := parts
      rw [read] at taken
      simp only [Except.ok.injEq, Prod.mk.injEq] at taken ⊢
      constructor
      · rintro ⟨rfl, rfl⟩
        obtain ⟨length, whole, moved⟩ := (taken found).mp ⟨rfl, rfl⟩
        have written : Bytes.ofNat width (Bytes.toNat found) = found := by
          rw [← length]
          exact Bytes.ofNat_toNat found
        rw [written]
        exact ⟨length ▸ Bytes.toNat_lt found, whole, moved⟩
      · rintro ⟨small, whole, moved⟩
        obtain ⟨rfl, rfl⟩ :=
          (taken (Bytes.ofNat width n)).mpr ⟨Bytes.length_ofNat width n, whole, moved⟩
        exact ⟨Bytes.toNat_ofNat small, rfl⟩

end Reader

/-- One more than the greatest count, index or length that a file can hold. -/
def limit : Nat := 0x10000

namespace Reader

theorem exact_u8 : Exact u8 (· < 256) (Bytes.ofNat 1) := exact_number 1

theorem exact_u16 : Exact u16 (· < limit) encodeU16 := exact_number 2

theorem exact_u32 : Exact u32 (· < 256 ^ 4) (Bytes.ofNat 4) := exact_number 4

theorem exact_index : Exact index (·.toNat < limit) encodeIndex := by
  refine (exact_u16.bind UInt32.toNat _ _ (fun n _ => Exact.pure (UInt32.ofNat n)) ?_).congr
    (fun i => ?_) fun i _ => List.append_nil _
  · rintro n i small rfl
    exact UInt32.toNat_ofNat_of_lt (small.trans (by decide))
  · rw [UInt32.ofNat_toNat]
    exact and_iff_left rfl

theorem prefixed_eq_bind : prefixed = (u16 >>= fun n => bytes n) := by
  funext c
  show _ = (u16 c >>= fun read => bytes read.1 read.2)
  simp only [prefixed, ofRead, Cursor.prefixed, u16]
  cases c.u16 with
  | error t => rfl
  | ok found => rfl

theorem exact_prefixed :
    Exact prefixed (·.length < limit) fun bytes => encodeU16 bytes.length ++ bytes := by
  rw [prefixed_eq_bind]
  refine (exact_u16.bind List.length _ _ (fun n _ => exact_bytes n) fun _ _ _ length =>
    length).congr (fun bytes => ?_) fun _ _ => rfl
  exact and_iff_left rfl

/-! ## Sequences -/

theorem exact_items {item : Nat → Reader α} {valid : α → Prop} {write : α → List UInt8}
    (each : ∀ number, Exact (item number) valid write) (start count : Nat) :
    Exact (items item start count) (fun l => l.length = count ∧ ∀ a ∈ l, valid a)
      (List.flatMap write) := by
  induction count generalizing start with
  | zero =>
      refine (Exact.pure []).congr (fun l => ?_) fun l empty => by rw [empty]; rfl
      rw [List.length_eq_zero_iff]
      constructor
      · rintro rfl
        exact ⟨rfl, by simp⟩
      · exact And.left
  | succ count ih =>
      intro c c' l
      simp only [items, bind_eq_ok]
      constructor
      · rintro ⟨a, between, first, l', between', others, made⟩
        obtain ⟨good, taken, moved⟩ := (each start _ _ _).mp first
        obtain ⟨⟨length, all⟩, taken', moved'⟩ := (ih (start + 1) _ _ _).mp others
        obtain ⟨rfl, taken'', moved''⟩ := (Exact.pure (a :: l') _ _ _).mp made
        refine ⟨⟨by rw [List.length_cons, length], ?_⟩, ?_, ?_⟩
        · intro b member
          rcases List.mem_cons.mp member with rfl | later
          · exact good
          · exact all b later
        · rw [taken, taken', taken'', List.flatMap_cons, List.append_assoc, List.nil_append]
        · rw [moved'', moved', moved, List.flatMap_cons, List.length_append, List.length_nil]
          omega
      · rintro ⟨⟨length, all⟩, taken, moved⟩
        cases l with
        | nil => cases length
        | cons a l' =>
            rw [List.flatMap_cons, List.append_assoc] at taken
            rw [List.flatMap_cons, List.length_append] at moved
            refine ⟨a, ⟨l'.flatMap write ++ c'.rest, c.position + (write a).length⟩,
              (each start _ _ _).mpr ⟨all a (List.mem_cons_self ..), taken, rfl⟩, l', c',
              (ih (start + 1) _ _ _).mpr ⟨⟨Nat.succ.inj length, ?_⟩, rfl, ?_⟩,
              (Exact.pure _ _ _ _).mpr ⟨rfl, rfl, rfl⟩⟩
            · intro b later
              exact all b (List.mem_cons_of_mem a later)
            · rw [moved, Nat.add_assoc]

theorem exact_counted {item : Nat → Reader α} {valid : α → Prop} {write : α → List UInt8}
    (each : ∀ number, Exact (item number) valid write) :
    Exact (counted item) (fun l => l.length < limit ∧ ∀ a ∈ l, valid a)
      fun l => encodeU16 l.length ++ l.flatMap write := by
  refine (exact_u16.bind List.length _ _ (fun n _ => exact_items each 0 n) fun _ _ _ counted =>
    counted.1).congr (fun l => ?_) fun l _ => rfl
  tauto

end Reader

end ProgramFile

/-! ## Tags and opcodes -/

theorem ConstantTag.ofCode?_eq_some {byte : Nat} {tag : ConstantTag} :
    ConstantTag.ofCode? byte = some tag ↔ byte = tag.code.toNat := by
  have written : ∀ tag ∈ ConstantTag.all, ConstantTag.ofCode? tag.code.toNat = some tag := by
    decide
  constructor
  · intro found
    cases byte with
    | zero => cases found
    | succ n =>
        have bound : n < ConstantTag.all.length := (List.getElem?_eq_some_iff.mp found).1
        have places : ∀ n < ConstantTag.all.length, ∀ tag, ConstantTag.all[n]? = some tag →
            n + 1 = tag.code.toNat := by decide
        exact places n bound tag found
  · rintro rfl
    exact written tag tag.mem_all

theorem Opcode.ofCode?_eq_some {code : UInt16} {opcode : Opcode} :
    Opcode.ofCode? code = some opcode ↔ code = opcode.code := by
  have written : ∀ opcode ∈ Opcode.all, Opcode.ofCode? opcode.code = some opcode := by decide
  constructor
  · intro found
    have matching : (opcode.code == code) = true :=
      List.find?_some (p := fun o : Opcode => o.code == code) found
    exact (beq_iff_eq.mp matching).symm
  · rintro rfl
    exact written opcode opcode.mem_all

/-! ## Records -/

def Constant.Encodable (c : Constant) : Prop :=
  match c.tag.width? with
  | some width => c.payload.length = width
  | none => c.payload.length < ProgramFile.limit ∧ (Bytes.toString? c.payload).isSome = true

def Instruction.Encodable (i : Instruction) : Prop :=
  i.operand.isSome = i.opcode.hasOperand ∧ i.arg < ProgramFile.limit

structure FunctionRecord.Encodable (f : FunctionRecord) : Prop where
  name : f.name.toNat < ProgramFile.limit
  params : f.params.toNat < ProgramFile.limit
  result : f.result.toNat < ProgramFile.limit
  length : f.code.size < ProgramFile.limit
  code : ∀ i ∈ f.code.toList, i.Encodable

structure FieldRecord.Encodable (f : FieldRecord) : Prop where
  name : f.name.toNat < ProgramFile.limit
  descriptor : f.descriptor.toNat < ProgramFile.limit

structure ClassRecord.Encodable (c : ClassRecord) : Prop where
  name : c.name.toNat < ProgramFile.limit
  fieldCount : c.fields.length < ProgramFile.limit
  fields : ∀ f ∈ c.fields, f.Encodable
  methodCount : c.methods.length < ProgramFile.limit
  methods : ∀ m ∈ c.methods, m.toNat < ProgramFile.limit

namespace ProgramFile

open Reader

/-- What a file can hold: a version that is known, counts, indices and lengths of two bytes,
numbers as wide as their tags say, text in UTF-8, and operands where the opcodes have them. -/
structure Encodable (file : ProgramFile) : Prop where
  version : file.version.major = 0 ∨ file.version.major = 1
  constantCount : file.constants.length < limit
  constants : ∀ c ∈ file.constants, c.Encodable
  functionCount : file.functions.length < limit
  functions : ∀ f ∈ file.functions, f.Encodable
  classCount : file.classes.length < limit
  classes : ∀ c ∈ file.classes, c.Encodable

theorem exact_version (origin : String) :
    Exact (readVersion origin) (fun v => v.major = 0 ∨ v.major = 1)
      fun v => [v.major, v.minor, v.patch] := by
  refine ((exact_bytes 3).bind (fun v => [v.major, v.minor, v.patch])
    (fun taken v => taken = [v.major, v.minor, v.patch] ∧ ¬ v.major > Version.maxMajor)
    (fun _ => []) (fun taken length => ?_) fun taken v _ whole => whole.1.symm).congr
      (fun v => ?_) fun v _ => List.append_nil _
  · match taken, length with
    | [major, minor, patch], _ =>
        dsimp only
        by_cases late : major > Version.maxMajor
        · rw [if_pos late]
          refine Exact.fail ?_
          rintro v ⟨same, early⟩
          rw [(List.cons_eq_cons.mp same).1] at late
          exact early late
        · rw [if_neg late]
          refine (Exact.pure _).congr (fun v => ?_) fun v _ => rfl
          obtain ⟨major', minor', patch'⟩ := v
          simp only [Version.mk.injEq, List.cons.injEq, and_true]
          constructor
          · rintro ⟨rfl, rfl, rfl⟩
            exact ⟨⟨rfl, rfl, rfl⟩, late⟩
          · rintro ⟨⟨rfl, rfl, rfl⟩, _⟩
            exact ⟨rfl, rfl, rfl⟩
  · have early : ¬ v.major > Version.maxMajor ↔ v.major = 0 ∨ v.major = 1 := by
      rw [← UInt8.toNat_inj, ← UInt8.toNat_inj, gt_iff_lt, UInt8.lt_iff_toNat_lt]
      show ¬ 1 < v.major.toNat ↔ v.major.toNat = 0 ∨ v.major.toNat = 1
      omega
    simp only [List.length_cons, List.length_nil, true_and]
    exact early

theorem exact_header (origin : String) :
    Exact (readHeader origin) (fun v => v.major = 0 ∨ v.major = 1) encodeHeader := by
  refine (exact_u32.bind (fun _ => magic)
    (fun found v => found = magic ∧ (v.major = 0 ∨ v.major = 1))
    (fun v => [v.major, v.minor, v.patch] ++ [0]) (fun found _ => ?_)
    fun found v _ whole => whole.1.symm).congr (fun v => ?_) fun v _ => rfl
  · by_cases right : found = magic
    · rw [if_neg (not_not.mpr right)]
      refine ((exact_version origin).bind id (fun version v => v = version) (fun _ => [0])
        (fun version _ => ?_) fun _ _ _ whole => whole).congr
          (fun v => by simp [right]) fun v _ => rfl
      refine (exact_u8.bind (fun _ => 0) (fun flags v => flags = 0 ∧ v = version) (fun _ => [])
        (fun flags _ => ?_) fun _ _ _ whole => whole.1.symm).congr
          (fun v => by simp) fun v _ => rfl
      by_cases none : flags = 0
      · rw [if_neg (not_not.mpr none)]
        exact (Exact.pure version).congr (fun v => by simp [none]) fun _ _ => rfl
      · rw [if_pos none, fail_bind]
        exact Exact.fail fun v whole => none whole.1
    · rw [if_pos right, fail_bind]
      exact Exact.fail fun v whole => right whole.1
  · have fits : magic < 256 ^ 4 := by decide
    exact ⟨fun accepted => accepted.2.2, fun known => ⟨fits, rfl, known⟩⟩

def ofPayload (context : String) (tag : ConstantTag) (payload : List UInt8) : Reader Constant :=
  if tag.isText && (Bytes.toString? payload).isNone then Reader.fail context .invalidText
  else Pure.pure ⟨tag, payload⟩

theorem exact_ofPayload (context : String) (tag : ConstantTag) (payload : List UInt8) :
    Exact (ofPayload context tag payload)
      (fun c => c = ⟨tag, payload⟩ ∧ (tag.isText && (Bytes.toString? payload).isNone) = false)
      fun _ => [] := by
  unfold ofPayload
  by_cases bad : (tag.isText && (Bytes.toString? payload).isNone) = true
  · rw [if_pos bad]
    exact Exact.fail fun c whole => by simp [bad] at whole
  · rw [if_neg bad]
    exact (Exact.pure _).congr (fun c => by simp [bad]) fun _ _ => rfl

theorem isText_eq (tag : ConstantTag) : tag.isText = tag.width?.isNone := by cases tag <;> rfl

theorem exact_fixed (context : String) {tag : ConstantTag} {width : Nat}
    (fixed : tag.width? = some width) :
    Exact (Reader.bytes width >>= ofPayload context tag) (fun c => c.tag = tag ∧ c.Encodable)
      Constant.payload := by
  have text := isText_eq tag
  rw [fixed] at text
  refine ((exact_bytes width).bind Constant.payload _ _ (fun payload _ =>
    exact_ofPayload context tag payload) fun payload c _ made => by rw [made.1]).congr
      (fun c => ?_) fun c _ => List.append_nil _
  obtain ⟨tag', payload⟩ := c
  simp only [Constant.mk.injEq, and_true, text, Constant.Encodable]
  constructor
  · rintro ⟨length, rfl, _⟩
    rw [fixed]
    exact ⟨rfl, length⟩
  · rintro ⟨rfl, good⟩
    rw [fixed] at good
    exact ⟨good, rfl, rfl⟩

theorem exact_text (context : String) {tag : ConstantTag} (free : tag.width? = none) :
    Exact (Reader.prefixed >>= ofPayload context tag) (fun c => c.tag = tag ∧ c.Encodable)
      fun c => encodeU16 c.payload.length ++ c.payload := by
  have text := isText_eq tag
  rw [free] at text
  refine (exact_prefixed.bind Constant.payload _ _ (fun payload _ =>
    exact_ofPayload context tag payload) fun payload c _ made => by rw [made.1]).congr
      (fun c => ?_) fun c _ => List.append_nil _
  obtain ⟨tag', payload⟩ := c
  simp only [Constant.mk.injEq, and_true, text, Constant.Encodable]
  constructor
  · rintro ⟨length, rfl, valid⟩
    rw [free]
    exact ⟨rfl, length, by simpa using valid⟩
  · rintro ⟨rfl, good⟩
    rw [free] at good
    exact ⟨good.1, rfl, by simpa using good.2⟩

theorem exact_constant (origin : String) (number : Nat) :
    Exact (readConstant origin number) Constant.Encodable encodeConstant := by
  have tagged : ∀ c : Constant, c.tag.code.toNat < 256 := fun c => c.tag.code.toNat_lt
  refine (exact_u8.bind (fun c : Constant => c.tag.code.toNat)
    (fun byte c => byte = c.tag.code.toNat ∧ c.Encodable)
    (fun c => match c.tag.width? with
      | some _ => c.payload
      | none => encodeU16 c.payload.length ++ c.payload)
    (fun byte _ => ?_) fun byte c _ whole => whole.1.symm).congr
      (fun c => by simp [tagged c]) fun c _ => ?_
  · cases found : ConstantTag.ofCode? byte with
    | none =>
        refine Exact.fail ?_
        rintro c ⟨same, _⟩
        have known := ConstantTag.ofCode?_eq_some.mpr same
        rw [found] at known
        cases known
    | some tag =>
        have tags : ∀ c : Constant, byte = c.tag.code.toNat ↔ c.tag = tag := by
          intro c
          rw [← ConstantTag.ofCode?_eq_some, found, Option.some.injEq, eq_comm]
        simp only [tags]
        cases width : tag.width? with
        | some _ =>
            refine (exact_fixed _ width).congr (fun _ => Iff.rfl) fun c good => ?_
            rw [good.1, width]
        | none =>
            refine (exact_text _ width).congr (fun _ => Iff.rfl) fun c good => ?_
            rw [good.1, width]
  · rw [encodeConstant, Bytes.ofNat_byte]
    cases c.tag.width? with
    | some width => rfl
    | none => rfl

/-- A number below the limit is kept in two bytes. -/
theorem toNat_ofNat_of_lt_limit {n : Nat} (small : n < limit) : (UInt16.ofNat n).toNat = n :=
  UInt16.toNat_ofNat_of_lt small

theorem exact_instruction (origin : String) (function pc : Nat) :
    Exact (readInstruction origin function pc) Instruction.Encodable encodeInstruction := by
  have coded : ∀ i : Instruction, i.opcode.code.toNat < limit := fun i => i.opcode.code.toNat_lt
  refine (exact_u16.bind (fun i : Instruction => i.opcode.code.toNat)
    (fun code i => code = i.opcode.code.toNat ∧ i.Encodable)
    (fun i => if i.opcode.hasOperand then encodeU16 i.arg else [])
    (fun code small => ?_) fun code i _ whole => whole.1.symm).congr
      (fun i => by simp [coded i]) fun i _ => rfl
  have opcodes : ∀ i : Instruction, code = i.opcode.code.toNat
      ↔ Opcode.ofCode? (UInt16.ofNat code) = some i.opcode := by
    intro i
    rw [Opcode.ofCode?_eq_some, ← UInt16.toNat_inj, toNat_ofNat_of_lt_limit small]
  cases found : Opcode.ofCode? (UInt16.ofNat code) with
  | none =>
      refine Exact.fail ?_
      rintro i ⟨same, _⟩
      have known := (opcodes i).mp same
      rw [found] at known
      cases known
  | some opcode =>
      simp only [opcodes, found, Option.some.injEq]
      by_cases operand : opcode.hasOperand = true
      · rw [if_pos operand]
        refine (exact_index.bind (fun i : Instruction => i.operand.getD 0) _ _ (fun operand _ =>
          Exact.pure (Instruction.mk opcode (some operand))) ?_).congr (fun i => ?_)
            fun i good => ?_
        · intro operand i _ made
          rw [made]
          rfl
        · obtain ⟨opcode', operand'⟩ := i
          simp only [Instruction.mk.injEq, Instruction.Encodable, Instruction.arg]
          constructor
          · rintro ⟨small, rfl, made⟩
            rw [made]
            exact ⟨rfl, by simp [operand], small⟩
          · rintro ⟨rfl, present, small⟩
            rw [operand] at present
            obtain ⟨n, rfl⟩ := Option.isSome_iff_exists.mp present
            exact ⟨small, rfl, rfl⟩
        · rw [good.2, if_pos operand, List.append_nil]
          rfl
      · rw [if_neg operand]
        refine (Exact.pure (Instruction.mk opcode none)).congr (fun i => ?_) fun i made => ?_
        · obtain ⟨opcode', operand'⟩ := i
          simp only [Instruction.mk.injEq, Instruction.Encodable]
          constructor
          · rintro ⟨rfl, rfl⟩
            exact ⟨rfl, by simp [operand], Nat.zero_lt_succ _⟩
          · rintro ⟨rfl, absent, _⟩
            rw [Bool.eq_false_iff.mpr operand] at absent
            exact ⟨rfl, Option.isSome_eq_false_iff.mp absent |> Option.isNone_iff_eq_none.mp⟩
        · rw [made, if_neg operand]

theorem exact_function (origin : String) (number : Nat) :
    Exact (readFunction origin number) FunctionRecord.Encodable encodeFunction := by
  refine (exact_index.bind FunctionRecord.name _ _ (fun name _ =>
    exact_index.bind FunctionRecord.params _ _ (fun params _ =>
    exact_index.bind FunctionRecord.result _ _ (fun result _ =>
    exact_u16.bind (fun f : FunctionRecord => f.maxStack.toNat) _ _ (fun maxStack _ =>
    exact_u16.bind (fun f : FunctionRecord => f.locals.toNat) _ _ (fun locals _ =>
    (exact_counted (exact_instruction origin number)).bind
      (fun f : FunctionRecord => f.code.toList) _ _ (fun code _ =>
    Exact.pure (FunctionRecord.mk name params result (.ofNat maxStack) (.ofNat locals)
      code.toArray)) ?_) ?_) ?_) ?_) ?_) ?_).congr (fun f => ?_) fun f _ => ?_
  · intro code f _ made
    rw [made]
  · intro locals f small made
    rw [made.2]
    exact toNat_ofNat_of_lt_limit small
  · intro maxStack f small made
    rw [made.2.2]
    exact toNat_ofNat_of_lt_limit small
  · intro result f _ made
    rw [made.2.2.2]
  · intro params f _ made
    rw [made.2.2.2.2]
  · intro name f _ made
    rw [made.2.2.2.2.2]
  · simp only [UInt16.ofNat_toNat, Array.toArray_toList, and_true, Array.length_toList]
    constructor
    · intro accepted
      exact ⟨accepted.1, accepted.2.1, accepted.2.2.1, accepted.2.2.2.2.2.1,
        accepted.2.2.2.2.2.2⟩
    · intro good
      exact ⟨good.name, good.params, good.result, f.maxStack.toNat_lt, f.locals.toNat_lt,
        good.length, good.code⟩
  · simp only [encodeFunction, List.append_assoc, List.append_nil, Array.length_toList]

theorem exact_field : Exact readField FieldRecord.Encodable encodeField := by
  refine (exact_index.bind FieldRecord.name _ _ (fun name _ =>
    exact_index.bind FieldRecord.descriptor _ _ (fun descriptor _ =>
    Exact.pure (FieldRecord.mk name descriptor)) ?_) ?_).congr (fun f => ?_) fun f _ => ?_
  · intro descriptor f _ made
    rw [made]
  · intro name f _ made
    rw [made.2]
  · exact ⟨fun accepted => ⟨accepted.1, accepted.2.1⟩,
      fun good => ⟨good.name, good.descriptor, rfl⟩⟩
  · simp only [encodeField, List.append_nil]

theorem exact_class : Exact readClass ClassRecord.Encodable encodeClass := by
  refine (exact_index.bind ClassRecord.name _ _ (fun name _ =>
    (exact_counted fun _ => exact_field).bind ClassRecord.fields _ _ (fun fields _ =>
    (exact_counted fun _ => exact_index).bind ClassRecord.methods _ _ (fun methods _ =>
    Exact.pure (ClassRecord.mk name fields methods)) ?_) ?_) ?_).congr (fun c => ?_) fun c _ => ?_
  · intro methods c _ made
    rw [made]
  · intro fields c _ made
    rw [made.2]
  · intro name c _ made
    rw [made.2.2]
  · constructor
    · intro accepted
      exact ⟨accepted.1, accepted.2.1.1, accepted.2.1.2, accepted.2.2.1.1, accepted.2.2.1.2⟩
    · intro good
      exact ⟨good.name, ⟨good.fieldCount, good.fields⟩, ⟨good.methodCount, good.methods⟩, rfl⟩
  · simp only [encodeClass, List.append_assoc, List.append_nil]

/-- Files are read exactly as they are written. -/
theorem exact_file (origin : String) : Exact (read origin) Encodable encode := by
  refine ((exact_header origin).bind ProgramFile.version _ _ (fun version _ =>
    (exact_counted (exact_constant origin)).bind ProgramFile.constants _ _ (fun constants _ =>
    (exact_counted (exact_function origin)).bind ProgramFile.functions _ _ (fun functions _ =>
    (exact_counted fun _ => exact_class).bind ProgramFile.classes _ _ (fun classes _ =>
    Exact.pure (ProgramFile.mk version constants functions classes)) ?_) ?_) ?_) ?_).congr
      (fun file => ?_) fun file _ => ?_
  · intro classes file _ made
    rw [made]
  · intro functions file _ made
    rw [made.2]
  · intro constants file _ made
    rw [made.2.2]
  · intro version file _ made
    rw [made.2.2.2]
  · constructor
    · intro accepted
      exact ⟨accepted.1, accepted.2.1.1, accepted.2.1.2, accepted.2.2.1.1, accepted.2.2.1.2,
        accepted.2.2.2.1.1, accepted.2.2.2.1.2⟩
    · intro good
      exact ⟨good.version, ⟨good.constantCount, good.constants⟩,
        ⟨good.functionCount, good.functions⟩, ⟨good.classCount, good.classes⟩, rfl⟩
  · simp only [encode, List.append_assoc, List.append_nil]

/-! ## Files -/

def encodeBody (file : ProgramFile) : List UInt8 :=
  encodeU16 file.constants.length ++ file.constants.flatMap encodeConstant
    ++ encodeU16 file.functions.length ++ file.functions.flatMap encodeFunction
    ++ encodeU16 file.classes.length ++ file.classes.flatMap encodeClass

theorem encode_eq (file : ProgramFile) :
    file.encode = [0x62, 0x61, 0x6c, 0x6c, file.version.major, file.version.minor,
      file.version.patch, 0] ++ file.encodeBody := by
  have start : encodeHeader file.version = [0x62, 0x61, 0x6c, 0x6c, file.version.major,
      file.version.minor, file.version.patch, 0] := rfl
  simp only [encode, encodeBody, start, List.append_assoc]

theorem read_ofBytes_iff {origin : String} {input : List UInt8} {file : ProgramFile}
    {c : Cursor} :
    read origin (Cursor.ofBytes input) = .ok (file, c)
      ↔ file.Encodable ∧ input = file.encode ++ c.rest ∧ c.position = file.encode.length := by
  have exactly := exact_file origin (Cursor.ofBytes input) c file
  rw [show (Cursor.ofBytes input).position = 0 from rfl, Nat.zero_add] at exactly
  exact exactly

theorem parse_iff {origin : String} {input rest : List UInt8} {file : ProgramFile} :
    parse origin input = .ok (file, rest) ↔ file.Encodable ∧ input = file.encode ++ rest := by
  unfold parse
  constructor
  · intro parsed
    cases found : read origin (Cursor.ofBytes input) with
    | error e =>
        rw [found] at parsed
        cases parsed
    | ok result =>
        obtain ⟨file', c⟩ := result
        rw [found] at parsed
        cases parsed
        obtain ⟨good, whole, _⟩ := read_ofBytes_iff.mp found
        exact ⟨good, whole⟩
  · rintro ⟨good, whole⟩
    have found : read origin (Cursor.ofBytes input) = .ok (file, ⟨rest, file.encode.length⟩) :=
      read_ofBytes_iff.mpr ⟨good, whole, rfl⟩
    rw [found]

/-- A file is read exactly where one was written: reading gives the file that can be written, from
the bytes that it is written as, and stops after them. So an input can be read if and only if it
begins with the magic number, a version that is known and no flags, and then holds the one body
that it can hold. -/
theorem files_are_read_as_written (origin : String) (input : List UInt8) :
    (∀ (file : ProgramFile) (c : Cursor), read origin (Cursor.ofBytes input) = .ok (file, c)
      ↔ file.Encodable ∧ input = file.encode ++ c.rest ∧ c.position = file.encode.length)
    ∧ (∀ (file : ProgramFile) (rest : List UInt8), parse origin input = .ok (file, rest)
      ↔ file.Encodable ∧ input = file.encode ++ rest)
    ∧ ((∃ file c, read origin (Cursor.ofBytes input) = .ok (file, c))
      ↔ ∃ (version : Version) (body : List UInt8), (version.major = 0 ∨ version.major = 1)
          ∧ input = [0x62, 0x61, 0x6c, 0x6c, version.major, version.minor, version.patch, 0] ++ body
          ∧ ∃! file : ProgramFile, file.version = version ∧ file.Encodable
            ∧ file.encodeBody <+: body) := by
  refine ⟨fun file c => read_ofBytes_iff, fun file rest => parse_iff, ?_⟩
  have accepted : ∀ (file : ProgramFile) (body : List UInt8),
      input = [0x62, 0x61, 0x6c, 0x6c, file.version.major, file.version.minor,
        file.version.patch, 0] ++ body → file.Encodable → file.encodeBody <+: body →
      ∃ c, read origin (Cursor.ofBytes input) = .ok (file, c) := by
    rintro file body whole good ⟨rest, rfl⟩
    refine ⟨⟨rest, file.encode.length⟩, read_ofBytes_iff.mpr ⟨good, ?_, rfl⟩⟩
    rw [whole, encode_eq, List.append_assoc]
  constructor
  · rintro ⟨file, c, found⟩
    obtain ⟨good, whole, _⟩ := read_ofBytes_iff.mp found
    rw [encode_eq, List.append_assoc] at whole
    refine ⟨file.version, file.encodeBody ++ c.rest, good.version, whole, file,
      ⟨rfl, good, List.prefix_append ..⟩, ?_⟩
    rintro file' ⟨version, good', inside⟩
    obtain ⟨c', found'⟩ := accepted file' _ (version ▸ whole) good' inside
    rw [found] at found'
    cases found'
    rfl
  · rintro ⟨version, body, _, whole, file, ⟨same, good, inside⟩, _⟩
    exact ⟨file, accepted file body (same ▸ whole) good inside⟩

end ProgramFile

end StackMachine
