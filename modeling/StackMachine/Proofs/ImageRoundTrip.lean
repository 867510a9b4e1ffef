import Mathlib
import StackMachine.Proofs.LoadedMachines

/-! # Images are loaded as they were saved

Decoders read back what the encoders write. A program that registration builds is restored from
its records, so a verified program that is saved is the program that is loaded, and a machine
that loads it runs as the machine did that saved it.
-/

namespace StackMachine

/-! ## Decoders -/

/-- The decoder takes these bytes off whatever follows them, and gives the value. -/
def Decoder.Reads {α : Type} (d : Decoder α) (bytes : List UInt8) (a : α) : Prop :=
  ∀ rest, d (bytes ++ rest) = .ok (a, rest)

namespace Decoder.Reads

variable {α β : Type} {d : Decoder α} {bytes bytes' : List UInt8} {a : α} {b : β}

theorem pure (a : α) : (Pure.pure a : Decoder α).Reads [] a := fun _ => rfl

theorem bind {k : α → Decoder β} (first : d.Reads bytes a) (second : (k a).Reads bytes' b) :
    (d >>= k).Reads (bytes ++ bytes') b := by
  intro rest
  show StateT.bind d k _ = _
  rw [List.append_assoc, StateT.bind, first]
  exact second rest

theorem map {f : α → β} (read : d.Reads bytes a) :
    (do return f (← d) : Decoder β).Reads bytes (f a) := by
  have whole := read.bind (k := fun a => Pure.pure (f a)) (.pure (f a))
  rwa [List.append_nil] at whole

end Decoder.Reads

namespace Varint

section Groups

variable {lastMax left : Nat} {byte : UInt8} {rest rest' : List UInt8}

theorem decodeGroups_of_last (last : byte.toNat < 128) (allowed : left = 0 → byte.toNat ≤ lastMax) :
    decodeGroups lastMax (left + 1) (byte :: rest) = .ok (byte.toNat, rest) := by
  simp only [decodeGroups]
  rw [if_pos last, if_neg (by omega)]

theorem decodeGroups_of_more {high : Nat} (more : 128 ≤ byte.toNat)
    (later : decodeGroups lastMax left rest = .ok (high, rest')) :
    decodeGroups lastMax (left + 1) (byte :: rest)
      = .ok (byte.toNat - 128 + 128 * high, rest') := by
  simp only [decodeGroups, later]
  rw [if_neg (by omega)]

end Groups

theorem encode_of_lt {n : Nat} (single : n < 128) : encode n = [UInt8.ofNat n] := by
  rw [encode, if_pos single]

theorem encode_of_le {n : Nat} (more : 128 ≤ n) :
    encode n = UInt8.ofNat (n % 128 + 128) :: encode (n / 128) := by
  rw [encode, if_neg (by omega)]

/-- A number is read back if its groups are no more than the reader takes. -/
theorem reads_groups {lastMax : Nat} (small : lastMax < 128) (left n : Nat)
    (bound : n < (lastMax + 1) * 128 ^ left) :
    (decodeGroups lastMax (left + 1)).Reads (encode n) n := by
  have byte : ∀ k < 256, (UInt8.ofNat k).toNat = k := by
    intro k inside
    rw [UInt8.toNat_ofNat']
    omega
  induction left generalizing n with
  | zero =>
      intro rest
      have value := byte n (by omega)
      rw [encode_of_lt (by omega), List.singleton_append,
        decodeGroups_of_last (by omega) (by omega), value]
  | succ left ih =>
      intro rest
      by_cases single : n < 128
      · have value := byte n (by omega)
        rw [encode_of_lt single, List.singleton_append,
          decodeGroups_of_last (by omega) (by omega), value]
      · have value := byte (n % 128 + 128) (by omega)
        have higher : n / 128 < (lastMax + 1) * 128 ^ left := by
          rw [Nat.div_lt_iff_lt_mul (by omega), Nat.mul_assoc, ← Nat.pow_succ]
          exact bound
        rw [encode_of_le (by omega), List.cons_append,
          decodeGroups_of_more (by omega) (ih (n / 128) higher rest), value,
          show n % 128 + 128 - 128 + 128 * (n / 128) = n by omega]

theorem reads_u16 {n : Nat} (bound : n < 0x10000) : (decode u16).Reads (encode n) n := by
  show (decodeGroups 3 (2 + 1)).Reads (encode n) n
  exact reads_groups (by omega) 2 n (by omega)

theorem reads_u32 {n : Nat} (bound : n < 0x100000000) : (decode u32).Reads (encode n) n := by
  show (decodeGroups 15 (4 + 1)).Reads (encode n) n
  exact reads_groups (by omega) 4 n (by omega)

theorem reads_length {n : Nat} (bound : n < addressSpace) :
    (decode length).Reads (encode n) n := by
  show (decodeGroups 1 (9 + 1)).Reads (encode n) n
  unfold addressSpace at bound
  exact reads_groups (by omega) 9 n (by omega)

end Varint

namespace Image

open Decoder (Reads)

theorem reads_index (n : UInt32) : decodeIndex.Reads (encodeIndex n) n := by
  have read := (Varint.reads_u32 n.toNat_lt).map (f := UInt32.ofNat)
  rwa [UInt32.ofNat_toNat] at read

theorem reads_number (n : UInt16) : decodeU16.Reads (Varint.encode n.toNat) n := by
  have read := (Varint.reads_u16 n.toNat_lt).map (f := UInt16.ofNat)
  rwa [UInt16.ofNat_toNat] at read

theorem reads_byte (byte : UInt8) : decodeByte.Reads [byte] byte := fun _ => rfl

theorem reads_variant {α : Type} {ofOrdinal? : Nat → Option α} {ordinal : Nat} {a : α}
    (small : ordinal < 0x100000000) (known : ofOrdinal? ordinal = some a) :
    (decodeVariant ofOrdinal?).Reads (Varint.encode ordinal) a := by
  unfold decodeVariant
  rw [← List.append_nil (Varint.encode ordinal)]
  refine (Varint.reads_u32 small).bind ?_
  simp only [known]
  exact .pure a

theorem reads_tag (tag : ConstantTag) :
    (decodeVariant ConstantTag.ofOrdinal?).Reads (Varint.encode tag.ordinal) tag := by
  have place : tag.ordinal < ConstantTag.all.length := List.idxOf_lt_length_of_mem tag.mem_all
  refine reads_variant (place.trans (by decide)) ?_
  rw [ConstantTag.ofOrdinal?, List.getElem?_eq_getElem place]
  exact congrArg some (List.getElem_idxOf place)

theorem reads_opcode (o : Opcode) :
    (decodeVariant Opcode.ofOrdinal?).Reads (Varint.encode o.ordinal) o := by
  have place : o.ordinal < Opcode.all.length := List.idxOf_lt_length_of_mem o.mem_all
  refine reads_variant (place.trans (by decide)) ?_
  rw [Opcode.ofOrdinal?, List.getElem?_eq_getElem place]
  exact congrArg some (List.getElem_idxOf place)

theorem reads_option (operand : Option UInt32) :
    decodeOption.Reads (encodeOption operand) operand := by
  cases operand with
  | none => exact (reads_byte 0).bind (.pure none)
  | some n => exact (reads_byte 1).bind (reads_index n).map

section Sequences

variable {α : Type} {d : Decoder α} {item : α → List UInt8} {items : List α}

theorem reads_items (each : ∀ a ∈ items, d.Reads (item a) a) :
    (decodeItems d items.length).Reads (items.flatMap item) items := by
  induction items with
  | nil => exact .pure []
  | cons a rest ih =>
      have first := each a (List.mem_cons_self ..)
      have later := ih fun a member => each a (List.mem_cons_of_mem _ member)
      rw [List.flatMap_cons]
      exact first.bind later.map

theorem reads_seq (fits : items.length < addressSpace) (each : ∀ a ∈ items, d.Reads (item a) a) :
    (decodeSeq d).Reads (encodeSeq item items) items :=
  (Varint.reads_length fits).bind (reads_items each)

end Sequences

/-! ## Records -/

theorem reads_constant {c : Constant} (fits : c.payload.length < addressSpace) :
    decodeConstant.Reads (encodeConstant c) c :=
  (reads_tag c.tag).bind (reads_seq fits fun byte _ => reads_byte byte).map

theorem reads_instruction (i : Instruction) : decodeInstruction.Reads (encodeInstruction i) i :=
  (reads_opcode i.opcode).bind (reads_option i.operand).map

theorem reads_function {f : FunctionRecord} (fits : f.code.size < addressSpace) :
    decodeFunction.Reads (encodeFunction f) f := by
  have code : (decodeSeq decodeInstruction).Reads
      (encodeSeq encodeInstruction f.code.toList) f.code.toList :=
    reads_seq (by simpa using fits) fun i _ => reads_instruction i
  simp only [encodeFunction, List.append_assoc]
  refine (reads_index f.name).bind ?_
  refine (reads_index f.params).bind ?_
  refine (reads_index f.result).bind ?_
  refine (reads_number f.maxStack).bind ?_
  refine (reads_number f.locals).bind ?_
  exact code.map

theorem reads_field (f : FieldRecord) : decodeField.Reads (encodeField f) f :=
  (reads_index f.name).bind (reads_index f.descriptor).map

theorem reads_class {c : ClassRecord} (fields : c.fields.length < addressSpace)
    (methods : c.methods.length < addressSpace) : decodeClass.Reads (encodeClass c) c := by
  simp only [encodeClass, List.append_assoc]
  refine (reads_index c.name).bind ?_
  refine (reads_seq fields fun f _ => reads_field f).bind ?_
  exact (reads_seq methods fun n _ => reads_index n).map

end Image

/-! ## Programs -/

namespace Program

/-- The program fits in memory: no pool and no list of a record is longer than the address space,
which is what the length of a sequence can say. -/
structure Addressable (p : Program) : Prop where
  constants : p.constants.size < addressSpace
  payloads : ∀ c ∈ p.constants, c.payload.length < addressSpace
  functions : p.functions.size < addressSpace
  code : ∀ f ∈ p.functions, f.code.size < addressSpace
  classes : p.classes.size < addressSpace
  fields : ∀ c ∈ p.classes, c.record.fields.length < addressSpace
  methods : ∀ c ∈ p.classes, c.methods.length < addressSpace

instance (p : Program) : Decidable p.Addressable :=
  decidable_of_iff (p.constants.size < addressSpace
      ∧ (∀ c ∈ p.constants, c.payload.length < addressSpace)
      ∧ p.functions.size < addressSpace ∧ (∀ f ∈ p.functions, f.code.size < addressSpace)
      ∧ p.classes.size < addressSpace ∧ (∀ c ∈ p.classes, c.record.fields.length < addressSpace)
      ∧ ∀ c ∈ p.classes, c.methods.length < addressSpace)
    ⟨fun all => ⟨all.1, all.2.1, all.2.2.1, all.2.2.2.1, all.2.2.2.2.1, all.2.2.2.2.2.1,
        all.2.2.2.2.2.2⟩,
      fun fits => ⟨fits.constants, fits.payloads, fits.functions, fits.code, fits.classes,
        fits.fields, fits.methods⟩⟩

variable {p : Program}

theorem Addressable.reads (fits : p.Addressable) :
    Image.decode.Reads p.saveImage (Image.ofProgram p) := by
  have constants : (Image.decodeSeq Image.decodeConstant).Reads
      (Image.encodeSeq Image.encodeConstant p.constants.toList) p.constants.toList := by
    refine Image.reads_seq (by simpa using fits.constants) ?_
    intro c member
    exact Image.reads_constant (fits.payloads c (Array.mem_toList_iff.mp member))
  have functions : (Image.decodeSeq Image.decodeFunction).Reads
      (Image.encodeSeq Image.encodeFunction (p.functions.toList.map (·.record)))
      (p.functions.toList.map (·.record)) := by
    refine Image.reads_seq (by simpa using fits.functions) ?_
    intro r member
    obtain ⟨f, inside, rfl⟩ := List.mem_map.mp member
    exact Image.reads_function (fits.code f (Array.mem_toList_iff.mp inside))
  have classes : (Image.decodeSeq Image.decodeClass).Reads
      (Image.encodeSeq Image.encodeClass (p.classes.toList.map (·.record)))
      (p.classes.toList.map (·.record)) := by
    refine Image.reads_seq (by simpa using fits.classes) ?_
    intro r member
    obtain ⟨c, inside, rfl⟩ := List.mem_map.mp member
    have listed := Array.mem_toList_iff.mp inside
    exact Image.reads_class (fits.fields c listed) (fits.methods c listed)
  simp only [saveImage, Image.encode, List.append_assoc]
  exact (Image.reads_index _).bind (constants.bind (functions.bind classes.map))

/-- A verified program that registration builds is loaded as it was saved. -/
theorem Consistent.loadImage_saveImage (consistent : p.Consistent) (fits : p.Addressable)
    (verified : p.verifyFrom 0 = .ok ()) : ∃ log, loadImage p.saveImage = (.ok p, log) := by
  have decoded := fits.reads []
  rw [List.append_nil] at decoded
  exact loadImage_eq_ok_iff.mpr
    ⟨Image.ofProgram p, [], decoded, rfl, consistent.restore verified⟩

end Program

/-! ## Machines -/

/-- A new machine that loads an image has its program and starts where the program does. -/
theorem Machine.loadImage_new {p : Program} {entry : LinkedFunction} {input : List UInt8}
    {entries : List LogEntry} (loaded : Program.loadImage input = (.ok p, entries))
    (found : p.entryPoint = .ok entry) (config : Config) (console : Console) (log : Log)
    (origin : String) :
    ∃ restored, (Machine.new config console log).loadImage input origin = (restored, .ok ())
      ∧ restored.program = p ∧ restored.entry = some entry := by
  have empty : (Machine.new config console log).program.functions.isEmpty = true := rfl
  unfold Machine.loadImage
  rw [if_pos empty]
  simp only [loaded, found]
  exact ⟨_, rfl, rfl, rfl⟩

/-- A program that registration builds, in whatever order, and that verifies is loaded from its
image as it was saved: the same constants, functions and classes, and so the same names. If a
machine's loads all succeed, a new machine can load the image of its program, and its run ends if
and only if that of the first machine does, with the same on the console and the same result. -/
theorem images_are_loaded_as_saved :
    (∀ (records : List Registration) (p : Program), p = Program.empty.registerAll records →
      p.Addressable → p.verifyFrom 0 = .ok () →
      ∃ log, Program.loadImage p.saveImage = (.ok p, log))
    ∧ ∀ (config : Config) (console : Console) (log log' : Log) (requests : List LoadRequest)
        (origin : String) (m : Machine) (entry : LinkedFunction),
      m = (Machine.new config console log).handleAll requests →
      (Machine.new config console log).AcceptsAll requests →
      m.entry = some entry → m.program.Addressable →
      ∃ restored,
        (Machine.new config console log').loadImage m.program.saveImage origin = (restored, .ok ())
        ∧ restored.program = m.program ∧ restored.entry = some entry
        ∧ ∀ out result, m.Finishes out result ↔ restored.Finishes out result := by
  constructor
  · intro records p built fits verified
    have consistent : p.Consistent := built ▸ Program.Consistent.empty.registerAll records
    exact consistent.loadImage_saveImage fits verified
  · intro config console log log' requests origin m entry loaded accepted set fits
    have settled : m.Settled := loaded ▸ (Machine.Settled.new config console log).handleAll requests
    have unrun : m.Unrun config console :=
      loaded ▸ (Machine.Unrun.new config console log).handleAll requests
    have verified : m.program.verifyFrom 0 = .ok () :=
      loaded ▸ Machine.verified_of_acceptsAll accepted
    obtain ⟨entries, saved⟩ := settled.program.loadImage_saveImage fits verified
    obtain ⟨restored, succeeded, program, start⟩ :=
      Machine.loadImage_new saved (settled.entry entry set) config console log' origin
    have unrun' := (Machine.Unrun.new config console log').handle
      (.image m.program.saveImage origin)
    rw [Machine.handle, succeeded] at unrun'
    refine ⟨restored, succeeded, program, start, ?_⟩
    intro out result
    rw [unrun.finishes_iff set, unrun'.finishes_iff start, program]

/-! Records of all sorts are registered in turn, some of them twice; and a library with a class is
loaded before a program that calls a function of its own. -/

namespace Doubling

def point : ClassRecord := ⟨0, [⟨1, 2⟩], [0]⟩

def reset : FunctionRecord := ⟨3, 4, 5, 0, 0, #[⟨.ret, none⟩]⟩

def names : List Constant :=
  [.ofString "Point", .ofString "x", .ofString "I32;", .ofString "Reset", .ofString "",
    .ofString "void;"]

/-- The class is refused before its method is there, and each record when it comes again. -/
def records : List Registration :=
  names.map .constant
    ++ [.record point, .function reset, .record point, .constant (.ofString "Rest"),
      .function reset, .record point]

def library : ProgramFile := ⟨⟨0, 1, 0⟩, names, [reset], [point]⟩

def doubling : ProgramFile :=
  ⟨⟨1, 0, 0⟩,
    [.ofString "Main", .ofString "", .ofString "void;", .ofString "Twice", .ofString "I32;",
      ⟨.int .i32, [0, 0, 0, 21]⟩],
    [⟨0, 1, 2, 1, 0, #[⟨.ldc, some 5⟩, ⟨.call, some 1⟩, ⟨.print, none⟩, ⟨.ret, none⟩]⟩,
      ⟨3, 4, 4, 2, 1, #[⟨.store, some 0⟩, ⟨.ldv, some 0⟩, ⟨.ldv, some 0⟩, ⟨.binary .add, none⟩,
        ⟨.ret, none⟩]⟩], []⟩

def requests : List LoadRequest :=
  [.library library.encode "std.ball", .program doubling.encode "main.ball"]

def fresh : Machine := .new {} .working (.empty none)

def machine : Machine := fresh.handleAll requests

def main : LinkedFunction :=
  ⟨"Main", ⟨6, 7, 8, 1, 0, #[⟨.ldc, some 11⟩, ⟨.call, some 2⟩, ⟨.print, none⟩, ⟨.ret, none⟩]⟩, [],
    .void⟩

theorem registered :
    (Program.empty.registerAll records).counts = ⟨7, 1, 1⟩
      ∧ (Program.empty.registerAll records).Addressable
      ∧ (Program.empty.registerAll records).verifyFrom 0 = .ok () := by
  have all : ((Program.empty.registerAll records).counts,
      decide (Program.empty.registerAll records).Addressable,
      (Program.empty.registerAll records).verifyFrom 0) = (⟨7, 1, 1⟩, true, .ok ()) := by cbv
  simpa only [Prod.mk.injEq, decide_eq_true_eq] using all

theorem loaded :
    fresh.AcceptsAll requests ∧ machine.entry = some main ∧ machine.program.Addressable
      ∧ machine.Finishes ⟨"42", none, none⟩ (.ok .returned) := by
  have all : ((fresh.loadLibrary library.encode "std.ball").2,
      ((fresh.loadLibrary library.encode "std.ball").1.loadProgram doubling.encode "main.ball").2,
      machine.entry, decide machine.program.Addressable,
      (machine.run 20).map fun ran => (ran.1.state.console, ran.2))
        = (.ok ⟨6, 1, 1⟩, .ok (), some main, true,
          some (⟨"42", none, none⟩, .ok .returned)) := by cbv
  simp only [Prod.mk.injEq, decide_eq_true_eq] at all
  obtain ⟨first, second, set, fits, run⟩ := all
  exact ⟨⟨⟨_, first⟩, second, trivial⟩, set, fits, Machine.finishes_of_run run⟩

theorem is_loaded_as_saved :
    (Program.empty.registerAll records).counts = ⟨7, 1, 1⟩
      ∧ (∃ log, Program.loadImage (Program.empty.registerAll records).saveImage
        = (.ok (Program.empty.registerAll records), log))
      ∧ ∃ restored, fresh.loadImage machine.program.saveImage "main.img" = (restored, .ok ())
        ∧ restored.Finishes ⟨"42", none, none⟩ (.ok .returned) := by
  obtain ⟨counted, addressable, verified⟩ := registered
  obtain ⟨accepted, set, fits, finishes⟩ := loaded
  obtain ⟨round, runs⟩ := images_are_loaded_as_saved
  obtain ⟨restored, succeeded, _, _, same⟩ := runs {} .working (.empty none) (.empty none) requests
    "main.img" machine main rfl accepted set fits
  exact ⟨counted, round records _ rfl addressable verified, restored, succeeded,
    (same _ _).mp finishes⟩

end Doubling

end StackMachine
