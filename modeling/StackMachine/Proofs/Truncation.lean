import Mathlib
import StackMachine.Program.Link
import StackMachine.Proofs.FileFormat

/-! # Files that are cut short

A reader is sequential if it takes bytes off the front of the input and does not look past them: it
gives the same whatever follows the bytes that it takes, and runs out of input if one of them is
missing. Readers that are put together from sequential ones are sequential. So a file that is cut
anywhere is refused as too short before anything is added, and what follows a file does not matter.
-/

namespace StackMachine

namespace ProgramFile

variable {α β : Type}

/-- The error of a read that began before the input stopped, and needed more than was left. -/
def RanOut (e : LoadError) (stop : Nat) : Prop :=
  ∃ t : Truncation, e = ⟨s!"offset {t.position}", .truncated t⟩ ∧ t.position + t.left = stop
    ∧ t.left < t.needed

/-- What the reader gives depends on the bytes that it takes only, and without one of them it runs
out of input. -/
def Reader.Sequential (read : Reader α) : Prop :=
  ∀ (c c' : Cursor) (a : α), read c = .ok (a, c') →
    ∃ taken, c.rest = taken ++ c'.rest ∧ c'.position = c.position + taken.length
      ∧ (∀ rest, read ⟨taken ++ rest, c.position⟩ = .ok (a, ⟨rest, c'.position⟩))
      ∧ ∀ cut < taken.length, ∃ e, read ⟨taken.take cut, c.position⟩ = .error e
          ∧ RanOut e (c.position + cut)

namespace Reader

theorem bind_eq_error {first : Reader α} {next : α → Reader β} {c : Cursor} {e : LoadError}
    (failed : first c = .error e) : (first >>= next) c = .error e := by
  show (first c >>= fun read => next read.1 read.2) = _
  rw [failed]
  rfl

namespace Sequential

theorem pure (a : α) : Sequential (pure a) := by
  intro c c' b made
  cases made
  exact ⟨[], rfl, rfl, fun _ => rfl, fun _ absurd => by cases absurd⟩

theorem fail {context : String} {cause : LoadCause} :
    Sequential (Reader.fail context cause : Reader α) := by
  intro c c' a made
  cases made

theorem bind {read : Reader α} {next : α → Reader β} (one : Sequential read)
    (two : ∀ a, Sequential (next a)) : Sequential (read >>= next) := by
  intro c c'' b made
  obtain ⟨a, c', first, second⟩ := bind_eq_ok.mp made
  obtain ⟨taken, whole, moved, extends₁, short₁⟩ := one c c' a first
  obtain ⟨taken', whole', moved', extends₂, short₂⟩ := two a c' c'' b second
  refine ⟨taken ++ taken', ?_, ?_, ?_, ?_⟩
  · rw [whole, whole', List.append_assoc]
  · rw [moved', moved, List.length_append, Nat.add_assoc]
  · intro rest
    rw [List.append_assoc]
    exact bind_eq_ok.mpr ⟨a, _, extends₁ (taken' ++ rest), extends₂ rest⟩
  · intro cut missing
    rw [List.length_append] at missing
    rcases Nat.lt_or_ge cut taken.length with early | late
    · obtain ⟨e, failed, ran⟩ := short₁ cut early
      rw [List.take_append_of_le_length (Nat.le_of_lt early)]
      exact ⟨e, bind_eq_error failed, ran⟩
    · obtain ⟨e, failed, ran⟩ := short₂ (cut - taken.length) (by omega)
      rw [List.take_append, List.take_of_length_le late]
      have stop : c'.position + (cut - taken.length) = c.position + cut := by omega
      refine ⟨e, ?_, stop ▸ ran⟩
      show (read _ >>= fun read => next read.1 read.2) = _
      rw [extends₁]
      exact failed

end Sequential

/-! ## Bytes and numbers -/

theorem splitExactly?_of_short {n : Nat} {items : List α} (short : items.length < n) :
    splitExactly? n items = none := by
  cases split : splitExactly? n items with
  | none => rfl
  | some parts =>
      obtain ⟨length, whole⟩ := splitExactly?_eq_some.mp (Prod.eta parts ▸ split)
      rw [whole, List.length_append] at short
      omega

theorem bytes_of_short {n : Nat} {c : Cursor} (short : c.rest.length < n) :
    bytes n c = .error ⟨s!"offset {c.position}", .truncated ⟨c.position, n, c.rest.length⟩⟩ := by
  simp only [bytes, ofRead, Cursor.bytes, splitExactly?_of_short short, Cursor.remaining]

theorem sequential_bytes (n : Nat) : Sequential (bytes n) := by
  intro c c' taken made
  obtain ⟨length, whole, moved⟩ := (exact_bytes n c c' taken).mp made
  refine ⟨taken, whole, moved, ?_, ?_⟩
  · intro rest
    exact (exact_bytes n _ _ taken).mpr ⟨length, rfl, moved⟩
  · intro cut missing
    have left : (taken.take cut).length = cut := List.length_take_of_le (Nat.le_of_lt missing)
    have short : (taken.take cut).length < n := by omega
    have failed := bytes_of_short (c := ⟨taken.take cut, c.position⟩) short
    refine ⟨_, failed, ⟨c.position, n, (taken.take cut).length⟩, rfl, ?_, short⟩
    rw [left]

theorem number_eq_bind (width : Nat) :
    ofRead (Cursor.number · width)
      = (bytes width >>= fun taken => Pure.pure (Bytes.toNat taken)) := by
  funext c
  show _ = (bytes width c >>= fun read => (Pure.pure (Bytes.toNat read.1) : Reader Nat) read.2)
  simp only [bytes, ofRead, Cursor.number]
  cases c.bytes width with
  | error t => rfl
  | ok found => rfl

theorem sequential_number (width : Nat) : Sequential (ofRead (Cursor.number · width)) := by
  rw [number_eq_bind]
  exact (sequential_bytes width).bind fun _ => .pure _

theorem sequential_u8 : Sequential u8 := sequential_number 1

theorem sequential_u16 : Sequential u16 := sequential_number 2

theorem sequential_u32 : Sequential u32 := sequential_number 4

theorem sequential_index : Sequential index := sequential_u16.bind fun _ => .pure _

theorem sequential_prefixed : Sequential prefixed := by
  rw [prefixed_eq_bind]
  exact sequential_u16.bind sequential_bytes

/-! ## Sequences -/

theorem sequential_items {item : Nat → Reader α} (each : ∀ number, Sequential (item number))
    (start count : Nat) : Sequential (items item start count) := by
  induction count generalizing start with
  | zero => exact .pure _
  | succ count ih => exact (each start).bind fun _ => (ih (start + 1)).bind fun _ => .pure _

theorem sequential_counted {item : Nat → Reader α} (each : ∀ number, Sequential (item number)) :
    Sequential (counted item) := sequential_u16.bind (sequential_items each 0)

end Reader

open Reader

/-! ## Records -/

theorem sequential_version (origin : String) : Sequential (readVersion origin) := by
  refine (sequential_bytes 3).bind fun taken => ?_
  split
  · split
    · exact .fail
    · exact .pure _
  · exact .fail

theorem sequential_header (origin : String) : Sequential (readHeader origin) := by
  refine sequential_u32.bind fun found => ?_
  split
  · exact .fail
  · refine (sequential_version origin).bind fun version => sequential_u8.bind fun flags => ?_
    split
    · exact .fail
    · exact .pure _

theorem sequential_constant (origin : String) (number : Nat) :
    Sequential (readConstant origin number) := by
  have payload : ∀ tag payload,
      Sequential (ofPayload s!"{origin} constant #{number}" tag payload) := by
    intro tag payload
    unfold ofPayload
    split
    · exact .fail
    · exact .pure _
  refine sequential_u8.bind fun byte => ?_
  split
  · exact .fail
  · rename_i tag _
    split
    · exact (sequential_bytes _).bind (payload tag)
    · exact sequential_prefixed.bind (payload tag)

theorem sequential_instruction (origin : String) (function pc : Nat) :
    Sequential (readInstruction origin function pc) := by
  refine sequential_u16.bind fun code => ?_
  split
  · exact .fail
  · split
    · exact sequential_index.bind fun _ => .pure _
    · exact .pure _

theorem sequential_function (origin : String) (number : Nat) :
    Sequential (readFunction origin number) :=
  sequential_index.bind fun _ => sequential_index.bind fun _ => sequential_index.bind fun _ =>
    sequential_u16.bind fun _ => sequential_u16.bind fun _ =>
      (sequential_counted (sequential_instruction origin number)).bind fun _ => .pure _

theorem sequential_class : Sequential readClass :=
  sequential_index.bind fun _ =>
    (sequential_counted fun _ =>
      sequential_index.bind fun _ => sequential_index.bind fun _ => .pure _).bind fun _ =>
    (sequential_counted fun _ => sequential_index).bind fun _ => .pure _

theorem sequential_file (origin : String) : Sequential (read origin) :=
  (sequential_header origin).bind fun _ =>
    (sequential_counted (sequential_constant origin)).bind fun _ =>
    (sequential_counted (sequential_function origin)).bind fun _ =>
    (sequential_counted fun _ => sequential_class).bind fun _ => .pure _

theorem parse_of_error {origin : String} {input : List UInt8} {e : LoadError}
    (failed : read origin (Cursor.ofBytes input) = .error e) : parse origin input = .error e := by
  simp only [parse, failed]

theorem parse_of_ok {origin : String} {input : List UInt8} {file : ProgramFile} {c : Cursor}
    (made : read origin (Cursor.ofBytes input) = .ok (file, c)) :
    parse origin input = .ok (file, c.rest) := by
  simp only [parse, made]

end ProgramFile

/-! ## Loads -/

namespace Program

variable {p : Program} {origin : String} {input input' : List UInt8}

/-- What cannot be read adds nothing. -/
theorem load_of_unreadable {e : LoadError} (failed : ProgramFile.parse origin input = .error e) :
    p.load input origin = ⟨p, [], .error e⟩ := by
  simp only [load, failed]

/-- A load depends on the file at the front of the input only, but for what is logged. -/
theorem load_of_same_file {file : ProgramFile} {rest rest' : List UInt8}
    (one : ProgramFile.parse origin input = .ok (file, rest))
    (two : ProgramFile.parse origin input' = .ok (file, rest')) :
    (p.load input origin).result = (p.load input' origin).result
      ∧ (p.load input origin).program = (p.load input' origin).program := by
  simp only [load, one, two]
  cases p.link origin file with
  | mk linked result => cases result <;> exact ⟨rfl, rfl⟩

end Program

/-- If a file can be read from the front of the input, then a load of the input cut before the
file's end is refused because a read ran out of input, and adds nothing; what follows the file
changes neither the result nor the program. If none can be read, for whatever reason, nothing is
added. -/
theorem files_are_loaded_whole_or_not_at_all (p : Program) (input : List UInt8) (origin : String) :
    (∀ (file : ProgramFile) (c : Cursor),
      ProgramFile.read origin (Cursor.ofBytes input) = .ok (file, c) →
      c.rest = input.drop c.position
      ∧ (∀ cut < c.position, ∃ e, (p.load (input.take cut) origin).result = .error e
          ∧ e.stage = "ByteReader" ∧ ProgramFile.RanOut e cut
          ∧ (p.load (input.take cut) origin).program = p)
      ∧ ∀ more, (p.load (input.take c.position ++ more) origin).result
            = (p.load (input.take c.position) origin).result
          ∧ (p.load (input.take c.position ++ more) origin).program
            = (p.load (input.take c.position) origin).program)
    ∧ ∀ e, ProgramFile.read origin (Cursor.ofBytes input) = .error e →
        (p.load input origin).result = .error e ∧ (p.load input origin).program = p := by
  constructor
  · intro file c made
    obtain ⟨taken, whole, moved, extends_, short⟩ :=
      ProgramFile.sequential_file origin _ c file made
    have length : c.position = taken.length := by
      rw [moved]
      exact Nat.zero_add _
    have front : input.take c.position = taken := by
      rw [show input = taken ++ c.rest from whole, length, List.take_left]
    refine ⟨?_, ?_, ?_⟩
    · rw [show input = taken ++ c.rest from whole, length, List.drop_left]
    · intro cut missing
      obtain ⟨e, failed, ran⟩ := short cut (length ▸ missing)
      have cut_front : input.take cut = taken.take cut := by
        rw [← front, List.take_take, Nat.min_eq_left (Nat.le_of_lt missing)]
      have refused := Program.load_of_unreadable (p := p) (ProgramFile.parse_of_error failed)
      obtain ⟨t, rfl, stopped⟩ := ran
      rw [cut_front, refused]
      exact ⟨_, rfl, rfl, ⟨t, rfl, Nat.zero_add cut ▸ stopped⟩, rfl⟩
    · intro more
      have alone := ProgramFile.parse_of_ok (extends_ [])
      have followed := ProgramFile.parse_of_ok (extends_ more)
      rw [List.append_nil] at alone
      rw [front]
      exact Program.load_of_same_file followed alone
  · intro e failed
    rw [Program.load_of_unreadable (ProgramFile.parse_of_error failed)]
    exact ⟨rfl, rfl⟩

/-! A file with a function and a class is loaded after a constant: cut within an operand, whole and
with bytes after it; and with a flag in its header. -/

namespace Severed

def earlier : Program := (Program.empty.addConstant (.ofBool true)).1

def file : ProgramFile :=
  ⟨⟨1, 0, 0⟩,
    [.ofString "Main", .ofString "", .ofString "void;", .ofString "Point", .ofString "x",
      .ofString "I32;"],
    [⟨0, 1, 2, 0, 0, #[⟨.jmp, some 1⟩, ⟨.ret, none⟩]⟩], [⟨3, [⟨4, 5⟩], [0]⟩]⟩

def flagged : List UInt8 := (file.encode.take 7).concat 1

theorem readable :
    ProgramFile.read "point.ball" (Cursor.ofBytes file.encode) = .ok (file, ⟨[], 81⟩)
      ∧ (earlier.load file.encode "point.ball").result = .ok ⟨6, 1, 1⟩ := by
  constructor <;> cbv

theorem unreadable : ProgramFile.read "point.ball" (Cursor.ofBytes flagged)
    = .error ⟨"point.ball", .unsupportedFlags 1⟩ := by
  cbv

theorem is_refused_cut_and_loaded_whole :
    (∃ e, (earlier.load (file.encode.take 64) "point.ball").result = .error e
        ∧ e.stage = "ByteReader")
      ∧ (earlier.load (file.encode.take 64) "point.ball").program = earlier
      ∧ (earlier.load (file.encode.take 81 ++ [0, 1]) "point.ball").result = .ok ⟨6, 1, 1⟩
      ∧ (earlier.load flagged "point.ball").program = earlier := by
  obtain ⟨read, loaded⟩ := readable
  obtain ⟨whole, _⟩ := files_are_loaded_whole_or_not_at_all earlier file.encode "point.ball"
  obtain ⟨_, nothing⟩ := files_are_loaded_whole_or_not_at_all earlier flagged "point.ball"
  obtain ⟨_, cut, followed⟩ := whole file ⟨[], 81⟩ read
  obtain ⟨e, refused, stage, _, unchanged⟩ := cut 64 (by decide)
  have all : file.encode.take 81 = file.encode := by cbv
  refine ⟨⟨e, refused, stage⟩, unchanged, ?_, (nothing _ unreadable).2⟩
  rw [(followed [0, 1]).1, all, loaded]

end Severed

end StackMachine
