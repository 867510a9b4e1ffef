import StackMachine.Program.LoadError

/-! # Program files

A program file is a header, constants, functions and classes. Numbers are big-endian; counts,
indices and the lengths of texts take two bytes. `ProgramFile.encode` writes a file and
`ProgramFile.read` reads one from the front of its input.
-/

namespace StackMachine

structure Version where
  major : UInt8
  minor : UInt8
  patch : UInt8
  deriving DecidableEq, Repr

def Version.maxMajor : UInt8 := 1

structure ProgramFile where
  version : Version
  constants : List Constant
  functions : List FunctionRecord
  classes : List ClassRecord
  deriving DecidableEq, Repr

namespace ProgramFile

def counts (file : ProgramFile) : Counts :=
  ⟨file.constants.length, file.functions.length, file.classes.length⟩

/-! ## Writing -/

def encodeU16 (n : Nat) : List UInt8 := Bytes.ofNat 2 n

def encodeIndex (index : UInt32) : List UInt8 := encodeU16 index.toNat

def encodeConstant (c : Constant) : List UInt8 :=
  match c.tag.width? with
  | some _ => c.tag.code :: c.payload
  | none => c.tag.code :: (encodeU16 c.payload.length ++ c.payload)

def encodeInstruction (i : Instruction) : List UInt8 :=
  encodeU16 i.opcode.code.toNat ++ (if i.opcode.hasOperand then encodeU16 i.arg else [])

def encodeFunction (f : FunctionRecord) : List UInt8 :=
  encodeIndex f.name ++ encodeIndex f.params ++ encodeIndex f.result
    ++ encodeU16 f.maxStack.toNat ++ encodeU16 f.locals.toNat
    ++ encodeU16 f.code.size ++ f.code.toList.flatMap encodeInstruction

def encodeField (f : FieldRecord) : List UInt8 :=
  encodeIndex f.name ++ encodeIndex f.descriptor

def encodeClass (c : ClassRecord) : List UInt8 :=
  encodeIndex c.name
    ++ encodeU16 c.fields.length ++ c.fields.flatMap encodeField
    ++ encodeU16 c.methods.length ++ c.methods.flatMap encodeIndex

def encodeHeader (v : Version) : List UInt8 :=
  Bytes.ofNat 4 magic ++ [v.major, v.minor, v.patch, 0]

def encode (file : ProgramFile) : List UInt8 :=
  encodeHeader file.version
    ++ encodeU16 file.constants.length ++ file.constants.flatMap encodeConstant
    ++ encodeU16 file.functions.length ++ file.functions.flatMap encodeFunction
    ++ encodeU16 file.classes.length ++ file.classes.flatMap encodeClass

/-! ## Reading -/

abbrev Reader (α : Type) := StateT Cursor (Except LoadError) α

namespace Reader

def ofRead {α : Type} (read : Cursor → Except Truncation (α × Cursor)) : Reader α := fun c =>
  match read c with
  | .ok result => .ok result
  | .error t => .error ⟨s!"offset {t.position}", .truncated t⟩

def fail {α : Type} (context : String) (cause : LoadCause) : Reader α := fun _ =>
  .error ⟨context, cause⟩

def u8 : Reader Nat := ofRead Cursor.u8

def u16 : Reader Nat := ofRead Cursor.u16

def u32 : Reader Nat := ofRead Cursor.u32

def bytes (n : Nat) : Reader (List UInt8) := ofRead (Cursor.bytes · n)

def prefixed : Reader (List UInt8) := ofRead Cursor.prefixed

def index : Reader UInt32 := do return UInt32.ofNat (← u16)

/-- Reads `count` items; the reader of an item is given its number, from `start` on. -/
def items {α : Type} (item : Nat → Reader α) (start : Nat) : Nat → Reader (List α)
  | 0 => return []
  | count + 1 => do
      let first ← item start
      let rest ← items item (start + 1) count
      return first :: rest

def counted {α : Type} (item : Nat → Reader α) : Reader (List α) := do
  items item 0 (← u16)

end Reader

def readVersion (origin : String) : Reader Version := do
  match ← Reader.bytes 3 with
  | [major, minor, patch] =>
      if major > Version.maxMajor then
        Reader.fail origin (.unsupportedVersion major minor patch)
      else return ⟨major, minor, patch⟩
  | _ => Reader.fail origin (.unsupportedVersion 0 0 0)

def readHeader (origin : String) : Reader Version := do
  let found ← Reader.u32
  if found ≠ magic then Reader.fail origin (.badMagic found)
  let version ← readVersion origin
  let flags ← Reader.u8
  if flags ≠ 0 then Reader.fail origin (.unsupportedFlags flags)
  return version

def readConstant (origin : String) (number : Nat) : Reader Constant := do
  let byte ← Reader.u8
  match ConstantTag.ofCode? byte with
  | none => Reader.fail s!"{origin} constant #{number}" (.unknownTag byte)
  | some tag =>
      let payload ← match tag.width? with
        | some width => Reader.bytes width
        | none => Reader.prefixed
      if tag.isText && (Bytes.toString? payload).isNone then
        Reader.fail s!"{origin} constant #{number}" .invalidText
      return ⟨tag, payload⟩

def readInstruction (origin : String) (function pc : Nat) : Reader Instruction := do
  let code ← Reader.u16
  match Opcode.ofCode? (UInt16.ofNat code) with
  | none => Reader.fail s!"{origin} function #{function} pc {pc}" (.unknownOpcode code)
  | some opcode =>
      if opcode.hasOperand then return ⟨opcode, some (← Reader.index)⟩
      else return ⟨opcode, none⟩

def readFunction (origin : String) (number : Nat) : Reader FunctionRecord := do
  let name ← Reader.index
  let params ← Reader.index
  let result ← Reader.index
  let maxStack ← Reader.u16
  let locals ← Reader.u16
  let code ← Reader.counted (readInstruction origin number)
  return ⟨name, params, result, UInt16.ofNat maxStack, UInt16.ofNat locals, code.toArray⟩

def readField : Reader FieldRecord := do
  let name ← Reader.index
  let descriptor ← Reader.index
  return ⟨name, descriptor⟩

def readClass : Reader ClassRecord := do
  let name ← Reader.index
  let fields ← Reader.counted fun _ => readField
  let methods ← Reader.counted fun _ => Reader.index
  return ⟨name, fields, methods⟩

/-- Reads a file; `origin` names the input in errors. -/
def read (origin : String) : Reader ProgramFile := do
  let version ← readHeader origin
  let constants ← Reader.counted (readConstant origin)
  let functions ← Reader.counted (readFunction origin)
  let classes ← Reader.counted fun _ => readClass
  return ⟨version, constants, functions, classes⟩

/-- The file at the front of the input, and the bytes that follow it. -/
def parse (origin : String) (input : List UInt8) :
    Except LoadError (ProgramFile × List UInt8) :=
  match read origin (Cursor.ofBytes input) with
  | .ok (file, c) => .ok (file, c.rest)
  | .error e => .error e

end ProgramFile

end StackMachine
