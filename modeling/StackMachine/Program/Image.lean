import StackMachine.Bytes.Varint
import StackMachine.Program.Link

/-! # Program images

An image holds the records of a linked program, with their indices as they are. It is written
without names or padding: numbers are variable-length, a sequence is its length and its items,
an optional number is 0, or 1 and the number, and opcodes and tags are their ordinals. Loading
an image registers its records anew and verifies all of its functions.
-/

namespace StackMachine

structure Image where
  magic : UInt32
  constants : List Constant
  functions : List FunctionRecord
  classes : List ClassRecord
  deriving DecidableEq, Repr

namespace Image

def expectedMagic : UInt32 := 0x62696d67

def ofProgram (p : Program) : Image :=
  ⟨expectedMagic, p.constants.toList, p.functions.toList.map (·.record),
    p.classes.toList.map (·.record)⟩

/-! ## Writing -/

def encodeSeq {α : Type} (item : α → List UInt8) (items : List α) : List UInt8 :=
  Varint.encode items.length ++ items.flatMap item

def encodeIndex (n : UInt32) : List UInt8 := Varint.encode n.toNat

def encodeOption : Option UInt32 → List UInt8
  | none => [0]
  | some n => 1 :: encodeIndex n

def encodeConstant (c : Constant) : List UInt8 :=
  Varint.encode c.tag.ordinal ++ encodeSeq (fun byte => [byte]) c.payload

def encodeInstruction (i : Instruction) : List UInt8 :=
  Varint.encode i.opcode.ordinal ++ encodeOption i.operand

def encodeFunction (f : FunctionRecord) : List UInt8 :=
  encodeIndex f.name ++ encodeIndex f.params ++ encodeIndex f.result
    ++ Varint.encode f.maxStack.toNat ++ Varint.encode f.locals.toNat
    ++ encodeSeq encodeInstruction f.code.toList

def encodeField (f : FieldRecord) : List UInt8 :=
  encodeIndex f.name ++ encodeIndex f.descriptor

def encodeClass (c : ClassRecord) : List UInt8 :=
  encodeIndex c.name ++ encodeSeq encodeField c.fields ++ encodeSeq encodeIndex c.methods

def encode (image : Image) : List UInt8 :=
  encodeIndex image.magic
    ++ encodeSeq encodeConstant image.constants
    ++ encodeSeq encodeFunction image.functions
    ++ encodeSeq encodeClass image.classes

/-! ## Reading -/

def decodeByte : Decoder UInt8
  | [] => .error .endOfInput
  | byte :: rest => .ok (byte, rest)

def decodeIndex : Decoder UInt32 := do return UInt32.ofNat (← Varint.decode Varint.u32)

def decodeU16 : Decoder UInt16 := do return UInt16.ofNat (← Varint.decode Varint.u16)

/-- Reads the ordinal of one of several variants. -/
def decodeVariant {α : Type} (ofOrdinal? : Nat → Option α) : Decoder α := do
  match ofOrdinal? (← Varint.decode Varint.u32) with
  | some a => return a
  | none => throw .unknownVariant

def decodeOption : Decoder (Option UInt32) := do
  match (← decodeByte).toNat with
  | 0 => return none
  | 1 => return some (← decodeIndex)
  | _ => throw .badOption

def decodeItems {α : Type} (item : Decoder α) : Nat → Decoder (List α)
  | 0 => return []
  | count + 1 => do
      let first ← item
      let rest ← decodeItems item count
      return first :: rest

def decodeSeq {α : Type} (item : Decoder α) : Decoder (List α) := do
  decodeItems item (← Varint.decode Varint.length)

def decodeConstant : Decoder Constant := do
  let tag ← decodeVariant ConstantTag.ofOrdinal?
  let payload ← decodeSeq decodeByte
  return ⟨tag, payload⟩

def decodeInstruction : Decoder Instruction := do
  let opcode ← decodeVariant Opcode.ofOrdinal?
  let operand ← decodeOption
  return ⟨opcode, operand⟩

def decodeFunction : Decoder FunctionRecord := do
  let name ← decodeIndex
  let params ← decodeIndex
  let result ← decodeIndex
  let maxStack ← decodeU16
  let locals ← decodeU16
  let code ← decodeSeq decodeInstruction
  return ⟨name, params, result, maxStack, locals, code.toArray⟩

def decodeField : Decoder FieldRecord := do
  let name ← decodeIndex
  let descriptor ← decodeIndex
  return ⟨name, descriptor⟩

def decodeClass : Decoder ClassRecord := do
  let name ← decodeIndex
  let fields ← decodeSeq decodeField
  let methods ← decodeSeq decodeIndex
  return ⟨name, fields, methods⟩

def decode : Decoder Image := do
  let magic ← decodeIndex
  let constants ← decodeSeq decodeConstant
  let functions ← decodeSeq decodeFunction
  let classes ← decodeSeq decodeClass
  return ⟨magic, constants, functions, classes⟩

end Image

inductive ImageError where
  | codec (error : CodecError)
  | badMagic (found : UInt32)
  | unregistered (fault : Fault)
  | rejected (error : VerifyError)
  deriving DecidableEq, Repr

def ImageError.message : ImageError → String
  | .codec error => "image codec error: " ++ error.message
  | .badMagic found => "not a program image (magic 0x" ++ Text.hex 8 found.toNat ++ ")"
  | .unregistered fault => "image rejected: " ++ fault.message
  | .rejected error => "image rejected: " ++ error.text

namespace Program

/-- Adds each record in turn, until one is refused. -/
def addEach {α : Type} (add : Program → α → Program × Except Fault Nat) (p : Program) :
    List α → Program × Except Fault Unit
  | [] => (p, .ok ())
  | record :: rest =>
      match add p record with
      | (p, .ok _) => addEach add p rest
      | (p, .error fault) => (p, .error fault)

/-- Registers the records of an image and verifies them. What was registered is kept also if
the image is refused, for the log. -/
def restore (image : Image) : Program × Except ImageError Unit :=
  match addEach addFunction (empty.addConstants image.constants) image.functions with
  | (p, .error fault) => (p, .error (.unregistered fault))
  | (withFunctions, .ok ()) =>
      match addEach addClass withFunctions image.classes with
      | (p, .error fault) => (p, .error (.unregistered fault))
      | (p, .ok ()) =>
          match p.verifyFrom 0 with
          | .error e => (p, .error (.rejected e))
          | .ok () => (p, .ok ())

def saveImage (p : Program) : List UInt8 := (Image.ofProgram p).encode

/-- The program of an image, and what loading it logged. Bytes after the image are ignored. -/
def loadImage (input : List UInt8) : Except ImageError Program × List LogEntry :=
  match Image.decode input with
  | .error e => (.error (.codec e), [])
  | .ok (image, _) =>
      if image.magic ≠ Image.expectedMagic then (.error (.badMagic image.magic), [])
      else
        match restore image with
        | (p, .error e) => (.error e, growthEntries empty p)
        | (p, .ok ()) =>
            (.ok p, growthEntries empty p ++ [⟨.info, s!"loaded image: {p.counts.text}"⟩])

end Program

end StackMachine
