import StackMachine.Program.Basic
import StackMachine.Text.Blank
import StackMachine.Text.Percent

/-! # Listings

A program as text: its functions, instruction by instruction, with what the operands refer to,
and the layout of its classes; and a summary of its size and its most frequent instructions.
-/

namespace StackMachine

namespace Program

/-- What the operand of an instruction refers to. -/
def operandNote (p : Program) (opcode : Opcode) (operand : Nat) : String :=
  match opcode with
  | .ldc | .newarr | .halt =>
      match p.constant operand with
      | .ok c => "; " ++ c.text
      | .error _ => "; <bad constant>"
  | .ldv | .store => s!"; local {operand}"
  | .jmp | .jz | .jnz => "(→ " ++ Text.decimal 4 operand ++ ")"
  | .call =>
      match p.function operand with
      | .ok f => "; " ++ f.name ++ f.signature
      | .error _ => "; <bad function>"
  | _ => ""

def instructionText (p : Program) (i : Instruction) : String :=
  match i.operand with
  | none => i.opcode.mnemonic
  | some operand =>
      Text.trimEnd (Text.padRight 11 i.opcode.mnemonic ++ " "
        ++ Text.padRight 5 (toString operand) ++ " "
        ++ p.operandNote i.opcode operand.toNat)

end Program

def isJumpTarget (code : Array Instruction) (pc : Nat) : Bool :=
  code.any fun i => i.opcode.isJump && i.arg == pc

namespace Program

def lineText (p : Program) (code : Array Instruction) (pc : Nat) (i : Instruction) : String :=
  let target := isJumpTarget code pc
  (if target then "      ┌" ++ "".pushn '─' 34 ++ "\n" else "")
    ++ Text.decimal 4 pc ++ " " ++ (if target then "► " else "  ")
    ++ p.instructionText i ++ "\n"

/-- One line for each instruction; a line is drawn above those that jumps lead to. -/
def functionText (p : Program) (f : LinkedFunction) : String :=
  String.join (f.code.toList.zipIdx.map fun (i, pc) => p.lineText f.code pc i)

def rule : String := "".pushn '═' 40 ++ "\n"

def functionSection (p : Program) (index : Nat) (f : LinkedFunction) : String :=
  rule ++ s!" #{index} {f.name}{f.signature}\n"
    ++ s!" {f.code.size} instructions, {f.locals} locals\n"
    ++ rule ++ p.functionText f ++ "\n"

def fieldLine (f : LinkedField) : String :=
  "  +" ++ Text.decimal 4 f.offset ++ " " ++ f.name ++ ": " ++ f.descriptor.text ++ "\n"

def methodLine (p : Program) (method : UInt32) : String :=
  match p.function method.toNat with
  | .ok f => s!"  method #{method} {f.name}\n"
  | .error _ => ""

def classSection (p : Program) (c : LinkedClass) : String :=
  s!"class {c.name} ({c.size} bytes)\n" ++ String.join (c.fields.map fieldLine)
    ++ String.join (c.methods.map p.methodLine) ++ "\n"

def listing (p : Program) : String :=
  "=== BALL PROGRAM ===\n\n"
    ++ String.join (p.functions.toList.zipIdx.map fun (f, index) => p.functionSection index f)
    ++ String.join (p.classes.toList.map p.classSection)

end Program

def opcodeCounts (code : List Instruction) : List (Opcode × Nat) :=
  Opcode.all.filterMap fun op =>
    let n := code.countP (·.opcode == op)
    if n = 0 then none else some (op, n)

namespace Program

def instructions (p : Program) : List Instruction :=
  p.functions.toList.flatMap (·.code.toList)

/-- The most frequent first, and those of one frequency by name. -/
def frequencyOrder (a b : Opcode × Nat) : Bool :=
  if a.2 = b.2 then decide (a.1.mnemonic ≤ b.1.mnemonic) else decide (b.2 < a.2)

def frequencyLine (total : Nat) (entry : Opcode × Nat) : String :=
  "  " ++ Text.padRight 14 entry.1.mnemonic ++ " " ++ Text.padLeft 4 (toString entry.2)
    ++ " (" ++ Text.padLeft 5 (Text.percent entry.2 total) ++ "%)\n"

def statistics (p : Program) : String :=
  let code := p.instructions
  let frequencies := ((opcodeCounts code).mergeSort frequencyOrder).take 10
  "=== BYTECODE STATISTICS ===\n\n"
    ++ s!"Constants:        {p.constants.size}\n"
    ++ s!"Functions:        {p.functions.size}\n"
    ++ s!"Classes:          {p.classes.size}\n"
    ++ s!"Instructions:     {code.length}\n\n"
    ++ "Op frequency:\n"
    ++ String.join (frequencies.map (frequencyLine code.length))

end Program

end StackMachine
