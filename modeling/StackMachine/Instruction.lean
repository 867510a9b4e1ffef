import StackMachine.Value

/-! # Instructions

Twenty-seven opcodes. Each has a code in program files, and an ordinal, its place in
`Opcode.all`, in images. Nine of them need an operand; an instruction may carry one in any
case, and one that is missing reads as 0.
-/

namespace StackMachine

inductive BinaryOp where
  | add
  | mul
  | sub
  | div
  | mod
  | eq
  | lt
  | leq
  | lor
  | land
  deriving DecidableEq, Repr

def BinaryOp.apply : BinaryOp → Value → Value → Except Fault Value
  | .add => Value.add
  | .mul => Value.mul
  | .sub => Value.sub
  | .div => Value.div
  | .mod => Value.rem
  | .eq => Value.equals
  | .lt => Value.lessThan
  | .leq => Value.lessOrEqual
  | .lor => Value.or
  | .land => Value.and

inductive UnaryOp where
  /-- Arithmetic negation. -/
  | min
  /-- Logical negation. -/
  | neg
  deriving DecidableEq, Repr

def UnaryOp.apply : UnaryOp → Value → Except Fault Value
  | .min => Value.negate
  | .neg => Value.not

inductive Opcode where
  | ldc
  | store
  | ldv
  | dup
  | swap
  | binary (op : BinaryOp)
  | unary (op : UnaryOp)
  | call
  | ret
  | halt
  | jmp
  | jz
  | jnz
  | newarr
  | stelem
  | ldelem
  | print
  deriving DecidableEq, Repr

namespace Opcode

def all : List Opcode :=
  [.ldc, .store, .ldv, .dup, .swap,
   .binary .add, .binary .mul, .unary .min, .binary .sub, .binary .div, .binary .mod,
   .binary .eq, .binary .lt, .binary .leq, .unary .neg, .binary .lor, .binary .land,
   .call, .ret, .halt, .jmp, .jz, .jnz, .newarr, .stelem, .ldelem, .print]

def ordinal (op : Opcode) : Nat := all.idxOf op

def ofOrdinal? (n : Nat) : Option Opcode := all[n]?

def code : Opcode → UInt16
  | .ldc => 0x01
  | .dup => 0x02
  | .swap => 0x03
  | .store => 0x04
  | .ldv => 0x05
  | .binary .add => 0x06
  | .print => 0x07
  | .ret => 0x08
  | .halt => 0x09
  | .newarr => 0x0a
  | .stelem => 0x0b
  | .ldelem => 0x0c
  | .binary .mul => 0x0d
  | .unary .min => 0x0e
  | .binary .sub => 0x0f
  | .binary .div => 0x10
  | .call => 0x11
  | .binary .eq => 0x12
  | .binary .lt => 0x13
  | .binary .leq => 0x14
  | .jmp => 0x15
  | .jz => 0x16
  | .jnz => 0x17
  | .unary .neg => 0x18
  | .binary .mod => 0x19
  | .binary .lor => 0x1a
  | .binary .land => 0x1b

def ofCode? (c : UInt16) : Option Opcode := all.find? (·.code == c)

def mnemonic : Opcode → String
  | .ldc => "LDC"
  | .store => "STORE"
  | .ldv => "LDV"
  | .dup => "DUP"
  | .swap => "SWAP"
  | .binary .add => "ADD"
  | .binary .mul => "MUL"
  | .binary .sub => "SUB"
  | .binary .div => "DIV"
  | .binary .mod => "MOD"
  | .binary .eq => "EQ"
  | .binary .lt => "LT"
  | .binary .leq => "LEQ"
  | .binary .lor => "LOR"
  | .binary .land => "LAND"
  | .unary .min => "MIN"
  | .unary .neg => "NEG"
  | .call => "CALL"
  | .ret => "RET"
  | .halt => "HALT"
  | .jmp => "JMP"
  | .jz => "JZ"
  | .jnz => "JNZ"
  | .newarr => "NEWARR"
  | .stelem => "STELEM"
  | .ldelem => "LDELEM"
  | .print => "PRINT"

def ofMnemonic? (s : String) : Option Opcode := all.find? (·.mnemonic == s)

def hasOperand : Opcode → Bool
  | .ldc | .store | .ldv | .newarr | .call | .halt | .jmp | .jz | .jnz => true
  | _ => false

def isJump : Opcode → Bool
  | .jmp | .jz | .jnz => true
  | _ => false

/-- The operand indexes the constant pool. -/
def refersToConstant : Opcode → Bool
  | .ldc | .newarr | .halt => true
  | _ => false

/-- How many operands are popped and pushed; calls and returns depend on the function. -/
def stackEffect? : Opcode → Option (Nat × Nat)
  | .ldc | .ldv => some (0, 1)
  | .store | .print | .jz | .jnz => some (1, 0)
  | .dup => some (1, 2)
  | .swap => some (2, 2)
  | .binary _ | .ldelem => some (2, 1)
  | .unary _ | .newarr => some (1, 1)
  | .stelem => some (3, 0)
  | .halt | .jmp => some (0, 0)
  | .call | .ret => none

theorem mem_all (op : Opcode) : op ∈ all := by
  cases op with
  | binary op => cases op <;> decide
  | unary op => cases op <;> decide
  | _ => decide

end Opcode

structure Instruction where
  opcode : Opcode
  operand : Option UInt32
  deriving DecidableEq, Repr

namespace Instruction

/-- The operand as an index; one that is missing reads as 0. -/
def arg (i : Instruction) : Nat := (i.operand.getD 0).toNat

def text (i : Instruction) : String :=
  match i.operand with
  | some operand => s!"{i.opcode.mnemonic} {operand}"
  | none => i.opcode.mnemonic

end Instruction

end StackMachine
