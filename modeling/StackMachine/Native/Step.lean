import StackMachine.Native.Lane

/-! # Steps of native code

Native code is a list of steps: a word to push, or an instruction. Loading a constant is always
lowered to the word that the constant has.
-/

namespace StackMachine

inductive NativeError where
  | unsupported (function reason : String)
  | divisionByZero
  | stackUnderflow
  | missingReturn (function : String)
  | fault (f : Fault)
  deriving DecidableEq, Repr

def NativeError.message : NativeError → String
  | .unsupported function reason => s!"cannot compile `{function}`: {reason}"
  | .divisionByZero => "division by zero"
  | .stackUnderflow => "native operand stack underflow"
  | .missingReturn function => s!"native code ran off the end of `{function}`"
  | .fault f => f.message

inductive Step where
  | push (v : Int64)
  | op (i : Instruction)
  deriving DecidableEq

namespace Step

def opcode? : Step → Option Opcode
  | .push _ => none
  | .op i => some i.opcode

def target? : Step → Option Nat
  | .push _ => none
  | .op i => if i.opcode.isJump then some i.arg else none

/-- Control does not simply go on to the next step. -/
def isTerminator (s : Step) : Bool :=
  s.target?.isSome || s.opcode? == some .ret

def fallsThrough (s : Step) : Bool :=
  !(s.opcode? == some .ret || s.opcode? == some .jmp)

def retarget (f : Nat → Nat) : Step → Step
  | .push v => .push v
  | .op i =>
      if i.opcode.isJump then .op { i with operand := some (UInt32.ofNat (f i.arg)) } else .op i

end Step

/-- The step for an instruction of the function. -/
def lowerInstruction (p : Program) (f : LinkedFunction) (i : Instruction) :
    Except NativeError Step :=
  if i.opcode = .ldc then
    match p.constantValue i.arg with
    | .error fault => .error (.fault fault)
    | .ok v =>
        match v.toLane? with
        | some raw => .ok (.push raw)
        | none =>
            .error (.unsupported f.name s!"constant {v.text} does not fit the lane")
  else .ok (.op i)

def lowerAll (p : Program) (f : LinkedFunction) :
    List Instruction → Except NativeError (List Step)
  | [] => .ok []
  | i :: rest => do
      let step ← lowerInstruction p f i
      let steps ← lowerAll p f rest
      return step :: steps

def lower (p : Program) (f : LinkedFunction) : Except NativeError (List Step) :=
  lowerAll p f f.code.toList

end StackMachine
