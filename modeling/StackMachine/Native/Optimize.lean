import StackMachine.Native.Block

/-! # Optimization of native code

Three passes: steps that control cannot reach are dropped, arithmetic on known words is done in
advance, and jumps to the very next step are dropped. Every pass ends in a compaction, which
closes the gaps and points each jump at the first kept step at or after its target.
-/

namespace StackMachine

/-! ## Compaction -/

/-- Where a place in the code lands: the number of kept steps before it. -/
def landing (flagged : List (Step × Bool)) (pc : Nat) : Nat := (flagged.take pc).countP (·.2)

/-- Keeps the flagged steps. -/
def compact (code : List Step) (keep : List Bool) : List Step :=
  let flagged := code.zip keep
  flagged.filterMap fun (step, kept) =>
    if kept then some (step.retarget (landing flagged)) else none

/-! ## Unreachable code -/

def inReachableBlock (blocks : List Block) (pc : Nat) : Bool :=
  blocks.any fun b => b.reachable && decide (b.start ≤ pc) && decide (pc < b.stop)

/-- Which steps control can reach. -/
def reachableFlags (code : List Step) : List Bool :=
  let blocks := markReachable (buildBlocks code)
  (List.range code.length).map (inReachableBlock blocks)

def removeUnreachable (code : List Step) : List Step :=
  compact code (reachableFlags code)

/-! ## Constant folding -/

/-- The result of an operation on two words, if it is done in advance. -/
def foldWords (lane : Lane) : BinaryOp → Int64 → Int64 → Option Int64
  | .add, a, b => some (lane.wrap (a + b))
  | .sub, a, b => some (lane.wrap (a - b))
  | .mul, a, b => some (lane.wrap (a * b))
  | .div, a, b => if b = 0 then none else some (lane.wrap (a / b))
  | _, _, _ => none

def isFoldable : BinaryOp → Bool
  | .add | .sub | .mul | .div => true
  | _ => false

/-- The code with folded words in place, the steps kept, and what is known of the operands on
top of the stack: their words, and the steps that push them. -/
structure Folding where
  code : Array Step
  keep : Array Bool
  known : List (Option Int64 × Nat)

namespace Folding

def start (code : List Step) : Folding :=
  ⟨code.toArray, Array.replicate code.length true, []⟩

def forget (s : Folding) : Folding := { s with known := [] }

/-- Folds the operation at `pc` if both of its operands are known. -/
def operation (lane : Lane) (s : Folding) (pc : Nat) (op : BinaryOp) : Folding :=
  match s.known with
  | (b, bAt) :: (a, aAt) :: rest =>
      match a, b with
      | some a, some b =>
          match foldWords lane op a b with
          | some v =>
              { code := s.code.setIfInBounds aAt (.push v)
                keep := (s.keep.setIfInBounds bAt false).setIfInBounds pc false
                known := (some v, aAt) :: rest }
          | none => { s with known := (none, pc) :: rest }
      | _, _ => { s with known := (none, pc) :: rest }
  | _ => s.forget

def step (lane : Lane) (s : Folding) (pc : Nat) : Step → Folding
  | .push v => { s with known := (some v, pc) :: s.known }
  | .op i =>
      match i.opcode with
      | .binary op => if isFoldable op then s.operation lane pc op else s.forget
      | _ => s.forget

/-- Goes through the code from `pc` on. What is known does not outlive a target of a jump. -/
def run (lane : Lane) (targets : List Nat) (s : Folding) (pc : Nat) : List Step → Folding
  | [] => s
  | code :: rest =>
      let s := if targets.contains pc then s.forget else s
      run lane targets (s.step lane pc code) (pc + 1) rest

end Folding

def foldConstants (lane : Lane) (code : List Step) : List Step :=
  let folded := (Folding.start code).run lane (code.filterMap Step.target?) 0 code
  compact folded.code.toList folded.keep.toList

/-! ## Jumps to the next step -/

def isRedundantJump (pc : Nat) (step : Step) : Bool :=
  step.opcode? == some .jmp && step.target? == some (pc + 1)

def removeRedundantJumps (code : List Step) : List Step :=
  compact code (code.zipIdx.map fun (step, pc) => !isRedundantJump pc step)

/-- All passes, in order. -/
def optimize (lane : Lane) (code : List Step) : List Step :=
  removeRedundantJumps (foldConstants lane (removeUnreachable code))

end StackMachine
