import StackMachine.Native.Step

/-! # Basic blocks

Code is cut into blocks at the start, at every target of a jump and after every step that does
not go on to the next. Blocks that control can reach from the first one are marked.
-/

namespace StackMachine

structure Block where
  /-- The first step. -/
  start : Nat
  /-- One past the last step. -/
  stop : Nat
  /-- The numbers of the blocks that follow: the target of a jump, then the next block. -/
  next : List Nat
  reachable : Bool
  deriving DecidableEq, Repr

/-- Whether a block starts at the step. -/
def isLeader (code : List Step) (pc : Nat) : Bool :=
  pc == 0 || code.any (·.target? == some pc) || code[pc - 1]?.any (·.isTerminator)

def leaders (code : List Step) : List Nat :=
  (List.range code.length).filter (isLeader code)

/-- The number of the block that holds the step. -/
def blockAt (starts : List Nat) (pc : Nat) : Nat :=
  starts.countP (· ≤ pc) - 1

/-- The blocks that follow a block with the given last step. -/
def nextBlocks (starts : List Nat) (length : Nat) (last : Option Step) (stop : Nat) : List Nat :=
  match last with
  | none => []
  | some step =>
      (match step.target? with
        | some target => if target < length then [blockAt starts target] else []
        | none => [])
        ++ (if step.fallsThrough && decide (stop < length) then [blockAt starts stop] else [])

/-- The blocks that start at the given steps, each up to the start of the next. -/
def blocksAt (code : List Step) (starts : List Nat) : List Nat → List Block
  | [] => []
  | [start] =>
      [⟨start, code.length,
        nextBlocks starts code.length code[code.length - 1]? code.length, false⟩]
  | start :: stop :: rest =>
      ⟨start, stop, nextBlocks starts code.length code[stop - 1]? stop, false⟩
        :: blocksAt code starts (stop :: rest)

def buildBlocks (code : List Step) : List Block :=
  let starts := leaders code
  blocksAt code starts starts

/-- Marking a block leaves one fewer to be marked. -/
theorem countP_set_reachable {blocks : List Block} {id : Nat} (h : id < blocks.length)
    (unseen : ¬ blocks[id].reachable = true) :
    (blocks.set id { blocks[id] with reachable := true }).countP (!·.reachable)
      < blocks.countP (!·.reachable) := by
  have before : (!blocks[id].reachable) = true := by simpa using unseen
  have counted : 0 < blocks.countP (!·.reachable) :=
    List.countP_pos_iff.mpr ⟨blocks[id], List.getElem_mem h, before⟩
  rw [List.countP_set h]
  simp only [before, if_true, Bool.not_true, Bool.false_eq_true, if_false]
  omega

/-- Marks the blocks that control can reach from the pending ones. -/
def markBlocks (blocks : List Block) (pending : List Nat) : List Block :=
  match pending with
  | [] => blocks
  | id :: rest =>
      if h : id < blocks.length then
        if _seen : blocks[id].reachable then markBlocks blocks rest
        else
          markBlocks (blocks.set id { blocks[id] with reachable := true }) (blocks[id].next ++ rest)
      else markBlocks blocks rest
termination_by (blocks.countP (!·.reachable), pending.length)
decreasing_by
  · exact Prod.Lex.right _ (by simp)
  · exact Prod.Lex.left _ _ (countP_set_reachable h ‹_›)
  · exact Prod.Lex.right _ (by simp)

/-- Marks the blocks that control can reach from the first one. -/
def markReachable (blocks : List Block) : List Block := markBlocks blocks [0]

end StackMachine
