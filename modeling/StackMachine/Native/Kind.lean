import StackMachine.Native.Step
import StackMachine.Sums

/-! # Kinds in native code

Native code has no tags, so a function is compiled only if the kind of every operand is known
in advance. The kinds of operands and locals are followed along all paths: where paths meet,
the operands must agree, and a local whose kinds differ becomes unknown.
-/

namespace StackMachine

inductive Kind where
  | int
  | bool
  | array
  deriving DecidableEq, Repr

def Descriptor.kind? : Descriptor → Option Kind
  | .int _ => some .int
  | .bool => some .bool
  | .array _ => some .array
  | _ => none

inductive KindProblem where
  | parameter
  | emptyBody
  | underflow
  | unsetLocal
  | localOutOfRange
  | arithmetic
  | ordering
  | comparison
  | logic
  | negation
  | logicalNot
  | elementLoad
  | elementStore
  | branch
  | result
  | opcode (op : Opcode)
  | leaves
  | join
  deriving DecidableEq, Repr

def KindProblem.message : KindProblem → String
  | .parameter => "parameter type"
  | .emptyBody => "empty body"
  | .underflow => "underflow"
  | .unsetLocal => "read of an unset local"
  | .localOutOfRange => "local out of range"
  | .arithmetic => "arithmetic on non-integers"
  | .ordering => "ordering of non-integers"
  | .comparison => "comparison of different kinds"
  | .logic => "logic on non-booleans"
  | .negation => "negation of a non-integer"
  | .logicalNot => "logical not of a non-boolean"
  | .elementLoad => "element load"
  | .elementStore => "element store"
  | .branch => "branch on a reference"
  | .result => "return of the wrong kind"
  | .opcode op => op.mnemonic
  | .leaves => "control leaves the function"
  | .join => "inconsistent stack at join"

def LinkedFunction.refusal (f : LinkedFunction) (pc : Nat) (problem : KindProblem) :
    NativeError :=
  .unsupported f.name s!"{problem.message} at {pc}"

/-- What is known before an instruction of a function with `n` locals. -/
structure KindState (n : Nat) where
  /-- The top of the operand stack comes first. -/
  stack : List Kind
  locals : Vector (Option Kind) n
  deriving DecidableEq

namespace KindState

def push {n : Nat} (s : KindState n) (stack : List Kind) (k : Kind) : KindState n :=
  { s with stack := k :: stack }

end KindState

/-- The kind of the result of an operation on two operands. -/
def BinaryOp.resultKind : BinaryOp → Kind → Kind → Except KindProblem Kind
  | .add, a, b | .sub, a, b | .mul, a, b | .div, a, b | .mod, a, b =>
      if a = .int ∧ b = .int then .ok .int else .error .arithmetic
  | .lt, a, b | .leq, a, b =>
      if a = .int ∧ b = .int then .ok .bool else .error .ordering
  | .eq, a, b => if a = b then .ok .bool else .error .comparison
  | .lor, a, b | .land, a, b =>
      if a = .bool ∧ b = .bool then .ok .bool else .error .logic

def UnaryOp.resultKind : UnaryOp → Kind → Except KindProblem Kind
  | .min, a => if a = .int then .ok .int else .error .negation
  | .neg, a => if a = .bool then .ok .bool else .error .logicalNot

/-- What is known after an instruction other than the loading of a constant. -/
def KindState.after {n : Nat} (s : KindState n) (f : LinkedFunction) (i : Instruction) :
    Except KindProblem (KindState n) :=
  match i.opcode, s.stack with
  | .ldc, _ => .ok s
  | .ldv, stack =>
      match s.locals[i.arg]?.join with
      | some k => .ok (s.push stack k)
      | none => .error .unsetLocal
  | .store, k :: stack =>
      if h : i.arg < n then .ok ⟨stack, s.locals.set i.arg (some k)⟩
      else .error .localOutOfRange
  | .dup, k :: stack => .ok { s with stack := k :: k :: stack }
  | .swap, b :: a :: stack => .ok { s with stack := a :: b :: stack }
  | .binary op, b :: a :: stack =>
      match op.resultKind a b with
      | .ok k => .ok (s.push stack k)
      | .error problem => .error problem
  | .unary op, a :: stack =>
      match op.resultKind a with
      | .ok k => .ok (s.push stack k)
      | .error problem => .error problem
  | .ldelem, index :: base :: stack =>
      if base = .array ∧ index = .int then .ok (s.push stack .int) else .error .elementLoad
  | .stelem, value :: index :: base :: stack =>
      if base = .array ∧ index = .int ∧ value = .int then .ok { s with stack := stack }
      else .error .elementStore
  | .jz, k :: stack | .jnz, k :: stack =>
      if k = .array then .error .branch else .ok { s with stack := stack }
  | .jmp, _ => .ok s
  | .ret, stack =>
      if f.returnsValue then
        match stack with
        | [] => .error .underflow
        | k :: stack =>
            if some k = f.result.kind? then .ok { s with stack := stack } else .error .result
      else .ok s
  | .call, _ | .newarr, _ | .print, _ | .halt, _ => .error (.opcode i.opcode)
  | _, _ => .error .underflow

/-- What is known after the instruction at `pc`. -/
def KindState.step {n : Nat} (s : KindState n) (p : Program) (f : LinkedFunction) (pc : Nat)
    (i : Instruction) : Except NativeError (KindState n) :=
  if i.opcode = .ldc then
    match p.constant i.arg with
    | .ok c => .ok (s.push s.stack (if c.tag = .bool then .bool else .int))
    | .error fault => .error (.fault fault)
  else
    match s.after f i with
    | .ok t => .ok t
    | .error problem => .error (f.refusal pc problem)

/-- Where control can go after the instruction at `pc`, the target of a branch first. -/
def Instruction.branches (i : Instruction) (pc : Nat) : List Nat :=
  match i.opcode with
  | .ret => []
  | .jmp => [i.arg]
  | .jz | .jnz => [i.arg, pc + 1]
  | _ => [pc + 1]

/-- A kind that is known on one path stays known if the other path agrees. -/
def meetKind : Option Kind → Option Kind → Option Kind
  | none, _ => none
  | some k, incoming => if incoming = some k then some k else none

/-- The kinds found so far, and the places to be visited (again). -/
structure KindSearch (n : Nat) where
  states : Array (Option (KindState n))
  pending : List Nat

namespace KindSearch

variable {n : Nat}

/-- How often a place can still be entered with something new. -/
def weight : Option (KindState n) → Nat
  | none => n + 1
  | some s => s.locals.toList.countP Option.isSome

def totalWeight (states : Array (Option (KindState n))) : Nat :=
  states.toList.foldr (fun s total => weight s + total) 0

/-- What is left to do: every entry of a place that asks for a visit lowers its weight. -/
def work (s : KindSearch n) : Nat := totalWeight s.states + s.pending.length

/-- Control arrives at `next` from `pc`. -/
def arrive (f : LinkedFunction) (pc : Nat) (incoming : KindState n) (s : KindSearch n)
    (next : Nat) : Except NativeError (KindSearch n) :=
  if h : next < s.states.size then
    match s.states[next] with
    | none => .ok ⟨s.states.set next (some incoming), next :: s.pending⟩
    | some known =>
        if known.stack = incoming.stack then
          let merged := known.locals.zipWith meetKind incoming.locals
          if merged = known.locals then .ok s
          else .ok ⟨s.states.set next (some ⟨known.stack, merged⟩), next :: s.pending⟩
        else .error (f.refusal next .join)
  else .error (f.refusal pc .leaves)

def arriveAll (f : LinkedFunction) (pc : Nat) (incoming : KindState n) (s : KindSearch n) :
    List Nat → Except NativeError (KindSearch n)
  | [] => .ok s
  | next :: rest =>
      match arrive f pc incoming s next with
      | .ok s => arriveAll f pc incoming s rest
      | .error e => .error e

def visit (p : Program) (f : LinkedFunction) (s : KindSearch n) (pc : Nat) :
    Except NativeError (KindSearch n) :=
  match s.states[pc]?.join, f.code[pc]? with
  | some state, some i =>
      match state.step p f pc i with
      | .ok after => arriveAll f pc after s (i.branches pc)
      | .error e => .error e
  | _, _ => .ok s

/-! ## Termination -/

theorem totalWeight_set (states : Array (Option (KindState n))) (i : Nat)
    (a : Option (KindState n)) (h : i < states.size) :
    totalWeight (states.set i a) + weight states[i] = totalWeight states + weight a := by
  have step := foldr_add_set weight states.toList i a (by simpa using h)
  rw [Array.getElem_toList] at step
  simpa [totalWeight] using step

theorem countP_zipWith_meet_le (xs ys : List (Option Kind)) :
    (xs.zipWith meetKind ys).countP Option.isSome ≤ xs.countP Option.isSome := by
  induction xs generalizing ys with
  | nil => simp
  | cons x xs ih =>
      cases ys with
      | nil => simp
      | cons y ys =>
          have rest := ih ys
          cases x with
          | none => simpa [meetKind] using rest
          | some k =>
              simp only [List.zipWith_cons_cons, List.countP_cons, meetKind]
              split <;> simp <;> omega

theorem countP_zipWith_meet_lt {xs ys : List (Option Kind)} (same : xs.length = ys.length)
    (changed : xs.zipWith meetKind ys ≠ xs) :
    (xs.zipWith meetKind ys).countP Option.isSome < xs.countP Option.isSome := by
  induction xs generalizing ys with
  | nil => simp at changed
  | cons x xs ih =>
      cases ys with
      | nil => simp at same
      | cons y ys =>
          have le := countP_zipWith_meet_le xs ys
          simp only [List.zipWith_cons_cons] at changed ⊢
          simp only [List.length_cons, Nat.add_right_cancel_iff] at same
          cases x with
          | none =>
              have lt := ih same (by simpa [meetKind] using changed)
              simpa [meetKind] using lt
          | some k =>
              by_cases agree : y = some k
              · have lt := ih same (by simpa [meetKind, agree] using changed)
                simpa [meetKind, agree] using lt
              · simp only [meetKind, if_neg agree, List.countP_cons]
                simp
                omega

theorem weight_some_le (s : KindState n) : weight (some s) ≤ n := by
  have bound := List.countP_le_length (l := s.locals.toList) (p := Option.isSome)
  simpa [weight] using bound

theorem weight_merged_lt {known incoming : KindState n}
    (changed : known.locals.zipWith meetKind incoming.locals ≠ known.locals) :
    weight (some ⟨known.stack, known.locals.zipWith meetKind incoming.locals⟩)
      < weight (some known) := by
  have lists : known.locals.toList.zipWith meetKind incoming.locals.toList
      ≠ known.locals.toList := by
    intro same
    apply changed
    apply Vector.toList_inj.mp
    simpa using same
  simpa [weight] using countP_zipWith_meet_lt (by simp) lists

/-- Control enters a place that was not known, agrees with what is known there, or makes locals
unknown. In the first case and the last the place is put on the list. -/
theorem arrive_eq_ok {f : LinkedFunction} {pc next : Nat} {incoming : KindState n}
    {s t : KindSearch n} (h : arrive f pc incoming s next = .ok t) :
    ∃ bound : next < s.states.size,
      (s.states[next] = none ∧ t = ⟨s.states.set next (some incoming), next :: s.pending⟩)
        ∨ ∃ known, s.states[next] = some known ∧ known.stack = incoming.stack
          ∧ (known.locals.zipWith meetKind incoming.locals = known.locals ∧ t = s
            ∨ known.locals.zipWith meetKind incoming.locals ≠ known.locals
              ∧ t = ⟨s.states.set next
                (some ⟨known.stack, known.locals.zipWith meetKind incoming.locals⟩),
                next :: s.pending⟩) := by
  unfold arrive at h
  split at h
  · rename_i bound
    refine ⟨bound, ?_⟩
    split at h
    · rename_i unset
      cases h
      exact .inl ⟨unset, rfl⟩
    · rename_i known entered
      refine .inr ⟨known, entered, ?_⟩
      split at h
      · rename_i same
        refine ⟨same, ?_⟩
        dsimp only at h
        split at h
        · rename_i unchanged
          cases h
          exact .inl ⟨unchanged, rfl⟩
        · rename_i changed
          cases h
          exact .inr ⟨changed, rfl⟩
      · cases h
  · cases h

/-- A place is put on the list only with a state that weighs less than the one before. -/
theorem lighter_of_arrive {f : LinkedFunction} {pc next : Nat} {incoming : KindState n}
    {s t : KindSearch n} (h : arrive f pc incoming s next = .ok t) :
    t = s ∨ ∃ state, ∃ bound : next < s.states.size,
      weight (some state) < weight s.states[next]
        ∧ t = ⟨s.states.set next (some state), next :: s.pending⟩ := by
  obtain ⟨bound, ⟨unset, rfl⟩ | ⟨known, entered, _, ⟨_, rfl⟩ | ⟨changed, rfl⟩⟩⟩ := arrive_eq_ok h
  · have le := weight_some_le incoming
    refine .inr ⟨incoming, bound, ?_, rfl⟩
    rw [unset]
    exact Nat.lt_succ_of_le le
  · exact .inl rfl
  · refine .inr ⟨_, bound, ?_, rfl⟩
    rw [entered]
    exact weight_merged_lt changed

theorem work_of_arrive {f : LinkedFunction} {pc next : Nat} {incoming : KindState n}
    {s t : KindSearch n} (h : arrive f pc incoming s next = .ok t) : t.work ≤ s.work := by
  obtain rfl | ⟨state, bound, lighter, rfl⟩ := lighter_of_arrive h
  · exact Nat.le_refl _
  · have total := totalWeight_set s.states next (some state) bound
    simp only [work, List.length_cons]
    omega

theorem work_of_arriveAll {f : LinkedFunction} {pc : Nat} {incoming : KindState n}
    {s t : KindSearch n} {places : List Nat} (h : arriveAll f pc incoming s places = .ok t) :
    t.work ≤ s.work := by
  induction places generalizing s with
  | nil =>
      simp only [arriveAll, Except.ok.injEq] at h
      subst h
      exact Nat.le_refl _
  | cons next rest ih =>
      simp only [arriveAll] at h
      split at h
      · rename_i u entered
        exact Nat.le_trans (ih h) (work_of_arrive entered)
      · simp at h

theorem work_of_visit {p : Program} {f : LinkedFunction} {s t : KindSearch n} {pc : Nat}
    (h : visit p f s pc = .ok t) : t.work ≤ s.work := by
  unfold visit at h
  split at h
  · split at h
    · exact work_of_arriveAll h
    · simp at h
  · simp only [Except.ok.injEq] at h
    subst h
    exact Nat.le_refl _

/-- Visits pending places, the latest first, until none is left. -/
def finish (p : Program) (f : LinkedFunction) (s : KindSearch n) :
    Except NativeError (Array (Option (KindState n))) :=
  match _pending : s.pending with
  | [] => .ok s.states
  | pc :: rest =>
      match _visited : visit p f ⟨s.states, rest⟩ pc with
      | .ok t => finish p f t
      | .error e => .error e
termination_by s.work
decreasing_by
  refine Nat.lt_of_le_of_lt (work_of_visit ‹_›) ?_
  simp only [work, ‹s.pending = _›, List.length_cons]
  omega

end KindSearch

/-- The kinds of the parameters, the last one on top. -/
def LinkedFunction.parameterKinds (f : LinkedFunction) : Except NativeError (List Kind) :=
  match f.params.mapM Descriptor.kind? with
  | some kinds => .ok kinds.reverse
  | none => .error (f.refusal 0 .parameter)

/-- Locals hold a 32-bit zero at first, which is an integer of the narrow lane only. -/
def Lane.initialLocal : Lane → Option Kind
  | .i32 => some .int
  | .i64 => none

def LinkedFunction.kinds (f : LinkedFunction) (p : Program) (lane : Lane) :
    Except NativeError (Array (Option (KindState f.locals))) :=
  match f.parameterKinds with
  | .error e => .error e
  | .ok stack =>
      if f.code.isEmpty then .error (f.refusal 0 .emptyBody)
      else
        let entry : KindState f.locals := ⟨stack, Vector.replicate f.locals lane.initialLocal⟩
        KindSearch.finish p f
          ⟨(Array.replicate f.code.size none).setIfInBounds 0 (some entry), [0]⟩

end StackMachine
