import StackMachine.Proofs.TypedHeap

/-! # Words and the values they stand for

A word stands for a value of a known kind: an integer of the lane's width, a boolean, or an
array of such integers. Operations on words agree with operations on the values, except where
they fail: a failure of native code only means that the call is made again with values.
-/

namespace StackMachine

/-! ## Reduction to the width of the lane -/

def Lane.kind : Lane → IntKind
  | .i32 => .i32
  | .i64 => .i64

theorem Lane.contains_i64 {lane : Lane} {n : Int} (h : lane.kind.Contains n) :
    IntKind.i64.Contains n := by
  cases lane with
  | i32 =>
      simp only [Lane.kind, IntKind.Contains, IntKind.least, IntKind.bound, Width.half] at *
      simp only [if_true] at *
      omega
  | i64 => exact h

/-- Reducing a word to the lane is reducing the integer that it was made from. -/
theorem Lane.toInt_wrap {lane : Lane} {w : Int64} {n : Int} (made : w.toInt = n.bmod Int64.size) :
    (lane.wrap w).toInt = lane.kind.wrap n := by
  cases lane with
  | i32 =>
      simp only [Lane.wrap, Lane.kind, IntKind.wrap, Width.modulus, if_true]
      rw [Int32.toInt_toInt64, Int64.toInt_toInt32, made]
      exact Int.bmod_bmod_of_dvd (by decide)
  | i64 =>
      simp only [Lane.wrap, Lane.kind, IntKind.wrap, Width.modulus, if_true]
      exact made

/-! ## Words for values -/

def Heap.HoldsIntegers (h : Heap) (lane : Lane) (r : HeapRef) : Prop :=
  ∃ o, h.get? r = some o ∧ o.isArray = true ∧ o.element = some (.int lane.kind)

/-- The word stands for the value, which is of the kind. -/
inductive StandsFor (lane : Lane) (h : Heap) : Kind → Int64 → Value → Prop where
  | int {word : Int64} {n : FixedInt} (kind : n.kind = lane.kind) (same : word.toInt = n.val) :
      StandsFor lane h .int word (.int n)
  | bool (b : Bool) : StandsFor lane h .bool (wordOfBool b) (.bool b)
  | array {r : HeapRef} (holds : h.HoldsIntegers lane r) :
      StandsFor lane h .array r.id.toUInt64.toInt64 (.ref r)

@[simp] theorem wordOfBool_eq_zero (b : Bool) : wordOfBool b = 0 ↔ b = false := by
  cases b <;> decide

theorem wordOfBool_ne_zero (b : Bool) : (wordOfBool b != 0) = b := by
  cases b <;> rfl

theorem refOfWord_id (r : HeapRef) : refOfWord r.id.toUInt64.toInt64 = r := by
  simp [refOfWord]

theorem wordOfRef_inj {r r' : HeapRef} (same : r.id.toUInt64.toInt64 = r'.id.toUInt64.toInt64) :
    r = r' := by
  rw [← refOfWord_id r, same, refOfWord_id]

namespace StandsFor

variable {lane : Lane} {h : Heap}

/-- The integer that a reduced word stands for. -/
theorem reduced {k : IntKind} {w : Int64} {n : Int} (kind : k = lane.kind)
    (made : w.toInt = n.bmod Int64.size) :
    StandsFor lane h .int (lane.wrap w) (.int (.ofInt k n)) := by
  subst kind
  exact .int rfl (Lane.toInt_wrap made)

/-- What the value is like that a word of the kind stands for. -/
theorem of_int {word : Int64} {v : Value} (stands : StandsFor lane h .int word v) :
    ∃ n : FixedInt, v = .int n ∧ n.kind = lane.kind ∧ word.toInt = n.val := by
  cases stands with
  | int kind same => exact ⟨_, rfl, kind, same⟩

theorem of_bool {word : Int64} {v : Value} (stands : StandsFor lane h .bool word v) :
    ∃ b : Bool, v = .bool b ∧ word = wordOfBool b := by
  cases stands with
  | bool b => exact ⟨b, rfl, rfl⟩

theorem of_array {word : Int64} {v : Value} (stands : StandsFor lane h .array word v) :
    ∃ r : HeapRef, v = .ref r ∧ refOfWord word = r ∧ h.HoldsIntegers lane r := by
  cases stands with
  | array holds => exact ⟨_, rfl, refOfWord_id _, holds⟩

/-- The word is zero exactly if the value fails as a condition; arrays are no conditions. -/
theorem falsy {k : Kind} {word : Int64} {v : Value} (stands : StandsFor lane h k word v)
    (condition : k ≠ .array) : v.falsy? = some (decide (word = 0)) := by
  cases stands with
  | @int word n _ same =>
      have zero : word = 0 ↔ n.val = 0 := by
        rw [← Int64.toInt_inj, same]
        rfl
      simp only [Value.falsy?, zero]
      rfl
  | bool b => cases b <;> rfl
  | array holds => exact absurd rfl condition

/-- Words for two values of one kind are equal exactly if the values are. -/
theorem eq_iff {k : Kind} {word word' : Int64} {v v' : Value}
    (stands : StandsFor lane h k word v) (stands' : StandsFor lane h k word' v') :
    word = word' ↔ v = v' := by
  cases stands with
  | @int word n kind same =>
      obtain ⟨n', rfl, kind', same'⟩ := stands'.of_int
      rw [← Int64.toInt_inj, same, same', Value.int.injEq]
      exact ⟨FixedInt.eq_of_val (kind.trans kind'.symm), congrArg FixedInt.val⟩
  | bool b =>
      obtain ⟨b', rfl, rfl⟩ := stands'.of_bool
      cases b <;> cases b' <;> decide
  | @array r holds =>
      cases stands' with
      | @array r' holds' =>
          rw [Value.ref.injEq]
          exact ⟨wordOfRef_inj, fun same => by rw [same]⟩

theorem sameTag {k : Kind} {word word' : Int64} {v v' : Value}
    (stands : StandsFor lane h k word v) (stands' : StandsFor lane h k word' v') :
    v.sameTag v' = true := by
  cases stands with
  | int kind _ =>
      obtain ⟨n', rfl, kind', _⟩ := stands'.of_int
      simp [Value.sameTag, kind, kind']
  | bool b =>
      obtain ⟨b', rfl, _⟩ := stands'.of_bool
      rfl
  | array _ =>
      obtain ⟨r', rfl, _⟩ := stands'.of_array
      rfl

end StandsFor

/-! ## Operations -/

theorem Value.onIntegers_of_kind {operation : String}
    {f : FixedInt → FixedInt → Except Fault Value} {m n : FixedInt} (same : m.kind = n.kind) :
    Value.onIntegers operation f (.int m) (.int n) = f m n := by
  rw [Value.onIntegers, if_pos same]

/-- What a check of two kinds that went well says. -/
theorem kinds_of_check {a b c d k k' : Kind} {problem : KindProblem}
    (checked : (if a = c ∧ b = d then .ok k else .error problem : Except KindProblem Kind)
      = .ok k') : a = c ∧ b = d ∧ k = k' := by
  split at checked
  · rename_i both
    cases checked
    exact ⟨both.1, both.2, rfl⟩
  · cases checked

namespace StandsFor

variable {lane : Lane} {h : Heap}

theorem val_ne_zero {b : Int64} {n : FixedInt} (same : b.toInt = n.val) (nonzero : b ≠ 0) :
    n.val ≠ 0 := by
  intro zero
  apply nonzero
  rw [← Int64.toInt_inj, same, zero]
  rfl

/-- Two integers that words stand for, and the one kind that they have. -/
theorem of_ints {a b : Int64} {x y : Value} (lower : StandsFor lane h .int a x)
    (upper : StandsFor lane h .int b y) :
    ∃ m n : FixedInt, x = .int m ∧ y = .int n ∧ m.kind = n.kind ∧ m.kind = lane.kind
      ∧ a.toInt = m.val ∧ b.toInt = n.val := by
  obtain ⟨m, rfl, kind, same⟩ := lower.of_int
  obtain ⟨n, rfl, kind', same'⟩ := upper.of_int
  exact ⟨m, n, rfl, rfl, kind.trans kind'.symm, kind, same, same'⟩

/-- Where an operation on words gives a word, the operation on the values gives a value that the
word stands for. -/
theorem binary {op : BinaryOp} {ka kb k : Kind} {a b w : Int64} {x y : Value}
    (lower : StandsFor lane h ka a x) (upper : StandsFor lane h kb b y)
    (kinds : op.resultKind ka kb = .ok k) (result : op.onWords lane a b = .ok w) :
    ∃ v, op.apply x y = .ok v ∧ StandsFor lane h k w v := by
  cases op with
  | add =>
      obtain ⟨rfl, rfl, rfl⟩ := kinds_of_check kinds
      obtain ⟨m, n, rfl, rfl, one_kind, kind, same, same'⟩ := of_ints lower upper
      cases result
      simp only [BinaryOp.apply, Value.add, Value.onIntegers_of_kind one_kind]
      exact ⟨_, rfl, .reduced kind (by rw [Int64.toInt_add, same, same'])⟩
  | sub =>
      obtain ⟨rfl, rfl, rfl⟩ := kinds_of_check kinds
      obtain ⟨m, n, rfl, rfl, one_kind, kind, same, same'⟩ := of_ints lower upper
      cases result
      simp only [BinaryOp.apply, Value.sub, Value.onIntegers_of_kind one_kind]
      exact ⟨_, rfl, .reduced kind (by rw [Int64.toInt_sub, same, same'])⟩
  | mul =>
      obtain ⟨rfl, rfl, rfl⟩ := kinds_of_check kinds
      obtain ⟨m, n, rfl, rfl, one_kind, kind, same, same'⟩ := of_ints lower upper
      cases result
      simp only [BinaryOp.apply, Value.mul, Value.onIntegers_of_kind one_kind]
      exact ⟨_, rfl, .reduced kind (by rw [Int64.toInt_mul, same, same'])⟩
  | div =>
      obtain ⟨rfl, rfl, rfl⟩ := kinds_of_check kinds
      obtain ⟨m, n, rfl, rfl, one_kind, kind, same, same'⟩ := of_ints lower upper
      simp only [BinaryOp.onWords] at result
      split at result
      · cases result
      · rename_i nonzero
        cases result
        simp only [BinaryOp.apply, Value.div, Value.onIntegers_of_kind one_kind, FixedInt.div?,
          val_ne_zero same' nonzero, if_false]
        exact ⟨_, rfl, .reduced kind (by rw [Int64.toInt_div, same, same'])⟩
  | mod =>
      obtain ⟨rfl, rfl, rfl⟩ := kinds_of_check kinds
      obtain ⟨m, n, rfl, rfl, one_kind, kind, same, same'⟩ := of_ints lower upper
      simp only [BinaryOp.onWords] at result
      split at result
      · cases result
      · rename_i nonzero
        cases result
        simp only [BinaryOp.apply, Value.rem, Value.onIntegers_of_kind one_kind, FixedInt.rem?,
          val_ne_zero same' nonzero, if_false]
        refine ⟨_, rfl, .reduced kind ?_⟩
        rw [← same, ← same', ← Int64.toInt_mod]
        exact (Int.bmod_eq_of_le (Int64.le_toInt _) (Int64.toInt_lt _)).symm
  | lt =>
      obtain ⟨rfl, rfl, rfl⟩ := kinds_of_check kinds
      obtain ⟨m, n, rfl, rfl, one_kind, kind, same, same'⟩ := of_ints lower upper
      cases result
      simp only [BinaryOp.apply, Value.lessThan, Value.onIntegers_of_kind one_kind,
        Int64.lt_iff_toInt_lt, same, same']
      exact ⟨_, rfl, .bool _⟩
  | leq =>
      obtain ⟨rfl, rfl, rfl⟩ := kinds_of_check kinds
      obtain ⟨m, n, rfl, rfl, one_kind, kind, same, same'⟩ := of_ints lower upper
      cases result
      simp only [BinaryOp.apply, Value.lessOrEqual, Value.onIntegers_of_kind one_kind,
        Int64.le_iff_toInt_le, same, same']
      exact ⟨_, rfl, .bool _⟩
  | eq =>
      simp only [BinaryOp.resultKind] at kinds
      split at kinds
      · rename_i one_kind
        subst one_kind
        cases kinds
        cases result
        have agree : (a == b) = (x == y) := by
          rw [Bool.eq_iff_iff, beq_iff_eq, beq_iff_eq]
          exact lower.eq_iff upper
        simp only [BinaryOp.apply, Value.equals, lower.sameTag upper, if_true, agree]
        exact ⟨_, rfl, .bool _⟩
      · cases kinds
  | lor | land =>
      obtain ⟨rfl, rfl, rfl⟩ := kinds_of_check kinds
      obtain ⟨p, rfl, rfl⟩ := lower.of_bool
      obtain ⟨q, rfl, rfl⟩ := upper.of_bool
      cases result
      rw [wordOfBool_ne_zero, wordOfBool_ne_zero]
      exact ⟨_, rfl, .bool _⟩

theorem unary {op : UnaryOp} {ka k : Kind} {a : Int64} {x : Value}
    (operand : StandsFor lane h ka a x) (kinds : op.resultKind ka = .ok k) :
    ∃ v, op.apply x = .ok v ∧ StandsFor lane h k (op.onWord lane a) v := by
  cases op with
  | min =>
      simp only [UnaryOp.resultKind] at kinds
      split at kinds
      · rename_i is_int
        subst is_int
        cases kinds
        obtain ⟨n, rfl, kind, same⟩ := operand.of_int
        exact ⟨_, rfl, .reduced kind (by rw [Int64.toInt_neg, same])⟩
      · cases kinds
  | neg =>
      simp only [UnaryOp.resultKind] at kinds
      split at kinds
      · rename_i is_bool
        subst is_bool
        cases kinds
        obtain ⟨b, rfl, rfl⟩ := operand.of_bool
        refine ⟨_, rfl, ?_⟩
        cases b <;> exact .bool _
      · cases kinds

end StandsFor

/-! ## Arguments, constants and results -/

def Lane.Takes (lane : Lane) (d : Descriptor) : Prop :=
  d = .int lane.kind ∨ d = .array (.int lane.kind) ∨ d = .bool ∨ d = .void

theorem toInt_ofInt_of_contains {n : Int} (h : IntKind.i64.Contains n) :
    (Int64.ofInt n).toInt = n := by
  simp only [IntKind.Contains, IntKind.least, IntKind.bound, Width.half, if_true] at h
  exact Int64.toInt_ofInt_of_le (by simpa using h.1) (by simpa using h.2)

/-- Integers of the lane fit a word. -/
theorem toLane?_of_lane {lane : Lane} {n : FixedInt} (kind : n.kind = lane.kind) :
    (Value.int n).toLane? = some (Int64.ofInt n.val)
      ∧ (Int64.ofInt n.val).toInt = n.val := by
  have range := n.inRange
  rw [kind] at range
  have fits := Lane.contains_i64 range
  exact ⟨by simp only [Value.toLane?, if_pos fits], toInt_ofInt_of_contains fits⟩

namespace StandsFor

variable {lane : Lane} {h : Heap}

theorem of_toLane_int {n : FixedInt} {w : Int64} (kind : n.kind = lane.kind)
    (word : (Value.int n).toLane? = some w) : StandsFor lane h .int w (.int n) := by
  obtain ⟨fits, same⟩ := toLane?_of_lane kind
  rw [fits] at word
  cases word
  exact .int kind same

theorem of_toLane_bool {b : Bool} {w : Int64} (word : (Value.bool b).toLane? = some w) :
    StandsFor lane h .bool w (.bool b) := by
  cases word
  exact .bool b

/-- The word for an argument stands for it. -/
theorem of_argument {d : Descriptor} {k : Kind} {v : Value} {w : Int64} (takes : lane.Takes d)
    (kind : d.kind? = some k) (fit : h.ElementsFit) (word : nativeArgument h d v = some w) :
    StandsFor lane h k w v := by
  unfold nativeArgument at word
  split at word
  · rename_i admits
    rcases takes with rfl | rfl | rfl | rfl
    · cases kind
      cases v with
      | int n =>
          have same : lane.kind = n.kind := by simpa [Descriptor.admits] using admits
          exact of_toLane_int same.symm word
      | _ => cases admits
    · cases kind
      cases v with
      | ref r =>
          simp only [Value.ref?, Option.bind_some] at word
          split at word
          · rename_i o live
            split at word
            · rename_i element
              cases word
              exact .array ⟨o, live, (fit r o _ live element).1, element⟩
            · cases word
          · cases word
      | _ => cases admits
    · cases kind
      cases v with
      | bool b => exact of_toLane_bool word
      | _ => cases admits
    · cases kind
  · cases word

/-- The value of the result type that a word gives is the one that the word stands for. -/
theorem result {d : Descriptor} {k : Kind} {v : Value} {w : Int64}
    (stands : StandsFor lane h k w v) (takes : lane.Takes d) (kind : d.kind? = some k) :
    Value.ofLane? w d = some v ∧ d.admits v = true := by
  rcases takes with rfl | rfl | rfl | rfl
  · cases kind
    obtain ⟨n, rfl, same_kind, same⟩ := stands.of_int
    refine ⟨?_, by simp [Descriptor.admits, same_kind]⟩
    rw [Value.ofLane?, same, ← same_kind, Value.ofInt, FixedInt.ofInt_self]
  · cases kind
    obtain ⟨r, rfl, ref_eq, _⟩ := stands.of_array
    exact ⟨by rw [← ref_eq]; rfl, rfl⟩
  · cases kind
    obtain ⟨b, rfl, rfl⟩ := stands.of_bool
    exact ⟨by rw [Value.ofLane?, wordOfBool_ne_zero], rfl⟩
  · cases kind

/-- The word for a constant stands for the value of the constant. -/
theorem of_constant {c : Constant} {index : Nat} {v : Value} {w : Int64}
    (tag : c.tag = .int lane.kind ∨ c.tag = .bool) (value : c.value index = .ok v)
    (word : v.toLane? = some w) :
    StandsFor lane h (if c.tag = .bool then .bool else .int) w v := by
  unfold Constant.value at value
  split at value
  · cases value
  · rcases tag with tag | tag
    · rw [tag] at value ⊢
      cases value
      exact of_toLane_int rfl word
    · rw [tag] at value ⊢
      cases value
      exact of_toLane_bool word

end StandsFor

/-! ## What the choice of a lane makes sure of -/

def laneOf (agreed : Option Width) : Lane := if agreed = some .w32 then .i32 else .i64

def Keeps (agreed later : Option Width) : Prop := ∀ w, agreed = some w → later = some w

theorem Keeps.trans {a b c : Option Width} (first : Keeps a b) (second : Keeps b c) : Keeps a c :=
  fun w known => second w (first w known)

theorem agreeWidth_eq_ok {f : LinkedFunction} {agreed out : Option Width} {what : String}
    {w : Width} (agrees : agreeWidth f agreed what w = .ok out) :
    Keeps agreed out ∧ ∀ later, Keeps out later → (laneOf later).kind = ⟨true, w⟩ := by
  unfold agreeWidth at agrees
  split at agrees
  · cases agrees
  · rename_i supported
    split at agrees
    · rename_i same
      cases agrees
      refine ⟨?_, ?_⟩
      · rintro w' rfl
        have eq : w' = w := by simpa using same
        rw [eq]
      · intro later keeps
        rw [keeps w rfl]
        cases w with
        | w32 => rfl
        | w64 => rfl
        | _ => simp at supported
    · cases agrees

theorem takes_of_agreeType {f : LinkedFunction} {agreed out : Option Width} {d : Descriptor}
    (agrees : agreeType f agreed d = .ok out) :
    Keeps agreed out ∧ ∀ later, Keeps out later → (laneOf later).Takes d := by
  unfold agreeType at agrees
  split at agrees
  · obtain ⟨keeps, kind⟩ := agreeWidth_eq_ok agrees
    exact ⟨keeps, fun later kept => .inl (by rw [kind later kept])⟩
  · obtain ⟨keeps, kind⟩ := agreeWidth_eq_ok agrees
    exact ⟨keeps, fun later kept => .inr (.inl (by rw [kind later kept]))⟩
  · cases agrees
  · cases agrees
    exact ⟨fun _ known => known, fun _ _ => .inr (.inr (.inl rfl))⟩
  · cases agrees
    exact ⟨fun _ known => known, fun _ _ => .inr (.inr (.inr rfl))⟩
  · cases agrees

def Lane.TakesConstant (p : Program) (lane : Lane) (i : Instruction) : Prop :=
  i.opcode = .ldc → ∃ c, p.constant i.arg = .ok c ∧ (c.tag = .int lane.kind ∨ c.tag = .bool)

theorem takes_of_agreeConstant {p : Program} {f : LinkedFunction} {agreed out : Option Width}
    {i : Instruction} (agrees : agreeConstant p f agreed i = .ok out) :
    Keeps agreed out ∧ ∀ later, Keeps out later → (laneOf later).TakesConstant p i := by
  unfold agreeConstant at agrees
  split at agrees
  · split at agrees
    · cases agrees
    · rename_i c constant
      split at agrees
      · rename_i tag
        obtain ⟨keeps, kind⟩ := agreeWidth_eq_ok agrees
        exact ⟨keeps, fun later kept _ => ⟨c, constant, .inl (by rw [kind later kept, tag])⟩⟩
      · rename_i tag
        obtain ⟨keeps, kind⟩ := agreeWidth_eq_ok agrees
        exact ⟨keeps, fun later kept _ => ⟨c, constant, .inl (by rw [kind later kept, tag])⟩⟩
      · rename_i tag
        cases agrees
        exact ⟨fun _ known => known, fun _ _ _ => ⟨c, constant, .inr tag⟩⟩
      · cases agrees
  · rename_i other
    cases agrees
    exact ⟨fun _ known => known, fun _ _ loads => absurd loads other⟩

/-- What every single agreement makes sure of holds of all of them in the end. -/
theorem takes_of_foldlM {α : Type} {agree : Option Width → α → Except NativeError (Option Width)}
    {takes : Lane → α → Prop}
    (one : ∀ {agreed out : Option Width} {a : α}, agree agreed a = .ok out →
      Keeps agreed out ∧ ∀ later, Keeps out later → takes (laneOf later) a)
    {l : List α} {agreed out : Option Width} (all : l.foldlM agree agreed = .ok out) :
    Keeps agreed out ∧ ∀ later, Keeps out later → ∀ a ∈ l, takes (laneOf later) a := by
  induction l generalizing agreed with
  | nil =>
      cases all
      exact ⟨fun _ known => known, fun _ _ _ member => by cases member⟩
  | cons a rest ih =>
      rw [List.foldlM_cons] at all
      cases first : agree agreed a with
      | error e => simp [first, bind, Except.bind] at all
      | ok between =>
          simp only [first, bind, Except.bind] at all
          obtain ⟨keeps, here⟩ := one first
          obtain ⟨keeps', there⟩ := ih all
          refine ⟨keeps.trans keeps', fun later kept b member => ?_⟩
          rcases List.mem_cons.mp member with rfl | member
          · exact here later (keeps'.trans kept)
          · exact there later kept b member

/-- The types and constants of the function are those that the lane takes. -/
structure LaneFits (p : Program) (f : LinkedFunction) (lane : Lane) : Prop where
  params : ∀ d ∈ f.params, lane.Takes d
  result : lane.Takes f.result
  constants : ∀ i ∈ f.code.toList, lane.TakesConstant p i

theorem laneFits_of_selectLane {p : Program} {f : LinkedFunction} {lane : Lane}
    (selected : selectLane p f = .ok lane) : LaneFits p f lane := by
  unfold selectLane at selected
  cases types : (f.params ++ [f.result]).foldlM (agreeType f) none with
  | error e => simp [types, bind, Except.bind] at selected
  | ok agreed =>
      simp only [types, bind, Except.bind] at selected
      cases constants : f.code.toList.foldlM (agreeConstant p f) agreed with
      | error e => simp [constants] at selected
      | ok out =>
          simp only [constants] at selected
          cases selected
          obtain ⟨_, takes⟩ := takes_of_foldlM takes_of_agreeType types
          obtain ⟨keeps, takes'⟩ := takes_of_foldlM takes_of_agreeConstant constants
          have all_types := takes out keeps
          refine ⟨fun d member => all_types d (by simp [member]), all_types _ (by simp), ?_⟩
          exact takes' out fun _ known => known

end StackMachine
