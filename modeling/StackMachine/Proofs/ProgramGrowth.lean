import StackMachine.Program.Image
import StackMachine.Proofs.VerifiedRuns

/-! # Programs grow at their ends

Constants, functions and classes are registered after those that are there, and a load registers
what its file holds. What resolved before resolves to the same afterwards, so a function that was
accepted stays accepted.
-/

namespace StackMachine

/-- What follows a computation that gives more results gives more results. -/
theorem bind_ok_mono {α β : Type} {x y : Except Fault α} {k : α → Except Fault β} {b : β}
    (more : ∀ a, x = .ok a → y = .ok a) (ok : x >>= k = .ok b) : y >>= k = .ok b := by
  cases x with
  | error fault => cases ok
  | ok a =>
      rw [more a rfl]
      exact ok

/-- The second program has the constants and the functions of the first in the same places. -/
structure Program.Extends (p q : Program) : Prop where
  constants : ∀ (i : Nat) (c : Constant), p.constants[i]? = some c → q.constants[i]? = some c
  functions : ∀ (i : Nat) (f : LinkedFunction), p.functions[i]? = some f → q.functions[i]? = some f

namespace Program.Extends

variable {p q : Program} {f : LinkedFunction} {i : Instruction} {index : Nat}

theorem refl (p : Program) : p.Extends p := ⟨fun _ _ found => found, fun _ _ found => found⟩

theorem trans {r : Program} (first : p.Extends q) (second : q.Extends r) : p.Extends r := by
  constructor
  · intro i c found
    exact second.constants i c (first.constants i c found)
  · intro i f found
    exact second.functions i f (first.functions i f found)

/-! ## Looking up -/

section LookingUp

variable (grown : p.Extends q)
include grown

theorem constant {c : Constant} (found : p.constant index = .ok c) : q.constant index = .ok c := by
  unfold Program.constant at found ⊢
  cases at_index : p.constants[index]? with
  | none =>
      rw [at_index] at found
      cases found
  | some c' =>
      rw [at_index] at found
      cases found
      rw [grown.constants index c at_index]

theorem function {g : LinkedFunction} (found : p.function index = .ok g) :
    q.function index = .ok g := by
  unfold Program.function at found ⊢
  cases at_index : p.functions[index]? with
  | none =>
      rw [at_index] at found
      cases found
  | some g' =>
      rw [at_index] at found
      cases found
      rw [grown.functions index g at_index]

theorem constantValue {v : Value} (found : p.constantValue index = .ok v) :
    q.constantValue index = .ok v :=
  bind_ok_mono (fun _ => grown.constant) found

theorem name {text : String} (found : p.name index = .ok text) : q.name index = .ok text :=
  bind_ok_mono (fun _ => grown.constant) found

theorem descriptor {d : Descriptor} (found : p.descriptor index = .ok d) :
    q.descriptor index = .ok d :=
  bind_ok_mono (fun _ => grown.name) found

/-! ## Verification -/

theorem operandProblem (fine : p.operandProblem? f i = none) : q.operandProblem? f i = none := by
  unfold operandProblem? at fine ⊢
  generalize i.opcode = opcode at fine ⊢
  cases opcode with
  | ldc =>
      dsimp only at fine ⊢
      cases found : p.constantValue i.arg with
      | error fault => simp [found] at fine
      | ok v => rw [grown.constantValue found]
  | newarr =>
      dsimp only at fine ⊢
      cases found : p.descriptor i.arg with
      | error fault => simp [found] at fine
      | ok d =>
          rw [found] at fine
          rw [grown.descriptor found]
          exact fine
  | halt =>
      dsimp only at fine ⊢
      cases found : p.constant i.arg with
      | error fault => simp [found] at fine
      | ok c =>
          rw [found] at fine
          rw [grown.constant found]
          exact fine
  | call =>
      dsimp only at fine ⊢
      cases found : p.function i.arg with
      | error fault => simp [found] at fine
      | ok g => rw [grown.function found]
  | _ => exact fine

/-- What an instruction pops and pushes depends on the program in calls only, and there the
callee is known. -/
theorem stackEffect (fine : p.operandProblem? f i = none) :
    q.stackEffect f i = p.stackEffect f i := by
  unfold operandProblem? at fine
  unfold Program.stackEffect
  generalize i.opcode = opcode at fine ⊢
  cases opcode with
  | call =>
      dsimp only at fine ⊢
      cases found : p.function i.arg with
      | error fault => simp [found] at fine
      | ok g => rw [grown.function found]
  | _ => rfl

theorem checkOperands {pc : Nat} {code : List Instruction}
    (checked : p.checkOperands f pc code = .ok ()) : q.checkOperands f pc code = .ok () := by
  induction code generalizing pc with
  | nil => rfl
  | cons i rest ih =>
      unfold Program.checkOperands at checked ⊢
      cases fine : p.operandProblem? f i with
      | some problem =>
          rw [fine] at checked
          cases checked
      | none =>
          rw [fine] at checked
          rw [grown.operandProblem fine]
          exact ih checked

end LookingUp

theorem visit_eq (effects : ∀ i ∈ f.code.toList, q.stackEffect f i = p.stackEffect f i)
    (s : HeightSearch) (pc : Nat) : s.visit q f pc = s.visit p f pc := by
  unfold HeightSearch.visit
  cases s.heights[pc]?.join with
  | none => rfl
  | some height =>
      cases fetched : f.code[pc]? with
      | none => rfl
      | some i =>
          have member : i ∈ f.code.toList :=
            Array.mem_toList_iff.mpr (Array.mem_of_getElem? fetched)
          dsimp only
          rw [effects i member]

/-- The search makes the same visits, so it ends in the same heights. -/
theorem finish_eq (effects : ∀ i ∈ f.code.toList, q.stackEffect f i = p.stackEffect f i)
    (s : HeightSearch) : s.finish q f = s.finish p f := by
  induction s using HeightSearch.finish.induct p f with
  | case1 s done =>
      obtain ⟨heights, _⟩ := s
      cases done
      rw [HeightSearch.finish_nil, HeightSearch.finish_nil]
  | case2 s pc rest pending t visited ih =>
      obtain ⟨heights, _⟩ := s
      cases pending
      rw [HeightSearch.finish_cons, HeightSearch.finish_cons, visit_eq effects, visited]
      exact ih
  | case3 s pc rest pending e visited =>
      obtain ⟨heights, _⟩ := s
      cases pending
      rw [HeightSearch.finish_cons, HeightSearch.finish_cons, visit_eq effects, visited]
      rfl

theorem verifyFunction (grown : p.Extends q) (accepted : p.verifyFunction f = .ok ()) :
    q.verifyFunction f = .ok () := by
  have effects : ∀ i ∈ f.code.toList, q.stackEffect f i = p.stackEffect f i := by
    intro i member
    exact grown.stackEffect (Program.operandProblem_of_accepted accepted member)
  have heights : q.stackHeights f = p.stackHeights f := finish_eq effects (.start f)
  unfold Program.verifyFunction at accepted ⊢
  cases checked : p.checkOperands f 0 f.code.toList with
  | error e =>
      rw [checked] at accepted
      cases accepted
  | ok done =>
      rw [checked] at accepted
      rw [grown.checkOperands checked, heights]
      exact accepted

end Program.Extends

/-! ## Registration -/

theorem getElem?_push_of_some {α : Type} {xs : Array α} {x y : α} {i : Nat}
    (found : xs[i]? = some x) : (xs.push y)[i]? = some x := by
  have bound : i < xs.size := (Array.getElem?_eq_some_iff.mp found).1
  rw [Array.getElem?_push, if_neg (by omega), found]

namespace Program

variable {p q : Program}

def withFunction (p : Program) (f : LinkedFunction) : Program :=
  { p with
    functions := p.functions.push f
    functionNames := p.functionNames.insert f.name p.functions.size }

def withClass (p : Program) (c : LinkedClass) : Program :=
  { p with
    classes := p.classes.push c
    classNames := p.classNames.insert c.name p.classes.size }

section Attempts

variable {r : FunctionRecord} {k : ClassRecord} {f : LinkedFunction} {c : LinkedClass}
  {fault : Fault}

theorem addFunction_of_linked (linked : p.linkFunction r = .ok f) :
    p.addFunction r = (p.withFunction f, .ok p.functions.size) := by
  rw [addFunction, registerFunction,
    Change.apply_check_of_ok (fun p : Program => p.linkFunction r) linked]
  rfl

/-- Nothing is entered before all of the record is resolved. -/
theorem addFunction_of_refused (refused : p.linkFunction r = .error fault) :
    p.addFunction r = (p, .error fault) := by
  rw [addFunction, registerFunction,
    Change.apply_check_of_error (fun p : Program => p.linkFunction r) refused]

theorem addClass_of_linked (linked : p.linkClass k = .ok c) :
    p.addClass k = (p.withClass c, .ok p.classes.size) := by
  rw [addClass, registerClass,
    Change.apply_check_of_ok (fun p : Program => p.linkClass k) linked]
  rfl

theorem addClass_of_refused (refused : p.linkClass k = .error fault) :
    p.addClass k = (p, .error fault) := by
  rw [addClass, registerClass,
    Change.apply_check_of_error (fun p : Program => p.linkClass k) refused]

end Attempts

theorem extends_addConstant (p : Program) (c : Constant) : p.Extends (p.addConstant c).1 :=
  ⟨fun _ _ found => getElem?_push_of_some found, fun _ _ found => found⟩

theorem extends_withFunction (p : Program) (f : LinkedFunction) : p.Extends (p.withFunction f) :=
  ⟨fun _ _ found => found, fun _ _ found => getElem?_push_of_some found⟩

theorem extends_withClass (p : Program) (c : LinkedClass) : p.Extends (p.withClass c) :=
  ⟨fun _ _ found => found, fun _ _ found => found⟩

end Program

inductive Registration where
  | constant (c : Constant)
  | function (r : FunctionRecord)
  | record (r : ClassRecord)

namespace Program

variable {p q : Program}

/-- What comes of the attempt to register a record: the program afterwards, and the index of the
record or the fault. -/
def attempt (p : Program) : Registration → Program × Except Fault Nat
  | .constant c => ((p.addConstant c).1, .ok (p.addConstant c).2)
  | .function r => p.addFunction r
  | .record r => p.addClass r

def register (p : Program) (r : Registration) : Program := (p.attempt r).1

/-- All that an attempt can come to: a refusal, which changes nothing, or one more record. -/
theorem attempt_cases (p : Program) (r : Registration) :
    (∃ fault, p.attempt r = (p, .error fault))
      ∨ (∃ c, r = .constant c ∧ p.attempt r = ((p.addConstant c).1, .ok p.constants.size))
      ∨ (∃ k f, r = .function k ∧ p.linkFunction k = .ok f
          ∧ p.attempt r = (p.withFunction f, .ok p.functions.size))
      ∨ ∃ k c, r = .record k ∧ p.linkClass k = .ok c
          ∧ p.attempt r = (p.withClass c, .ok p.classes.size) := by
  cases r with
  | constant c => exact .inr (.inl ⟨c, rfl, rfl⟩)
  | function k =>
      cases linked : p.linkFunction k with
      | error fault => exact .inl ⟨fault, addFunction_of_refused linked⟩
      | ok f => exact .inr (.inr (.inl ⟨k, f, rfl, linked, addFunction_of_linked linked⟩))
  | record k =>
      cases linked : p.linkClass k with
      | error fault => exact .inl ⟨fault, addClass_of_refused linked⟩
      | ok c => exact .inr (.inr (.inr ⟨k, c, rfl, linked, addClass_of_linked linked⟩))

theorem extends_register (p : Program) (r : Registration) : p.Extends (p.register r) := by
  unfold register
  obtain ⟨_, tried⟩ | ⟨c, _, tried⟩ | ⟨_, f, _, _, tried⟩ | ⟨_, c, _, _, tried⟩ :=
    p.attempt_cases r
  · rw [tried]
    exact .refl p
  · rw [tried]
    exact p.extends_addConstant c
  · rw [tried]
    exact p.extends_withFunction f
  · rw [tried]
    exact p.extends_withClass c

/-- A record that is refused leaves the program as it was. -/
theorem attempt_of_error {r : Registration} {fault : Fault}
    (refused : p.attempt r = (q, .error fault)) : q = p := by
  obtain ⟨_, tried⟩ | ⟨_, _, tried⟩ | ⟨_, _, _, _, tried⟩ | ⟨_, _, _, _, tried⟩ :=
    p.attempt_cases r
  · rw [refused] at tried
    exact congrArg Prod.fst tried
  all_goals
    rw [refused] at tried
    cases tried

/-! ## Records added one after another -/

theorem fst_addFunctions (origin : String) (p : Program) (number : Nat)
    (records : List FunctionRecord) :
    (addFunctions origin p number records).1 = (addEach addFunction p records).1 := by
  induction records generalizing p number with
  | nil => rfl
  | cons r rest ih =>
      unfold addFunctions addEach
      rcases p.addFunction r with ⟨q, fault | index⟩
      · rfl
      · exact ih q (number + 1)

theorem fst_addClasses (origin : String) (p : Program) (number : Nat)
    (records : List ClassRecord) :
    (addClasses origin p number records).1 = (addEach addClass p records).1 := by
  induction records generalizing p number with
  | nil => rfl
  | cons r rest ih =>
      unfold addClasses addEach
      rcases p.addClass r with ⟨q, fault | index⟩
      · rfl
      · exact ih q (number + 1)

section Kept

variable {kept : Program → Program → Prop} (refl : ∀ p : Program, kept p p)
  (trans : ∀ {p q r : Program}, kept p q → kept q r → kept p r)
include refl trans

/-- What each record keeps that is added or refused, all of them keep. -/
theorem addEach_keeps {α : Type} {add : Program → α → Program × Except Fault Nat}
    (p : Program) (records : List α)
    (each : ∀ (p : Program), ∀ a ∈ records, kept p (add p a).1) :
    kept p (addEach add p records).1 := by
  induction records generalizing p with
  | nil => exact refl p
  | cons r rest ih =>
      have first := each p r List.mem_cons_self
      unfold addEach
      rcases added : add p r with ⟨q, fault | index⟩
      · rw [added] at first
        exact first
      · rw [added] at first
        exact trans first (ih q fun p a later => each p a (List.mem_cons_of_mem r later))

theorem link_keeps (p : Program) (origin : String) {file : ProgramFile}
    (constants : kept p (p.addConstants file.constants))
    (functions : ∀ (q : Program), ∀ r ∈ file.functions,
      kept q (q.addFunction ((Relocation.ofProgram p).function r)).1)
    (classes : ∀ (q : Program) (r : ClassRecord), kept q (q.addClass r).1) :
    kept p (p.link origin file).1 := by
  have shifted : ∀ (q : Program), ∀ r ∈ file.functions.map (Relocation.ofProgram p).function,
      kept q (q.addFunction r).1 := by
    intro q r member
    obtain ⟨r', inside, rfl⟩ := List.mem_map.mp member
    exact functions q r' inside
  have first := trans constants (addEach_keeps refl trans _ _ shifted)
  rw [← fst_addFunctions origin _ 0] at first
  unfold link
  dsimp only
  split
  · rename_i failed
    rw [failed] at first
    exact first
  · rename_i withFunctions added
    rw [added] at first
    have second := trans first (addEach_keeps refl trans withFunctions
      (file.classes.map (Relocation.ofProgram p).classRecord) fun q r _ => classes q r)
    rw [← fst_addClasses origin withFunctions 0] at second
    split
    · rename_i failed
      rw [failed] at second
      exact second
    · rename_i done
      rw [done] at second
      split <;> exact second

theorem restore_keeps (image : Image)
    (constants : kept .empty (Program.empty.addConstants image.constants))
    (functions : ∀ (p : Program) (r : FunctionRecord), kept p (p.addFunction r).1)
    (classes : ∀ (p : Program) (r : ClassRecord), kept p (p.addClass r).1) :
    kept .empty (restore image).1 := by
  have first := trans constants
    (addEach_keeps refl trans _ image.functions fun p r _ => functions p r)
  unfold restore
  split
  · rename_i failed
    rw [failed] at first
    exact first
  · rename_i withFunctions added
    rw [added] at first
    have second := trans first
      (addEach_keeps refl trans withFunctions image.classes fun p r _ => classes p r)
    split
    · rename_i failed
      rw [failed] at second
      exact second
    · rename_i done
      rw [done] at second
      split <;> exact second

end Kept

/-! ## Growth -/

def registerAll (p : Program) (records : List Registration) : Program :=
  records.foldl register p

def GrowsTo (p q : Program) : Prop := ∃ records, q = p.registerAll records

namespace GrowsTo

theorem refl (p : Program) : p.GrowsTo p := ⟨[], rfl⟩

theorem trans {r : Program} (first : p.GrowsTo q) (second : q.GrowsTo r) : p.GrowsTo r := by
  obtain ⟨earlier, rfl⟩ := first
  obtain ⟨later, rfl⟩ := second
  exact ⟨earlier ++ later, List.foldl_append.symm⟩

theorem attempt (p : Program) (r : Registration) : p.GrowsTo (p.attempt r).1 := ⟨[r], rfl⟩

theorem addConstants (p : Program) (constants : List Constant) :
    p.GrowsTo (p.addConstants constants) := by
  refine ⟨constants.map .constant, ?_⟩
  rw [registerAll, List.foldl_map]
  rfl

theorem addFunction (p : Program) (r : FunctionRecord) : p.GrowsTo (p.addFunction r).1 :=
  attempt p (.function r)

theorem addClass (p : Program) (r : ClassRecord) : p.GrowsTo (p.addClass r).1 :=
  attempt p (.record r)

theorem addClasses (origin : String) (p : Program) (number : Nat)
    (records : List ClassRecord) : p.GrowsTo (addClasses origin p number records).1 := by
  rw [fst_addClasses]
  exact addEach_keeps refl trans p records fun p r _ => addClass p r

theorem link (p : Program) (origin : String) (file : ProgramFile) :
    p.GrowsTo (p.link origin file).1 :=
  link_keeps refl trans p origin (addConstants p file.constants) (fun q _ _ => addFunction q _)
    addClass

theorem load (p : Program) (input : List UInt8) (origin : String) :
    p.GrowsTo (p.load input origin).program := by
  unfold Program.load
  cases parsed : ProgramFile.parse origin input with
  | error e => exact .refl p
  | ok read =>
      obtain ⟨file, trailing⟩ := read
      dsimp only
      cases (p.link origin file).2 <;> exact link p origin file

theorem restore (image : Image) : Program.empty.GrowsTo (Program.restore image).1 :=
  restore_keeps refl trans image (addConstants .empty image.constants) addFunction addClass

theorem toExtends (grown : p.GrowsTo q) : p.Extends q := by
  obtain ⟨records, rfl⟩ := grown
  induction records generalizing p with
  | nil => exact .refl p
  | cons r rest ih => exact (extends_register p r).trans ih

end GrowsTo

/-! ## What loads add is accepted -/

/-- Linking adds to a program also if it fails; if it succeeds, what was added was accepted. -/
theorem link_spec (p : Program) (origin : String) (file : ProgramFile) :
    p.Extends (p.link origin file).1 ∧
      ((p.link origin file).2 = .ok () →
        (p.link origin file).1.verifyFrom p.functions.size = .ok ()) := by
  refine ⟨(GrowsTo.link p origin file).toExtends, ?_⟩
  unfold link
  dsimp only
  split
  · exact fun ok => by cases ok
  · split
    · exact fun ok => by cases ok
    · split
      · exact fun ok => by cases ok
      · rename_i verified
        exact fun _ => verified

theorem load_spec (p : Program) (input : List UInt8) (origin : String) :
    p.Extends (p.load input origin).program ∧
      ∀ counts, (p.load input origin).result = .ok counts →
        (p.load input origin).program.verifyFrom p.functions.size = .ok () := by
  unfold load
  cases parsed : ProgramFile.parse origin input with
  | error e => exact ⟨.refl p, fun _ ok => by cases ok⟩
  | ok read =>
      obtain ⟨file, trailing⟩ := read
      obtain ⟨grown, verified⟩ := p.link_spec origin file
      dsimp only
      cases result : (p.link origin file).2 with
      | error e => exact ⟨grown, fun _ ok => by cases ok⟩
      | ok done => exact ⟨grown, fun _ _ => verified result⟩

/-- An image is restored exactly if its records can be registered and are then accepted. -/
theorem restore_eq_ok_iff {image : Image} :
    restore image = (p, .ok ())
      ↔ ∃ withFunctions,
          Program.addEach Program.addFunction (empty.addConstants image.constants) image.functions
              = (withFunctions, .ok ())
            ∧ Program.addEach Program.addClass withFunctions image.classes = (p, .ok ())
            ∧ p.verifyFrom 0 = .ok () := by
  constructor
  · intro restored
    unfold restore at restored
    split at restored
    · cases restored
    · rename_i withFunctions functions
      split at restored
      · cases restored
      · rename_i whole classes
        split at restored
        · cases restored
        · rename_i verified
          cases restored
          exact ⟨withFunctions, functions, classes, verified⟩
  · rintro ⟨withFunctions, functions, classes, verified⟩
    simp only [restore, functions, classes, verified]

/-- Bytes are loaded exactly if an image with the right mark can be read from their start, and
restored. -/
theorem loadImage_eq_ok_iff {input : List UInt8} :
    (∃ log, loadImage input = (.ok p, log))
      ↔ ∃ image rest, Image.decode input = .ok (image, rest) ∧ image.magic = Image.expectedMagic
          ∧ restore image = (p, .ok ()) := by
  unfold loadImage
  cases decoded : Image.decode input with
  | error e => simp
  | ok read =>
      obtain ⟨image, rest⟩ := read
      by_cases magic : image.magic = Image.expectedMagic
      · rcases restored : restore image with ⟨q, e | _⟩
        · simp [magic, restored]
        · simp [magic, restored]
      · simp [magic]

end Program

end StackMachine
