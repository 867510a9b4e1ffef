import Mathlib
import StackMachine.Proofs.ImageRoundTrip
import StackMachine.Proofs.Relocation
import StackMachine.Proofs.Verdicts

/-! # Operands and their places

Whatever is linked from a file has operands where its opcodes have them, and nowhere else. An
image says of each instruction whether it has an operand, and what it says is kept: nothing
compares it with the opcode. So an image is accepted or refused as if an operand that is missing
were 0, and one that is too many were not there.
-/

namespace StackMachine

def Instruction.InPlace (i : Instruction) : Prop := i.operand.isSome = i.opcode.hasOperand

def FunctionRecord.InPlace (r : FunctionRecord) : Prop := ∀ i ∈ r.code, i.InPlace

/-! ## Files -/

theorem FunctionRecord.Encodable.inPlace {r : FunctionRecord} (fits : r.Encodable) :
    r.InPlace := by
  intro i member
  exact (fits.code i (Array.mem_toList_iff.mpr member)).1

theorem Relocation.inPlace_instruction (r : Relocation) {i : Instruction} (placed : i.InPlace) :
    (r.instruction i).InPlace := by
  unfold Instruction.InPlace at placed ⊢
  rw [opcode_instruction, ← placed]
  unfold instruction
  split
  · exact Option.isSome_map
  · split
    · exact Option.isSome_map
    · rfl

theorem Relocation.inPlace_function (r : Relocation) {f : FunctionRecord} (placed : f.InPlace) :
    (r.function f).InPlace := by
  intro i member
  obtain ⟨j, inside, rfl⟩ := Array.mem_map.mp member
  exact r.inPlace_instruction (placed j inside)

namespace Program

/-- The second program has further functions, with their operands in place. -/
def GrowsInPlace (p q : Program) : Prop :=
  ∃ added : List LinkedFunction, q.functions = p.functions ++ added.toArray
    ∧ ∀ f ∈ added, f.record.InPlace

namespace GrowsInPlace

variable {p q : Program}

theorem of_eq (same : q.functions = p.functions) : p.GrowsInPlace q := ⟨[], by simp [same], by simp⟩

theorem trans {r : Program} (first : p.GrowsInPlace q) (second : q.GrowsInPlace r) :
    p.GrowsInPlace r := by
  obtain ⟨earlier, before, placed⟩ := first
  obtain ⟨later, after, placed'⟩ := second
  refine ⟨earlier ++ later, by simp [before, after], ?_⟩
  intro f member
  exact (List.mem_append.mp member).elim (placed f) (placed' f)

theorem addFunction (p : Program) {r : FunctionRecord} (placed : r.InPlace) :
    p.GrowsInPlace (p.addFunction r).1 := by
  cases linked : p.linkFunction r with
  | error fault =>
      rw [addFunction_of_refused linked]
      exact of_eq rfl
  | ok f =>
      rw [addFunction_of_linked linked]
      obtain ⟨rfl, _⟩ := linkFunction_eq_ok.mp linked
      exact ⟨[f], by simp [withFunction], by simpa using placed⟩

theorem addClass (p : Program) (r : ClassRecord) : p.GrowsInPlace (p.addClass r).1 := by
  cases linked : p.linkClass r with
  | error fault =>
      rw [addClass_of_refused linked]
      exact of_eq rfl
  | ok c =>
      rw [addClass_of_linked linked]
      exact of_eq rfl

theorem link (p : Program) (origin : String) {file : ProgramFile}
    (placed : ∀ r ∈ file.functions, r.InPlace) : p.GrowsInPlace (p.link origin file).1 := by
  have constants : p.GrowsInPlace (p.addConstants file.constants) :=
    of_eq (by rw [addConstants_eq])
  refine link_keeps (fun p => of_eq rfl) trans p origin constants ?_ addClass
  intro q r member
  exact addFunction q (Relocation.inPlace_function _ (placed r member))

/-- What a load adds is in place, also if the file is refused after all. -/
theorem load (p : Program) (input : List UInt8) (origin : String) :
    p.GrowsInPlace (p.load input origin).program := by
  unfold Program.load
  cases parsed : ProgramFile.parse origin input with
  | error e => exact of_eq rfl
  | ok read =>
      obtain ⟨file, trailing⟩ := read
      have fits := (ProgramFile.parse_iff.mp parsed).1
      have linked := link p origin fun r member => (fits.functions r member).inPlace
      dsimp only
      cases (p.link origin file).2 <;> exact linked

end GrowsInPlace

end Program

/-! ## Operands put right -/

/-- An operand that is missing is 0, and one that is too many is dropped. -/
def Instruction.putRight (i : Instruction) : Instruction :=
  { i with operand := if i.opcode.hasOperand then some (i.operand.getD 0) else none }

def FunctionRecord.putRight (r : FunctionRecord) : FunctionRecord :=
  { r with code := r.code.map Instruction.putRight }

def LinkedFunction.putRight (f : LinkedFunction) : LinkedFunction :=
  { f with record := f.record.putRight }

def Program.putRight (p : Program) : Program :=
  { p with functions := p.functions.map LinkedFunction.putRight }

def Image.putRight (image : Image) : Image :=
  { image with functions := image.functions.map FunctionRecord.putRight }

namespace Instruction

theorem putRight_eq_self_iff {i : Instruction} : i.putRight = i ↔ i.InPlace := by
  obtain ⟨opcode, operand⟩ := i
  unfold InPlace putRight
  cases operand <;> cases opcode.hasOperand <;> simp

/-- An operand that the opcode has reads alike whether it is written out or not. -/
theorem arg_putRight {i : Instruction} (operand : i.opcode.hasOperand = true) :
    i.putRight.arg = i.arg := by
  simp [arg, putRight, operand]

@[simp] theorem opcode_putRight (i : Instruction) : i.putRight.opcode = i.opcode := rfl

theorem successors_putRight (i : Instruction) (pc : Nat) :
    i.putRight.successors pc = i.successors pc := by
  have arg := @arg_putRight i
  unfold successors
  rw [opcode_putRight]
  cases opcode : i.opcode with
  | jmp | jz | jnz => simp only [arg (by rw [opcode]; rfl)]
  | _ => rfl

end Instruction

namespace Program

theorem function_putRight (p : Program) (index : Nat) :
    p.putRight.function index = (p.function index).map LinkedFunction.putRight := by
  unfold function putRight
  cases found : p.functions[index]? with
  | none => simp [found, Except.map]
  | some f => simp [found, Except.map]

/-! ## The verifier does not look at presence -/

variable {p : Program} {f : LinkedFunction}

theorem operandFits_putRight {i : Instruction} :
    p.putRight.OperandFits f.putRight i.putRight ↔ p.OperandFits f i := by
  have arg := @Instruction.arg_putRight i
  unfold OperandFits
  rw [Instruction.opcode_putRight]
  cases opcode : i.opcode with
  | ldc | newarr | halt | ldv | store =>
      rw [arg (by rw [opcode]; rfl)]
      rfl
  | jmp | jz | jnz =>
      rw [arg (by rw [opcode]; rfl)]
      simp [LinkedFunction.code, LinkedFunction.putRight, FunctionRecord.putRight]
  | call =>
      rw [arg (by rw [opcode]; rfl)]
      simp only [function_putRight]
      cases p.function i.arg <;> simp [Except.map]
  | _ => rfl

theorem stackEffect_putRight (i : Instruction) :
    p.putRight.stackEffect f.putRight i.putRight = p.stackEffect f i := by
  unfold stackEffect
  rw [Instruction.opcode_putRight]
  cases opcode : i.opcode with
  | call =>
      simp only [Instruction.arg_putRight (i := i) (by rw [opcode]; rfl), function_putRight]
      cases p.function i.arg <;> rfl
  | _ => rfl

theorem code_putRight (f : LinkedFunction) :
    f.putRight.code = f.code.map Instruction.putRight := rfl

theorem fetch_putRight {pc : Nat} {i : Instruction} (here : f.code[pc]? = some i) :
    f.putRight.code[pc]? = some i.putRight := by
  rw [code_putRight, Array.getElem?_map, here]
  rfl

theorem fetch_of_putRight {pc : Nat} {i : Instruction} (here : f.putRight.code[pc]? = some i) :
    ∃ j, f.code[pc]? = some j ∧ j.putRight = i := by
  rw [code_putRight, Array.getElem?_map] at here
  exact Option.map_eq_some_iff.mp here

theorem flowsTo_putRight {pc : Nat} : f.putRight.FlowsTo pc ↔ f.FlowsTo pc := by
  have size : f.putRight.code.size = f.code.size := by simp [code_putRight]
  constructor
  · intro reached
    induction reached with
    | entry inside => exact .entry (size ▸ inside)
    | edge _ here successor inside ih =>
        obtain ⟨j, there, rfl⟩ := fetch_of_putRight here
        exact .edge ih there (j.successors_putRight _ ▸ successor) (size ▸ inside)
  · intro reached
    induction reached with
    | entry inside => exact .entry (size ▸ inside)
    | edge _ here successor inside ih =>
        exact .edge ih (fetch_putRight here) ((Instruction.successors_putRight ..).symm ▸ successor)
          (size ▸ inside)

theorem balances_putRight {height : Nat → Nat} :
    p.putRight.Balances f.putRight height ↔ p.Balances f height := by
  have size : f.putRight.code.size = f.code.size := by simp [code_putRight]
  constructor
  · intro balanced
    refine ⟨balanced.entry, ?_, ?_⟩
    · intro pc i reached here
      rw [← stackEffect_putRight i]
      exact balanced.enough (flowsTo_putRight.mpr reached) (fetch_putRight here)
    · intro pc next i reached here successor inside
      rw [← stackEffect_putRight i]
      exact balanced.edge (flowsTo_putRight.mpr reached) (fetch_putRight here)
        (i.successors_putRight pc ▸ successor) (size ▸ inside)
  · intro balanced
    refine ⟨balanced.entry, ?_, ?_⟩
    · intro pc i reached here
      obtain ⟨j, there, rfl⟩ := fetch_of_putRight here
      rw [stackEffect_putRight j]
      exact balanced.enough (flowsTo_putRight.mp reached) there
    · intro pc next i reached here successor inside
      obtain ⟨j, there, rfl⟩ := fetch_of_putRight here
      rw [stackEffect_putRight j]
      exact balanced.edge (flowsTo_putRight.mp reached) there
        (j.successors_putRight pc ▸ successor) (size ▸ inside)

theorem verifyFunction_putRight :
    p.putRight.verifyFunction f.putRight = .ok () ↔ p.verifyFunction f = .ok () := by
  have operands : (∀ i ∈ f.putRight.code.toList, p.putRight.OperandFits f.putRight i)
      ↔ ∀ i ∈ f.code.toList, p.OperandFits f i := by
    simp [code_putRight, operandFits_putRight]
  simp only [verifyFunction_eq_ok_iff, checkOperands_eq_ok_iff, stackHeights_isOk_iff, operands,
    balances_putRight]

theorem verifyFrom_putRight : p.putRight.verifyFrom 0 = .ok () ↔ p.verifyFrom 0 = .ok () := by
  have functions : p.putRight.functions.toList = p.functions.toList.map LinkedFunction.putRight :=
    Array.toList_map
  simp only [verifyFrom, List.drop_zero, functions]
  constructor
  · intro verified
    refine verifyAll_of_accepted fun f member => ?_
    exact verifyFunction_putRight.mp (accepted_of_verifyAll verified _ (List.mem_map_of_mem member))
  · intro verified
    refine verifyAll_of_accepted fun g member => ?_
    obtain ⟨f, inside, rfl⟩ := List.mem_map.mp member
    exact verifyFunction_putRight.mpr (accepted_of_verifyAll verified f inside)

/-! ## Neither does registration -/

theorem linkFunction_putRight (p : Program) (r : FunctionRecord) :
    p.putRight.linkFunction r.putRight = (p.linkFunction r).map LinkedFunction.putRight := by
  have names : p.putRight.name = p.name := rfl
  have descriptors : p.putRight.descriptor = p.descriptor := rfl
  have indices : p.putRight.functionIndex? = p.functionIndex? := rfl
  simp only [linkFunction, names, descriptors, indices, FunctionRecord.putRight]
  cases p.name r.name.toNat with
  | error fault => rfl
  | ok name =>
      cases p.name r.params.toNat with
      | error fault => rfl
      | ok text =>
          cases read : Descriptor.parseList text with
          | error fault => simp only [read, bind, Except.bind, Except.map]
          | ok params =>
              simp only [read, bind, Except.bind]
              cases p.descriptor r.result.toNat with
              | error fault => rfl
              | ok result => cases p.functionIndex? name <;> rfl

theorem addFunction_putRight (p : Program) (r : FunctionRecord) :
    p.putRight.addFunction r.putRight = (p.addFunction r).map putRight id := by
  have linked := linkFunction_putRight p r
  cases plain : p.linkFunction r with
  | error fault =>
      rw [plain] at linked
      rw [addFunction_of_refused linked, addFunction_of_refused plain]
      rfl
  | ok f =>
      rw [plain] at linked
      rw [addFunction_of_linked linked, addFunction_of_linked plain]
      simp [withFunction, putRight, LinkedFunction.putRight]

theorem linkFields_putRight (p : Program) (className : String) (earlier : List LinkedField)
    (offset : Nat) (records : List FieldRecord) :
    p.putRight.linkFields className earlier offset records
      = p.linkFields className earlier offset records := by
  induction records generalizing earlier offset with
  | nil => rfl
  | cons r rest ih =>
      simp only [linkFields, ih]
      rfl

theorem checkMethods_putRight (p : Program) (methods : List UInt32) :
    p.putRight.checkMethods methods = p.checkMethods methods := by
  induction methods with
  | nil => rfl
  | cons method rest ih =>
      simp only [checkMethods, function_putRight, ih]
      cases p.function method.toNat <;> rfl

theorem addClass_putRight (p : Program) (r : ClassRecord) :
    p.putRight.addClass r = (p.addClass r).map putRight id := by
  have linked : p.putRight.linkClass r = p.linkClass r := by
    simp only [linkClass, linkFields_putRight, checkMethods_putRight]
    rfl
  cases plain : p.linkClass r with
  | error fault =>
      rw [plain] at linked
      rw [addClass_of_refused linked, addClass_of_refused plain]
      rfl
  | ok c =>
      rw [plain] at linked
      rw [addClass_of_linked linked, addClass_of_linked plain]
      rfl

/-- Records are added alike to a program put right, if what adds them does so with each. -/
theorem addEach_putRight {α : Type} {add : Program → α → Program × Except Fault Nat}
    {right : α → α} (alike : ∀ p a, add p.putRight (right a) = (add p a).map putRight id)
    (p : Program) (records : List α) :
    addEach add p.putRight (records.map right) = (addEach add p records).map putRight id := by
  induction records generalizing p with
  | nil => rfl
  | cons r rest ih =>
      simp only [List.map_cons, addEach, alike]
      rcases add p r with ⟨q, fault | index⟩
      · rfl
      · exact ih q

theorem addEach_putRight_eq_ok {α : Type} {add : Program → α → Program × Except Fault Nat}
    {right : α → α} (alike : ∀ p a, add p.putRight (right a) = (add p a).map putRight id)
    {records : List α} {q : Program} :
    addEach add p.putRight (records.map right) = (q, .ok ())
      ↔ ∃ q', addEach add p records = (q', .ok ()) ∧ q'.putRight = q := by
  rw [addEach_putRight alike]
  rcases addEach add p records with ⟨added, result⟩
  simp [and_comm]

theorem restore_putRight {image : Image} {q : Program} :
    restore image.putRight = (q, .ok ()) ↔ ∃ p, restore image = (p, .ok ()) ∧ p.putRight = q := by
  have start : empty.addConstants image.constants
      = (empty.addConstants image.constants).putRight := by
    simp [addConstants_eq, empty, putRight]
  have functions (q : Program) :
      addEach addFunction (empty.addConstants image.constants)
          (image.functions.map FunctionRecord.putRight) = (q, .ok ())
        ↔ ∃ q', addEach addFunction (empty.addConstants image.constants) image.functions
            = (q', .ok ()) ∧ q'.putRight = q := by
    rw [start, addEach_putRight_eq_ok addFunction_putRight, ← start]
  have classes (p q : Program) :
      addEach addClass p.putRight image.classes = (q, .ok ())
        ↔ ∃ q', addEach addClass p image.classes = (q', .ok ()) ∧ q'.putRight = q := by
    rw [← addEach_putRight_eq_ok addClass_putRight, List.map_id']
  simp only [restore_eq_ok_iff]
  constructor
  · rintro ⟨_, added, linked, verified⟩
    obtain ⟨withFunctions, added', rfl⟩ := (functions _).mp added
    obtain ⟨p, linked', rfl⟩ := (classes _ _).mp linked
    exact ⟨p, ⟨withFunctions, added', linked', verifyFrom_putRight.mp verified⟩, rfl⟩
  · rintro ⟨p, ⟨withFunctions, added, linked, verified⟩, rfl⟩
    exact ⟨withFunctions.putRight, (functions _).mpr ⟨_, added, rfl⟩,
      (classes _ _).mpr ⟨_, linked, rfl⟩, verifyFrom_putRight.mpr verified⟩

theorem records_of_addEach {records : List FunctionRecord} {q : Program}
    (added : addEach addFunction p records = (q, .ok ())) :
    q.functions.toList.map (·.record) = p.functions.toList.map (·.record) ++ records := by
  induction records generalizing p with
  | nil =>
      cases added
      simp
  | cons r rest ih =>
      unfold addEach at added
      rcases first : p.addFunction r with ⟨p', fault | index⟩
      · rw [first] at added
        cases added
      · rw [first] at added
        obtain ⟨f, rfl, _, _, rfl, _⟩ := addFunction_eq_ok.mp first
        simp [ih added, withFunction]

theorem functions_of_addEach {records : List ClassRecord} {q : Program}
    (added : addEach addClass p records = (q, .ok ())) : q.functions = p.functions := by
  induction records generalizing p with
  | nil =>
      cases added
      rfl
  | cons r rest ih =>
      unfold addEach at added
      rcases first : p.addClass r with ⟨p', fault | index⟩
      · rw [first] at added
        cases added
      · rw [first] at added
        obtain ⟨c, _, _, _, rfl, _⟩ := addClass_eq_ok.mp first
        exact (ih added).trans rfl

/-- The functions of an image that is restored are those that it lists. -/
theorem records_of_restore {image : Image} (restored : restore image = (p, .ok ())) :
    p.functions.toList.map (·.record) = image.functions := by
  obtain ⟨withFunctions, functions, classes, _⟩ := restore_eq_ok_iff.mp restored
  rw [functions_of_addEach classes, records_of_addEach functions, addConstants_eq]
  rfl

end Program

/-! ## Images -/

theorem FunctionRecord.putRight_eq_self_iff {r : FunctionRecord} :
    r.putRight = r ↔ r.InPlace := by
  have code : r.putRight = r ↔ r.code.map Instruction.putRight = r.code.map id := by
    rw [Array.map_id]
    exact ⟨congrArg FunctionRecord.code, fun same => by rw [putRight, same]⟩
  rw [code, Array.map_inj_left]
  exact forall₂_congr fun i _ => Instruction.putRight_eq_self_iff

theorem Image.putRight_eq_self_iff {image : Image} :
    image.putRight = image ↔ ∀ r ∈ image.functions, r.InPlace := by
  have functions : image.putRight = image
      ↔ image.functions.map FunctionRecord.putRight = image.functions.map id := by
    rw [List.map_id]
    exact ⟨congrArg Image.functions, fun same => by rw [putRight, same]⟩
  rw [functions, List.map_inj_left]
  exact forall₂_congr fun r _ => FunctionRecord.putRight_eq_self_iff

/-- What a load of a file adds has its operands in place, whether the file is accepted or not. What
a load of an image adds has them as the image has them, in place or not; and any other image that is
the same once the operands of both are put right is accepted too, and gives the same program up to
that. -/
theorem only_images_misplace_operands (input : List UInt8) :
    (∀ (p : Program) (origin : String), p.GrowsInPlace (p.load input origin).program) ∧
    ∀ p log, Program.loadImage input = (.ok p, log) →
      ∃ image rest, Image.decode input = .ok (image, rest)
        ∧ p.functions.toList.map (·.record) = image.functions
        ∧ ((∀ f ∈ p.functions, f.record.InPlace) ↔ image.putRight = image)
        ∧ ∀ input' image' rest', Image.decode input' = .ok (image', rest') →
            image'.putRight = image.putRight →
            ∃ p' log', Program.loadImage input' = (.ok p', log') ∧ p'.putRight = p.putRight := by
  refine ⟨fun p origin => .load p input origin, ?_⟩
  intro p log loaded
  obtain ⟨image, rest, decoded, magic, restored⟩ := Program.loadImage_eq_ok_iff.mp ⟨log, loaded⟩
  have records := Program.records_of_restore restored
  refine ⟨image, rest, decoded, records, ?_, ?_⟩
  · rw [Image.putRight_eq_self_iff, ← records]
    simp
  · intro input' image' rest' decoded' same
    have accepted : Program.restore image'.putRight = (p.putRight, .ok ()) := by
      rw [same]
      exact Program.restore_putRight.mpr ⟨p, restored, rfl⟩
    obtain ⟨p', restored', right⟩ := Program.restore_putRight.mp accepted
    have magic' : image'.magic = Image.expectedMagic := (congrArg Image.magic same).trans magic
    obtain ⟨log', loaded'⟩ :=
      Program.loadImage_eq_ok_iff.mpr ⟨image', rest', decoded', magic', restored'⟩
    exact ⟨p', log', loaded', right⟩

namespace BareLoad

def printing (load print : Option UInt32) : FunctionRecord :=
  ⟨1, 2, 3, 1, 0, #[⟨.ldc, load⟩, ⟨.print, print⟩, ⟨.ret, none⟩]⟩

def program (load print : Option UInt32) : Program :=
  ⟨#[⟨.int .i32, [0, 0, 0, 7]⟩, .ofString "Main", .ofString "", .ofString "void;"],
    #[⟨"Main", printing load print, [], .void⟩], #[], ⟨[("Main", 0)]⟩, .empty⟩

def image : List UInt8 := (program none (some 9)).saveImage

theorem is_accepted_either_way :
    (Program.loadImage image).1 = .ok (program none (some 9))
      ∧ (¬ ∀ f ∈ (program none (some 9)).functions, f.record.InPlace)
      ∧ ∃ p log, Program.loadImage (program (some 0) none).saveImage = (.ok p, log)
        ∧ p.putRight = (program none (some 9)).putRight := by
  have loaded : (Program.loadImage image).1 = .ok (program none (some 9)) := by cbv
  have decoded : Image.decode (program (some 0) none).saveImage
      = .ok (Image.ofProgram (program (some 0) none), []) := by cbv
  have decoded' : Image.decode image = .ok (Image.ofProgram (program none (some 9)), []) := by cbv
  obtain ⟨spelled, rest, same, _, placed, alike⟩ :=
    (only_images_misplace_operands image).2 _ _ (Prod.ext loaded rfl)
  rw [decoded'] at same
  cases same
  refine ⟨loaded, ?_, alike _ _ _ decoded (by cbv)⟩
  rw [placed, Image.putRight_eq_self_iff]
  intro allPlaced
  have absurd := allPlaced (printing none (some 9)) (.head []) ⟨.ldc, none⟩ (by simp [printing])
  cases absurd

theorem accepted_image_misplaces_operands :
    ∃ m, (Machine.new {} .working (.empty none)).loadImage image "bare.bimg" = (m, .ok ())
      ∧ (m.program.functions.map fun f => f.code.map fun i =>
          (i.opcode.hasOperand, i.operand.isSome))
        = #[#[(true, false), (false, true), (false, false)]] := by
  have all : (((Machine.new {} .working (.empty none)).loadImage image "bare.bimg").2,
      ((Machine.new {} .working (.empty none)).loadImage image "bare.bimg").1.program)
        = (.ok (), program none (some 9)) := by cbv
  obtain ⟨accepted, loaded⟩ := Prod.mk.inj all
  refine ⟨_, Prod.ext rfl accepted, ?_⟩
  rw [loaded]
  cbv

end BareLoad

end StackMachine
