import Mathlib
import StackMachine.Proofs.FileFormat
import StackMachine.Proofs.Registration

/-! # Where a file is placed

A file that is linked onto a program gets there what it gets when it is linked alone: the same
constants, and the same functions with their indices shifted, each as far as the program was long.
-/

namespace StackMachine

/-! ## Shifted indices -/

namespace Relocation

variable {r : Relocation} {i : Instruction}

def linked (r : Relocation) (f : LinkedFunction) : LinkedFunction :=
  { f with record := r.function f.record }

structure Small (r : Relocation) : Prop where
  constants : r.constants.toNat < ProgramFile.limit
  functions : r.functions.toNat < ProgramFile.limit

theorem toNat_add {index shift : UInt32} (fits : index.toNat < ProgramFile.limit)
    (small : shift.toNat < ProgramFile.limit) :
    (index + shift).toNat = shift.toNat + index.toNat := by
  unfold ProgramFile.limit at fits small
  rw [UInt32.toNat_add]
  omega

@[simp] theorem opcode_instruction (r : Relocation) (i : Instruction) :
    (r.instruction i).opcode = i.opcode := by
  unfold instruction
  by_cases constant : i.opcode.refersToConstant = true
  · rw [if_pos constant]
  · rw [if_neg constant]
    by_cases call : i.opcode = .call
    · rw [if_pos call]
    · rw [if_neg call]

theorem instruction_of_other (constant : i.opcode.refersToConstant = false)
    (call : i.opcode ≠ .call) : r.instruction i = i := by
  rw [instruction, if_neg (by simp [constant]), if_neg call]

theorem hasOperand_of_refersToConstant {o : Opcode} (refers : o.refersToConstant = true) :
    o.hasOperand = true := by
  unfold Opcode.refersToConstant at refers
  split at refers
  · rfl
  · rfl
  · rfl
  · cases refers

/-- An operand that is there is shifted. -/
theorem arg_map_add {shift : UInt32} (small : shift.toNat < ProgramFile.limit)
    (fits : i.Encodable) (operand : i.opcode.hasOperand = true) :
    Instruction.arg { i with operand := i.operand.map (· + shift) } = shift.toNat + i.arg := by
  obtain ⟨there, bound⟩ := fits
  rw [operand] at there
  obtain ⟨index, present⟩ := Option.isSome_iff_exists.mp there
  simp only [Instruction.arg, present, Option.map_some, Option.getD_some] at bound ⊢
  exact toNat_add bound small

theorem arg_of_constant (small : r.Small) (fits : i.Encodable)
    (refers : i.opcode.refersToConstant = true) :
    (r.instruction i).arg = r.constants.toNat + i.arg := by
  rw [instruction, if_pos refers]
  exact arg_map_add small.constants fits (hasOperand_of_refersToConstant refers)

theorem arg_of_call (small : r.Small) (fits : i.Encodable) (call : i.opcode = .call) :
    (r.instruction i).arg = r.functions.toNat + i.arg := by
  rw [instruction, if_neg (by simp [call, Opcode.refersToConstant]), if_pos call]
  exact arg_map_add small.functions fits (by rw [call]; rfl)

/-! ## Files that are linked alone -/

theorem instruction_zero (i : Instruction) : (Relocation.mk 0 0).instruction i = i := by
  have same : i.operand.map (· + (0 : UInt32)) = i.operand := by
    simp
  unfold instruction
  dsimp only
  split
  · rw [same]
  · split
    · rw [same]
    · rfl

theorem function_zero (f : FunctionRecord) : (Relocation.mk 0 0).function f = f := by
  have code : f.code.map (Relocation.mk 0 0).instruction = f.code := by
    rw [funext instruction_zero, Array.map_id']
  simp only [function, UInt32.add_zero, code]

end Relocation

/-! ## Programs within programs -/

/-- The constants of the first program stand in the second as much further on as the relocation
says. -/
def Relocation.PlacesConstants (r : Relocation) (p q : Program) : Prop :=
  ∀ (i : Nat) (c : Constant), p.constants[i]? = some c →
    q.constants[r.constants.toNat + i]? = some c

/-- So do the functions, with their indices shifted. -/
structure Relocation.Places (r : Relocation) (p q : Program) : Prop where
  constants : r.PlacesConstants p q
  functions : ∀ (i : Nat) (f : LinkedFunction), p.functions[i]? = some f →
    q.functions[r.functions.toNat + i]? = some (r.linked f)

/-- A constant gives its value in every place. -/
theorem Constant.value_congr {c : Constant} {v : Value} {index : Nat} (index' : Nat)
    (found : c.value index = .ok v) : c.value index' = .ok v := by
  unfold Constant.value at found ⊢
  cases wrong : c.widthError? with
  | some reason =>
      rw [wrong] at found
      cases found
  | none =>
      rw [wrong] at found
      dsimp only at found ⊢
      cases tag : c.tag with
      | int kind =>
          rw [tag] at found
          exact found
      | bool =>
          rw [tag] at found
          exact found
      | className =>
          rw [tag] at found
          cases found
      | string =>
          rw [tag] at found
          dsimp only at found ⊢
          cases text : c.text? with
          | none =>
              rw [text] at found
              cases found
          | some s =>
              rw [text] at found
              exact found

namespace Relocation

variable {r : Relocation} {p q : Program} {index : Nat}

namespace PlacesConstants

theorem constant (places : r.PlacesConstants p q) {c : Constant}
    (found : p.constant index = .ok c) : q.constant (r.constants.toNat + index) = .ok c := by
  unfold Program.constant at found ⊢
  cases at_index : p.constants[index]? with
  | none =>
      rw [at_index] at found
      cases found
  | some c' =>
      rw [at_index] at found
      cases found
      rw [places index c at_index]

theorem constantValue (places : r.PlacesConstants p q) {v : Value}
    (found : p.constantValue index = .ok v) :
    q.constantValue (r.constants.toNat + index) = .ok v := by
  obtain ⟨c, there, valued⟩ := bind_eq_ok.mp found
  exact bind_eq_ok.mpr ⟨c, places.constant there, c.value_congr _ valued⟩

theorem name (places : r.PlacesConstants p q) {text : String}
    (found : p.name index = .ok text) : q.name (r.constants.toNat + index) = .ok text := by
  obtain ⟨c, there, named⟩ := bind_eq_ok.mp found
  refine bind_eq_ok.mpr ⟨c, places.constant there, ?_⟩
  cases known : c.text? with
  | none =>
      rw [known] at named
      cases named
  | some s =>
      rw [known] at named
      exact named

theorem descriptor (places : r.PlacesConstants p q) {d : Descriptor}
    (found : p.descriptor index = .ok d) :
    q.descriptor (r.constants.toNat + index) = .ok d := by
  obtain ⟨text, named, parsed⟩ := bind_eq_ok.mp found
  exact bind_eq_ok.mpr ⟨text, places.name named, parsed⟩

/-- A function of a file resolves alike where it is placed. -/
theorem resolves (places : r.PlacesConstants p q) (small : r.Small) {f : LinkedFunction}
    (fits : f.record.Encodable) (resolved : p.Resolves f) : q.Resolves (r.linked f) := by
  obtain ⟨text, written, parsed⟩ := bind_eq_ok.mp resolved.params
  constructor
  · show q.name (f.record.name + r.constants).toNat = _
    rw [toNat_add fits.name small.constants]
    exact places.name resolved.name
  · show q.name (f.record.params + r.constants).toNat >>= _ = _
    rw [toNat_add fits.params small.constants]
    exact bind_eq_ok.mpr ⟨text, places.name written, parsed⟩
  · show q.descriptor (f.record.result + r.constants).toNat = _
    rw [toNat_add fits.result small.constants]
    exact places.descriptor resolved.result

end PlacesConstants

theorem Places.function (places : r.Places p q) {f : LinkedFunction}
    (found : p.function index = .ok f) :
    q.function (r.functions.toNat + index) = .ok (r.linked f) := by
  unfold Program.function at found ⊢
  cases at_index : p.functions[index]? with
  | none =>
      rw [at_index] at found
      cases found
  | some f' =>
      rw [at_index] at found
      cases found
      rw [places.functions index f at_index]

end Relocation

/-! ## Linking -/

namespace Program

variable {p q : Program} {origin : String}

/-- A record that resolves does so in one way. -/
theorem Resolves.unique {f g : LinkedFunction} (first : p.Resolves f) (second : p.Resolves g)
    (same : f.record = g.record) : f = g := by
  obtain ⟨name, record, params, result⟩ := f
  obtain ⟨name', record', params', result'⟩ := g
  cases same
  have names := first.name.symm.trans second.name
  have lists := first.params.symm.trans second.params
  have results := first.result.symm.trans second.result
  cases names
  cases lists
  cases results
  rfl

theorem Resolves.unique_list {functions functions' : List LinkedFunction}
    (first : ∀ f ∈ functions, p.Resolves f) (second : ∀ f ∈ functions', p.Resolves f)
    (same : functions.map (·.record) = functions'.map (·.record)) : functions = functions' := by
  induction functions generalizing functions' with
  | nil =>
      rw [List.map_nil] at same
      exact (List.map_eq_nil_iff.mp same.symm).symm
  | cons f rest ih =>
      cases functions' with
      | nil => cases same
      | cons g rest' =>
          rw [List.map_cons, List.map_cons, List.cons_eq_cons] at same
          have head := (first f (List.mem_cons_self ..)).unique (second g (List.mem_cons_self ..))
            same.1
          have tail := ih (fun f member => first f (List.mem_cons_of_mem _ member))
            (fun f member => second f (List.mem_cons_of_mem _ member)) same.2
          rw [head, tail]

theorem addFunctions_eq_ok {number : Nat} {records : List FunctionRecord}
    (added : addFunctions origin p number records = (q, .ok ())) :
    ∃ functions : List LinkedFunction, functions.map (·.record) = records
      ∧ (∀ f ∈ functions, p.Resolves f) ∧ q.constants = p.constants
      ∧ q.functions = p.functions ++ functions.toArray ∧ q.classes = p.classes := by
  induction records generalizing p number with
  | nil =>
      cases added
      exact ⟨[], rfl, by simp, rfl, by simp, rfl⟩
  | cons r rest ih =>
      unfold addFunctions at added
      rcases first : p.addFunction r with ⟨p', fault | index⟩
      · rw [first] at added
        cases added
      · rw [first] at added
        obtain ⟨functions, records, resolved, constants, pool, classes⟩ := ih added
        obtain ⟨f, rfl, here, _, rfl, _⟩ := addFunction_eq_ok.mp first
        refine ⟨f :: functions, by rw [List.map_cons, records], ?_, constants, ?_, classes⟩
        · intro g member
          rcases List.mem_cons.mp member with rfl | later
          · exact here
          · exact (resolved g later).congr rfl
        · rw [pool]
          simp [withFunction]

theorem addClasses_eq_ok {number : Nat} {records : List ClassRecord}
    (added : addClasses origin p number records = (q, .ok ())) :
    ∃ classes : List LinkedClass, classes.map (·.record) = records
      ∧ (∀ c ∈ classes, q.ResolvesClass c) ∧ q.constants = p.constants
      ∧ q.functions = p.functions ∧ q.classes = p.classes ++ classes.toArray := by
  induction records generalizing p number with
  | nil =>
      cases added
      exact ⟨[], rfl, by simp, rfl, rfl, by simp⟩
  | cons r rest ih =>
      have grown := GrowsTo.addClasses origin p number (r :: rest)
      rw [added] at grown
      unfold addClasses at added
      rcases first : p.addClass r with ⟨p', fault | index⟩
      · rw [first] at added
        cases added
      · rw [first] at added
        obtain ⟨classes, records, resolved, constants, functions, pool⟩ := ih added
        obtain ⟨c, rfl, here, _, rfl, _⟩ := addClass_eq_ok.mp first
        refine ⟨c :: classes, by rw [List.map_cons, records], ?_, constants, functions, ?_⟩
        · intro k member
          rcases List.mem_cons.mp member with rfl | later
          · exact here.mono grown.toExtends
          · exact resolved k later
        · rw [pool]
          simp [withClass]

structure Links (p : Program) (file : ProgramFile) (functions : List LinkedFunction)
    (q : Program) : Prop where
  records : functions.map (·.record) = file.functions.map (Relocation.ofProgram p).function
  resolved : ∀ f ∈ functions, q.Resolves f
  constants : q.constants = p.constants ++ file.constants.toArray
  functions : q.functions = p.functions ++ functions.toArray
  verified : q.verifyFrom p.functions.size = .ok ()

structure LinksClasses (p : Program) (file : ProgramFile) (classes : List LinkedClass)
    (q : Program) : Prop where
  records : classes.map (·.record) = file.classes.map (Relocation.ofProgram p).classRecord
  resolved : ∀ c ∈ classes, q.ResolvesClass c
  classes : q.classes = p.classes ++ classes.toArray

/-- Linking that succeeds has added the functions, and the classes after them. -/
theorem link_eq_ok {file : ProgramFile} (linked : p.link origin file = (q, .ok ())) :
    ∃ withFunctions : Program,
      addFunctions origin (p.addConstants file.constants) 0
          (file.functions.map (Relocation.ofProgram p).function) = (withFunctions, .ok ())
        ∧ addClasses origin withFunctions 0
            (file.classes.map (Relocation.ofProgram p).classRecord) = (q, .ok ()) := by
  unfold link at linked
  dsimp only at linked
  split at linked
  · cases linked
  · rename_i withFunctions added
    split at linked
    · cases linked
    · rename_i withClasses classes
      have same : withClasses = q := by
        split at linked <;> cases linked
        rfl
      exact ⟨withFunctions, added, same ▸ classes⟩

theorem links_of_link {file : ProgramFile} (linked : p.link origin file = (q, .ok ())) :
    ∃ functions, p.Links file functions q := by
  have verified := (p.link_spec origin file).2
  rw [linked] at verified
  obtain ⟨withFunctions, added, classes⟩ := link_eq_ok linked
  obtain ⟨functions, records, resolved, constants, pool, _⟩ := addFunctions_eq_ok added
  obtain ⟨_, _, _, constants', functions', _⟩ := addClasses_eq_ok classes
  refine ⟨functions, records, ?_, ?_, ?_, verified rfl⟩
  · intro f member
    exact (resolved f member).congr (constants'.trans constants).symm
  · rw [constants', constants, addConstants_eq]
  · rw [functions', pool, addConstants_eq]

theorem linksClasses_of_link {file : ProgramFile} (linked : p.link origin file = (q, .ok ())) :
    ∃ classes, p.LinksClasses file classes q := by
  obtain ⟨withFunctions, added, placed⟩ := link_eq_ok linked
  obtain ⟨_, _, _, _, _, before⟩ := addFunctions_eq_ok added
  obtain ⟨classes, records, resolved, _, _, pool⟩ := addClasses_eq_ok placed
  exact ⟨classes, records, resolved, by rw [pool, before, addConstants_eq]⟩

theorem link_of_load {input : List UInt8} {counts : Counts}
    (loaded : (p.load input origin).result = .ok counts) :
    ∃ file rest, ProgramFile.parse origin input = .ok (file, rest)
      ∧ p.link origin file = ((p.load input origin).program, .ok ()) := by
  unfold load at loaded ⊢
  cases parsed : ProgramFile.parse origin input with
  | error e =>
      rw [parsed] at loaded
      cases loaded
  | ok read =>
      obtain ⟨file, rest⟩ := read
      rw [parsed] at loaded
      refine ⟨file, rest, rfl, ?_⟩
      dsimp only at loaded ⊢
      cases linked : p.link origin file with
      | mk q result =>
          rw [linked] at loaded
          cases result with
          | error e => cases loaded
          | ok done => rfl

/-! ## A file linked alone -/

/-- A program that can be placed elsewhere: it is verified, its constants are as wide as their
tags say, and its operands are there where they have to be. -/
structure Portable (p : Program) : Prop where
  verified : p.verifyFrom 0 = .ok ()
  widths : ∀ c ∈ p.constants, c.widthError? = none
  code : ∀ f ∈ p.functions, ∀ i ∈ f.code.toList, i.Encodable

section Alone

variable {file : ProgramFile} {functions : List LinkedFunction}

theorem records_of_alone (links : Program.empty.Links file functions p) :
    functions.map (·.record) = file.functions := by
  have none : Relocation.ofProgram Program.empty = ⟨0, 0⟩ := rfl
  rw [links.records, none, funext Relocation.function_zero, List.map_id']

theorem encodable_of_alone (links : Program.empty.Links file functions p) (fits : file.Encodable)
    {f : LinkedFunction} (member : f ∈ functions) : f.record.Encodable := by
  refine fits.functions _ ?_
  rw [← records_of_alone links]
  exact List.mem_map_of_mem member

theorem constants_of_alone (links : Program.empty.Links file functions p) :
    p.constants = file.constants.toArray := by
  rw [links.constants]
  simp [Program.empty]

theorem functions_of_alone (links : Program.empty.Links file functions p) :
    p.functions = functions.toArray := by
  rw [links.functions]
  simp [Program.empty]

theorem portable_of_alone (links : Program.empty.Links file functions p)
    (fits : file.Encodable) : p.Portable where
  verified := links.verified
  widths := by
    intro c member
    rw [constants_of_alone links] at member
    have wide := fits.constants c (by simpa using member)
    unfold Constant.Encodable at wide
    unfold Constant.widthError?
    cases width : c.tag.width? with
    | none => rfl
    | some n =>
        rw [width] at wide
        exact if_pos wide
  code := by
    intro f member
    rw [functions_of_alone links] at member
    exact (encodable_of_alone links fits (by simpa using member)).code

theorem size_of_alone (links : Program.empty.Links file functions p) (fits : file.Encodable) :
    p.constants.size < ProgramFile.limit ∧ p.functions.size < ProgramFile.limit := by
  have count : functions.length = file.functions.length := by
    rw [← records_of_alone links, List.length_map]
  constructor
  · rw [constants_of_alone links]
    exact fits.constantCount
  · rw [functions_of_alone links, List.size_toArray, count]
    exact fits.functionCount

end Alone

/-! ## A file linked onto a program -/

theorem toNat_ofProgram (size : p.constants.size < ProgramFile.limit
      ∧ p.functions.size < ProgramFile.limit) :
    (Relocation.ofProgram p).constants.toNat = p.constants.size
      ∧ (Relocation.ofProgram p).functions.toNat = p.functions.size := by
  unfold ProgramFile.limit at size
  simp only [Relocation.ofProgram, UInt32.toNat_ofNat']
  omega

theorem small_ofProgram (size : p.constants.size < ProgramFile.limit
      ∧ p.functions.size < ProgramFile.limit) : (Relocation.ofProgram p).Small := by
  obtain ⟨constantShift, functionShift⟩ := toNat_ofProgram size
  exact ⟨constantShift ▸ size.1, functionShift ▸ size.2⟩

/-- The file gets what it gets alone, after what was there. -/
theorem places_of_links {file : ProgramFile} {base : Program}
    {functions functions' : List LinkedFunction} (fits : file.Encodable)
    (alone : Program.empty.Links file functions p) (after : base.Links file functions' q)
    (size : base.constants.size < ProgramFile.limit ∧ base.functions.size < ProgramFile.limit) :
    (Relocation.ofProgram base).Places p q := by
  obtain ⟨constantShift, functionShift⟩ := toNat_ofProgram size
  have small := small_ofProgram size
  have constants : (Relocation.ofProgram base).PlacesConstants p q := by
    intro i c found
    rw [constants_of_alone alone] at found
    rw [after.constants, constantShift, Array.getElem?_append_right (Nat.le_add_right ..),
      Nat.add_sub_cancel_left]
    exact found
  have same : functions' = functions.map (Relocation.ofProgram base).linked := by
    refine Resolves.unique_list after.resolved ?_ ?_
    · intro f member
      obtain ⟨g, inside, rfl⟩ := List.mem_map.mp member
      exact constants.resolves small (encodable_of_alone alone fits inside)
        (alone.resolved g inside)
    · rw [after.records, ← records_of_alone alone, List.map_map, List.map_map]
      rfl
  refine ⟨constants, ?_⟩
  intro i f found
  rw [functions_of_alone alone, List.getElem?_toArray] at found
  rw [after.functions, functionShift, Array.getElem?_append_right (Nat.le_add_right ..),
    Nat.add_sub_cancel_left, same, List.getElem?_toArray, List.getElem?_map, found]
  rfl

end Program

end StackMachine
