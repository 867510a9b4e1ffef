import Mathlib
import StackMachine.Proofs.LoadHistories
import StackMachine.Proofs.Registry
import StackMachine.Proofs.Relocation
import StackMachine.Proofs.Verdicts

/-! # What a file refers to

The records of a file refer to constants and functions by their places in the file. When the file
is loaded, the places are shifted so that each finds what it found in the file, behind all that the
program held before. A file that refers to what it does not hold is refused.
-/

namespace StackMachine

/-! ## References -/

def Instruction.constant? (i : Instruction) : Option UInt32 :=
  if i.opcode.refersToConstant then i.operand else none

def Instruction.callee? (i : Instruction) : Option UInt32 :=
  if i.opcode = .call then i.operand else none

def FunctionRecord.constants (f : FunctionRecord) : List UInt32 :=
  f.name :: f.params :: f.result :: f.code.toList.filterMap (·.constant?)

def FunctionRecord.callees (f : FunctionRecord) : List UInt32 :=
  f.code.toList.filterMap (·.callee?)

def ClassRecord.constants (c : ClassRecord) : List UInt32 :=
  c.name :: c.fields.flatMap fun f => [f.name, f.descriptor]

namespace ProgramFile

def constantReferences (file : ProgramFile) : List UInt32 :=
  file.functions.flatMap (·.constants) ++ file.classes.flatMap (·.constants)

def functionReferences (file : ProgramFile) : List UInt32 :=
  file.functions.flatMap (·.callees) ++ file.classes.flatMap (·.methods)

/-- What the file refers to is in the file. -/
structure SelfContained (file : ProgramFile) : Prop where
  constants : ∀ k ∈ file.constantReferences, k.toNat < file.constants.length
  functions : ∀ k ∈ file.functionReferences, k.toNat < file.functions.length

end ProgramFile

section Limits

variable {i : Instruction} {k : UInt32}

theorem Instruction.arg_of_constant? (used : i.constant? = some k) :
    i.opcode.refersToConstant = true ∧ i.arg = k.toNat := by
  unfold constant? at used
  split at used
  · rename_i refers
    exact ⟨refers, by rw [arg, used, Option.getD_some]⟩
  · cases used

theorem Instruction.arg_of_callee? (called : i.callee? = some k) :
    i.opcode = .call ∧ i.arg = k.toNat := by
  unfold callee? at called
  split at called
  · rename_i call
    exact ⟨call, by rw [arg, called, Option.getD_some]⟩
  · cases called

theorem FunctionRecord.mem_constants {f : FunctionRecord} :
    k ∈ f.constants ↔ k = f.name ∨ k = f.params ∨ k = f.result
      ∨ ∃ i ∈ f.code.toList, i.constant? = some k := by
  simp only [constants, List.mem_cons, List.mem_filterMap]

theorem ClassRecord.mem_constants {c : ClassRecord} :
    k ∈ c.constants ↔ k = c.name ∨ ∃ field ∈ c.fields, k = field.name ∨ k = field.descriptor := by
  simp only [constants, List.mem_cons, List.mem_flatMap, List.not_mem_nil, or_false]

theorem FunctionRecord.Encodable.constants_lt {f : FunctionRecord} (fits : f.Encodable)
    (used : k ∈ f.constants) : k.toNat < ProgramFile.limit := by
  rcases FunctionRecord.mem_constants.mp used with rfl | rfl | rfl | ⟨i, member, used⟩
  · exact fits.name
  · exact fits.params
  · exact fits.result
  · exact (Instruction.arg_of_constant? used).2 ▸ (fits.code i member).2

theorem FunctionRecord.Encodable.callees_lt {f : FunctionRecord} (fits : f.Encodable)
    (called : k ∈ f.callees) : k.toNat < ProgramFile.limit := by
  obtain ⟨i, member, called⟩ := List.mem_filterMap.mp called
  exact (Instruction.arg_of_callee? called).2 ▸ (fits.code i member).2

theorem ClassRecord.Encodable.constants_lt {c : ClassRecord} (fits : c.Encodable)
    (used : k ∈ c.constants) : k.toNat < ProgramFile.limit := by
  rcases ClassRecord.mem_constants.mp used with rfl | ⟨field, member, rfl | rfl⟩
  · exact fits.name
  · exact (fits.fields field member).name
  · exact (fits.fields field member).descriptor

theorem ProgramFile.Encodable.constantReferences_lt {file : ProgramFile} (fits : file.Encodable)
    (used : k ∈ file.constantReferences) : k.toNat < limit := by
  rcases List.mem_append.mp used with used | used
  · obtain ⟨f, member, used⟩ := List.mem_flatMap.mp used
    exact (fits.functions f member).constants_lt used
  · obtain ⟨c, member, used⟩ := List.mem_flatMap.mp used
    exact (fits.classes c member).constants_lt used

theorem ProgramFile.Encodable.functionReferences_lt {file : ProgramFile} (fits : file.Encodable)
    (called : k ∈ file.functionReferences) : k.toNat < limit := by
  rcases List.mem_append.mp called with called | called
  · obtain ⟨f, member, called⟩ := List.mem_flatMap.mp called
    exact (fits.functions f member).callees_lt called
  · obtain ⟨c, member, called⟩ := List.mem_flatMap.mp called
    exact (fits.classes c member).methods k called

end Limits

/-! ## Shifted references -/

namespace Relocation

variable {r : Relocation}

theorem constant?_instruction (i : Instruction) :
    (r.instruction i).constant? = i.constant?.map (· + r.constants) := by
  unfold Instruction.constant?
  rw [opcode_instruction]
  split
  · rename_i refers
    rw [instruction, if_pos refers]
  · rfl

theorem callee?_instruction (i : Instruction) :
    (r.instruction i).callee? = i.callee?.map (· + r.functions) := by
  unfold Instruction.callee?
  rw [opcode_instruction]
  split
  · rename_i call
    rw [instruction, if_neg (by simp [call, Opcode.refersToConstant]), if_pos call]
  · rfl

theorem constants_function (f : FunctionRecord) :
    (r.function f).constants = f.constants.map (· + r.constants) := by
  simp [FunctionRecord.constants, function, List.filterMap_map, List.map_filterMap,
    constant?_instruction]

theorem callees_function (f : FunctionRecord) :
    (r.function f).callees = f.callees.map (· + r.functions) := by
  simp [FunctionRecord.callees, function, List.filterMap_map, List.map_filterMap,
    callee?_instruction]

theorem constants_classRecord (c : ClassRecord) :
    (r.classRecord c).constants = c.constants.map (· + r.constants) := by
  simp [ClassRecord.constants, classRecord, field, List.flatMap_map, List.map_flatMap]

end Relocation

/-! ## References that resolve -/

namespace Program

variable {p q : Program} {k : UInt32}

theorem lt_size_of_constant {index : Nat} {c : Constant} (found : p.constant index = .ok c) :
    index < p.constants.size := by
  unfold constant at found
  cases there : p.constants[index]? with
  | none =>
      rw [there] at found
      cases found
  | some c => exact (Array.getElem?_eq_some_iff.mp there).1

theorem lt_size_of_name {index : Nat} {text : String} (found : p.name index = .ok text) :
    index < p.constants.size := by
  obtain ⟨c, there, _⟩ := bind_eq_ok.mp found
  exact lt_size_of_constant there

theorem lt_size_of_descriptor {index : Nat} {d : Descriptor} (found : p.descriptor index = .ok d) :
    index < p.constants.size := by
  obtain ⟨text, there, _⟩ := bind_eq_ok.mp found
  exact lt_size_of_name there

section Operands

variable {f : LinkedFunction} {i : Instruction}

theorem OperandFits.constant_lt (fits : p.OperandFits f i) (used : i.constant? = some k) :
    k.toNat < p.constants.size := by
  obtain ⟨refers, arg⟩ := Instruction.arg_of_constant? used
  rw [← arg]
  unfold OperandFits at fits
  cases opcode : i.opcode with
  | ldc =>
      rw [opcode] at fits
      obtain ⟨v, valued⟩ := fits
      obtain ⟨c, found, _⟩ := bind_eq_ok.mp valued
      exact lt_size_of_constant found
  | newarr =>
      rw [opcode] at fits
      obtain ⟨element, described, _⟩ := fits
      exact lt_size_of_descriptor described
  | halt =>
      rw [opcode] at fits
      obtain ⟨c, found, _⟩ := fits
      exact lt_size_of_constant found
  | _ =>
      rw [opcode] at refers
      cases refers

theorem OperandFits.callee_lt (fits : p.OperandFits f i) (called : i.callee? = some k) :
    k.toNat < p.functions.size := by
  obtain ⟨call, arg⟩ := Instruction.arg_of_callee? called
  unfold OperandFits at fits
  rw [call] at fits
  obtain ⟨callee, found⟩ := fits
  exact arg ▸ lt_size_of_function found

/-- A function that is accepted uses constants that there are. -/
theorem Resolves.constants_lt (resolved : p.Resolves f) (accepted : p.verifyFunction f = .ok ())
    (used : k ∈ f.record.constants) : k.toNat < p.constants.size := by
  rcases FunctionRecord.mem_constants.mp used with rfl | rfl | rfl | ⟨i, member, used⟩
  · exact lt_size_of_name resolved.name
  · obtain ⟨text, written, _⟩ := bind_eq_ok.mp resolved.params
    exact lt_size_of_name written
  · exact lt_size_of_descriptor resolved.result
  · exact (operandProblem_eq_none_iff.mp (operandProblem_of_accepted accepted member)).constant_lt
      used

theorem callees_lt_of_accepted (accepted : p.verifyFunction f = .ok ())
    (called : k ∈ f.record.callees) : k.toNat < p.functions.size := by
  obtain ⟨i, member, called⟩ := List.mem_filterMap.mp called
  exact (operandProblem_eq_none_iff.mp (operandProblem_of_accepted accepted member)).callee_lt
    called

end Operands

theorem fields_lt_of_linkFields {className : String} {earlier fields : List LinkedField}
    {offset size : Nat} {records : List FieldRecord}
    (linked : p.linkFields className earlier offset records = .ok (fields, size)) :
    ∀ r ∈ records, r.name.toNat < p.constants.size ∧ r.descriptor.toNat < p.constants.size := by
  induction records generalizing earlier offset with
  | nil => simp
  | cons r rest ih =>
      unfold linkFields at linked
      obtain ⟨field, first, later⟩ := bind_eq_ok.mp linked
      have links := linksField_of_linkField first
      intro other member
      rcases List.mem_cons.mp member with rfl | member
      · exact ⟨lt_size_of_name links.name, lt_size_of_descriptor links.descriptor⟩
      · exact ih later other member

theorem ResolvesClass.constants_lt {c : LinkedClass} (resolved : p.ResolvesClass c)
    (used : k ∈ c.record.constants) : k.toNat < p.constants.size := by
  rcases ClassRecord.mem_constants.mp used with rfl | ⟨field, member, rfl | rfl⟩
  · exact lt_size_of_name resolved.name
  · exact (fields_lt_of_linkFields resolved.fields field member).1
  · exact (fields_lt_of_linkFields resolved.fields field member).2

theorem ResolvesClass.methods_lt {c : LinkedClass} (resolved : p.ResolvesClass c)
    (listed : k ∈ c.record.methods) : k.toNat < p.functions.size := by
  obtain ⟨f, found⟩ := function_of_checkMethods resolved.methods k listed
  exact lt_size_of_function found

/-! ## Where references lead -/

/-- Indices of two bytes can be shifted past the pools without coming back to the start. -/
structure HasRoom (p : Program) : Prop where
  constants : p.constants.size + ProgramFile.limit ≤ UInt32.size
  functions : p.functions.size + ProgramFile.limit ≤ UInt32.size

section Moved

variable (p : Program) (file : ProgramFile) (q : Program)

/-- The first index is that of a constant in the file, and the second finds the constant in the
program. -/
def MovesConstant (own moved : UInt32) : Prop :=
  moved.toNat = p.constants.size + own.toNat
    ∧ ∃ c, file.constants[own.toNat]? = some c ∧ q.constants[moved.toNat]? = some c

/-- The first index is that of a function in the file, and the second is where the functions of the
file have it. -/
def MovesFunction (own moved : UInt32) : Prop :=
  moved.toNat = p.functions.size + own.toNat ∧ own.toNat < file.functions.length

/-- Constants and calls lead to what they led to in the file; slots and targets stay. -/
structure MovesInstruction (i j : Instruction) : Prop where
  opcode : j.opcode = i.opcode
  constant : i.opcode.refersToConstant = true → ∃ own moved, i.operand = some own
    ∧ j.operand = some moved ∧ p.MovesConstant file q own moved
  call : i.opcode = .call → ∃ own moved, i.operand = some own
    ∧ j.operand = some moved ∧ p.MovesFunction file own moved
  other : i.opcode.refersToConstant = false → i.opcode ≠ .call → j = i

structure PlacesFunction (r : FunctionRecord) (f : LinkedFunction) : Prop where
  name : p.MovesConstant file q r.name f.record.name
  params : p.MovesConstant file q r.params f.record.params
  result : p.MovesConstant file q r.result f.record.result
  maxStack : f.record.maxStack = r.maxStack
  locals : f.record.locals = r.locals
  code : List.Forall₂ (p.MovesInstruction file q) r.code.toList f.record.code.toList
  resolved : q.Resolves f

structure PlacesClass (r : ClassRecord) (c : LinkedClass) : Prop where
  name : p.MovesConstant file q r.name c.record.name
  fields : List.Forall₂ (fun own moved => p.MovesConstant file q own.name moved.name
    ∧ p.MovesConstant file q own.descriptor moved.descriptor) r.fields c.record.fields
  methods : List.Forall₂ (p.MovesFunction file) r.methods c.record.methods
  resolved : q.ResolvesClass c

/-- The second program is the first with the records of the file behind its own, in their order. -/
structure Receives : Prop where
  constants : q.constants = p.constants ++ file.constants.toArray
  functions : ∃ added, List.Forall₂ (p.PlacesFunction file q) file.functions added
    ∧ q.functions = p.functions ++ added.toArray
  classes : ∃ added, List.Forall₂ (p.PlacesClass file q) file.classes added
    ∧ q.classes = p.classes ++ added.toArray

end Moved

variable {origin : String} {file : ProgramFile}

theorem toNat_add_ofNat {base : Nat} (fits : k.toNat < ProgramFile.limit)
    (room : base + ProgramFile.limit ≤ UInt32.size) :
    (k + UInt32.ofNat base).toNat = base + k.toNat := by
  rw [UInt32.toNat_add, UInt32.toNat_ofNat']
  unfold UInt32.size at room
  omega

theorem HasRoom.shifted_constant (room : p.HasRoom) (fits : k.toNat < ProgramFile.limit) :
    (k + (Relocation.ofProgram p).constants).toNat = p.constants.size + k.toNat :=
  toNat_add_ofNat fits room.constants

theorem HasRoom.shifted_function (room : p.HasRoom) (fits : k.toNat < ProgramFile.limit) :
    (k + (Relocation.ofProgram p).functions).toNat = p.functions.size + k.toNat :=
  toNat_add_ofNat fits room.functions

theorem size_of_links {functions : List LinkedFunction} (links : p.Links file functions q) :
    q.constants.size = p.constants.size + file.constants.length
      ∧ q.functions.size = p.functions.size + file.functions.length := by
  have count : functions.length = file.functions.length := by
    simpa using congrArg List.length links.records
  rw [links.constants, links.functions]
  simp [count]

/-- Every function of the file is added, and is accepted. -/
theorem function_of_links {functions : List LinkedFunction} (links : p.Links file functions q)
    {r : FunctionRecord} (member : r ∈ file.functions) :
    ∃ f, f.record = (Relocation.ofProgram p).function r ∧ q.Resolves f
      ∧ q.verifyFunction f = .ok () := by
  obtain ⟨f, added, record⟩ := List.mem_map.mp (links.records ▸ List.mem_map_of_mem member)
  have behind : f ∈ q.functions.toList.drop p.functions.size := by
    rw [links.functions]
    simpa using added
  exact ⟨f, record, links.resolved f added, accepted_of_verifyFrom links.verified behind⟩

/-- Every class of the file is added. -/
theorem class_of_links {classes : List LinkedClass} (links : p.LinksClasses file classes q)
    {r : ClassRecord} (member : r ∈ file.classes) :
    ∃ c, c.record = (Relocation.ofProgram p).classRecord r ∧ q.ResolvesClass c := by
  obtain ⟨c, added, record⟩ := List.mem_map.mp (links.records ▸ List.mem_map_of_mem member)
  exact ⟨c, record, links.resolved c added⟩

/-- The references of a file that is linked are within the program. -/
theorem shifted_lt_of_link (linked : p.link origin file = (q, .ok ())) :
    (∀ k ∈ file.constantReferences,
        (k + (Relocation.ofProgram p).constants).toNat < q.constants.size)
      ∧ ∀ k ∈ file.functionReferences,
        (k + (Relocation.ofProgram p).functions).toNat < q.functions.size := by
  obtain ⟨functions, links⟩ := links_of_link linked
  obtain ⟨classes, linksClasses⟩ := linksClasses_of_link linked
  constructor
  · intro k used
    rcases List.mem_append.mp used with used | used
    · obtain ⟨r, member, used⟩ := List.mem_flatMap.mp used
      obtain ⟨f, record, resolved, accepted⟩ := function_of_links links member
      refine resolved.constants_lt accepted ?_
      rw [record, Relocation.constants_function]
      exact List.mem_map_of_mem used
    · obtain ⟨r, member, used⟩ := List.mem_flatMap.mp used
      obtain ⟨c, record, resolved⟩ := class_of_links linksClasses member
      refine resolved.constants_lt ?_
      rw [record, Relocation.constants_classRecord]
      exact List.mem_map_of_mem used
  · intro k called
    rcases List.mem_append.mp called with called | called
    · obtain ⟨r, member, called⟩ := List.mem_flatMap.mp called
      obtain ⟨f, record, _, accepted⟩ := function_of_links links member
      refine callees_lt_of_accepted accepted ?_
      rw [record, Relocation.callees_function]
      exact List.mem_map_of_mem called
    · obtain ⟨r, member, called⟩ := List.mem_flatMap.mp called
      obtain ⟨c, record, resolved⟩ := class_of_links linksClasses member
      refine resolved.methods_lt ?_
      rw [record]
      exact List.mem_map_of_mem called

/-- A file that can be linked holds what it refers to. -/
theorem selfContained_of_link (room : p.HasRoom) (fits : file.Encodable)
    (linked : p.link origin file = (q, .ok ())) : file.SelfContained := by
  obtain ⟨functions, links⟩ := links_of_link linked
  obtain ⟨constantCount, functionCount⟩ := size_of_links links
  obtain ⟨constants, callees⟩ := shifted_lt_of_link linked
  constructor
  · intro k used
    have inside := constants k used
    rw [room.shifted_constant (fits.constantReferences_lt used)] at inside
    omega
  · intro k called
    have inside := callees k called
    rw [room.shifted_function (fits.functionReferences_lt called)] at inside
    omega

/-! ## The records of a file that is linked -/

/-- Shifted, each reference of the file leads to what it led to. -/
structure MovesReferences (p : Program) (file : ProgramFile) (q : Program) : Prop where
  constants : ∀ k ∈ file.constantReferences,
    p.MovesConstant file q k (k + (Relocation.ofProgram p).constants)
  functions : ∀ k ∈ file.functionReferences,
    p.MovesFunction file k (k + (Relocation.ofProgram p).functions)

theorem movesReferences_of_link (room : p.HasRoom) (fits : file.Encodable)
    (linked : p.link origin file = (q, .ok ())) : p.MovesReferences file q := by
  obtain ⟨functions, links⟩ := links_of_link linked
  have contained := selfContained_of_link room fits linked
  constructor
  · intro k used
    have place := room.shifted_constant (fits.constantReferences_lt used)
    have there := List.getElem?_eq_getElem (contained.constants k used)
    refine ⟨place, _, there, ?_⟩
    rw [place, links.constants, Array.getElem?_append_right (Nat.le_add_right ..),
      Nat.add_sub_cancel_left, List.getElem?_toArray, there]
  · intro k called
    exact ⟨room.shifted_function (fits.functionReferences_lt called),
      contained.functions k called⟩

namespace MovesReferences

variable {i : Instruction} (moves : p.MovesReferences file q)

include moves

theorem instruction (fits : i.Encodable)
    (used : ∀ k, i.constant? = some k → k ∈ file.constantReferences)
    (called : ∀ k, i.callee? = some k → k ∈ file.functionReferences) :
    p.MovesInstruction file q i ((Relocation.ofProgram p).instruction i) where
  opcode := Relocation.opcode_instruction ..
  constant := by
    intro refers
    have present := fits.1
    rw [Relocation.hasOperand_of_refersToConstant refers] at present
    obtain ⟨own, operand⟩ := Option.isSome_iff_exists.mp present
    refine ⟨own, _, operand, ?_, moves.constants own (used own ?_)⟩
    · rw [Relocation.instruction, if_pos refers, operand, Option.map_some]
    · rw [Instruction.constant?, if_pos refers, operand]
  call := by
    intro call
    have present := fits.1
    rw [call] at present
    obtain ⟨own, operand⟩ := Option.isSome_iff_exists.mp present
    refine ⟨own, _, operand, ?_, moves.functions own (called own ?_)⟩
    · rw [Relocation.instruction, if_neg (by simp [call, Opcode.refersToConstant]), if_pos call,
        operand, Option.map_some]
    · rw [Instruction.callee?, if_pos call, operand]
  other := Relocation.instruction_of_other

theorem function (fits : file.Encodable) {r : FunctionRecord} {f : LinkedFunction}
    (member : r ∈ file.functions) (resolved : q.Resolves f)
    (record : f.record = (Relocation.ofProgram p).function r) : p.PlacesFunction file q r f := by
  have used : ∀ k ∈ r.constants, k ∈ file.constantReferences := fun k used =>
    List.mem_append_left _ (List.mem_flatMap.mpr ⟨r, member, used⟩)
  have moved : ∀ k ∈ r.constants, _ := fun k listed => moves.constants k (used k listed)
  have called : ∀ k ∈ r.callees, k ∈ file.functionReferences := fun k called =>
    List.mem_append_left _ (List.mem_flatMap.mpr ⟨r, member, called⟩)
  obtain ⟨name, _, params, result⟩ := f
  cases record
  refine ⟨moved _ (FunctionRecord.mem_constants.mpr (.inl rfl)),
    moved _ (FunctionRecord.mem_constants.mpr (.inr (.inl rfl))),
    moved _ (FunctionRecord.mem_constants.mpr (.inr (.inr (.inl rfl)))), rfl, rfl, ?_, resolved⟩
  show List.Forall₂ _ _ (r.code.map (Relocation.ofProgram p).instruction).toList
  rw [Array.toList_map, List.forall₂_map_right_iff, List.forall₂_same]
  intro i inside
  refine moves.instruction ((fits.functions r member).code i inside) ?_ ?_
  · intro k found
    exact used k (FunctionRecord.mem_constants.mpr (.inr (.inr (.inr ⟨i, inside, found⟩))))
  · intro k found
    exact called k (List.mem_filterMap.mpr ⟨i, inside, found⟩)

theorem classRecord {r : ClassRecord} {c : LinkedClass} (member : r ∈ file.classes)
    (resolved : q.ResolvesClass c) (record : c.record = (Relocation.ofProgram p).classRecord r) :
    p.PlacesClass file q r c := by
  have moved : ∀ k ∈ r.constants, _ := fun k listed =>
    moves.constants k (List.mem_append_right _ (List.mem_flatMap.mpr ⟨r, member, listed⟩))
  refine ⟨?_, ?_, ?_, resolved⟩
  · rw [record]
    exact moved _ (ClassRecord.mem_constants.mpr (.inl rfl))
  · rw [record, Relocation.classRecord, List.forall₂_map_right_iff, List.forall₂_same]
    intro field inside
    exact ⟨moved _ (ClassRecord.mem_constants.mpr (.inr ⟨field, inside, .inl rfl⟩)),
      moved _ (ClassRecord.mem_constants.mpr (.inr ⟨field, inside, .inr rfl⟩))⟩
  · rw [record, Relocation.classRecord, List.forall₂_map_right_iff, List.forall₂_same]
    intro k listed
    exact moves.functions k (List.mem_append_right _ (List.mem_flatMap.mpr ⟨r, member, listed⟩))

end MovesReferences

end Program

/-- Lists whose records agree one by one are related one by one. -/
theorem forall₂_of_records {α β γ : Type} {recordOf : β → γ} {shift : α → γ} {R : α → β → Prop}
    {records : List α} {linked : List β} (same : linked.map recordOf = records.map shift)
    (each : ∀ r ∈ records, ∀ a ∈ linked, recordOf a = shift r → R r a) :
    List.Forall₂ R records linked := by
  induction records generalizing linked with
  | nil =>
      rw [List.map_nil, List.map_eq_nil_iff] at same
      rw [same]
      exact .nil
  | cons r rest ih =>
      cases linked with
      | nil => cases same
      | cons a others =>
          rw [List.map_cons, List.map_cons, List.cons_eq_cons] at same
          refine .cons (each r List.mem_cons_self a List.mem_cons_self same.1) (ih same.2 ?_)
          intro r' later a' behind
          exact each r' (List.mem_cons_of_mem _ later) a' (List.mem_cons_of_mem _ behind)

theorem Program.receives_of_link {p q : Program} {origin : String} {file : ProgramFile}
    (room : p.HasRoom) (fits : file.Encodable) (linked : p.link origin file = (q, .ok ())) :
    p.Receives file q := by
  obtain ⟨functions, links⟩ := links_of_link linked
  obtain ⟨classes, linksClasses⟩ := linksClasses_of_link linked
  have moves := movesReferences_of_link room fits linked
  refine ⟨links.constants, ⟨functions, forall₂_of_records links.records ?_, links.functions⟩,
    ⟨classes, forall₂_of_records linksClasses.records ?_, linksClasses.classes⟩⟩
  · intro r member f added record
    exact moves.function fits member (links.resolved f added) record
  · intro r member c added record
    exact moves.classRecord member (linksClasses.resolved c added) record

/-- A load keeps all that the program held and all that it found by name, whatever comes of it. If
it succeeds then the records of the file stand behind those of the program, each reference leading
to the record of the file that it led to, and if the file refers to what it does not hold then the
load fails. -/
theorem files_refer_to_their_own_records (p : Program) (input : List UInt8) (origin : String) :
    p.KeptBy (p.load input origin).program
      ∧ (p.HasRoom → ∀ counts, (p.load input origin).result = .ok counts →
          ∃ file rest, ProgramFile.parse origin input = .ok (file, rest)
            ∧ p.Receives file (p.load input origin).program)
      ∧ (p.HasRoom → ∀ file rest, ProgramFile.parse origin input = .ok (file, rest) →
          ¬ file.SelfContained → ∃ e, (p.load input origin).result = .error e) := by
  refine ⟨(Program.GrowsTo.load p input origin).keptBy, ?_, ?_⟩
  · intro room counts loaded
    obtain ⟨file, rest, parsed, linked⟩ := Program.link_of_load loaded
    have fits := (ProgramFile.parse_iff.mp parsed).1
    exact ⟨file, rest, parsed, Program.receives_of_link room fits linked⟩
  · intro room file rest parsed stray
    cases loaded : (p.load input origin).result with
    | error e => exact ⟨e, rfl⟩
    | ok counts =>
        obtain ⟨file', rest', parsed', linked⟩ := Program.link_of_load loaded
        cases parsed.symm.trans parsed'
        have fits := (ProgramFile.parse_iff.mp parsed).1
        exact absurd (Program.selfContained_of_link room fits linked) stray

/-! A file with a function and a class is loaded after a function of another file. It prints the
last of its seven constants, and does not load if it asks for an eighth. -/

namespace Stacked

def earlier : Program :=
  ⟨#[.ofBool true, .ofString "Idle", .ofString "", .ofString "void;"],
    #[⟨"Idle", ⟨1, 2, 3, 0, 0, #[⟨.ret, none⟩]⟩, [], .void⟩], #[], ⟨[("Idle", 0)]⟩, .empty⟩

def file (printed : UInt32) : ProgramFile :=
  ⟨⟨1, 0, 0⟩,
    [.ofString "Main", .ofString "", .ofString "void;", .ofString "Point", .ofString "x",
      .ofString "I32;", .ofString "hello"],
    [⟨0, 1, 2, 1, 0, #[⟨.ldc, some printed⟩, ⟨.print, none⟩, ⟨.call, some 0⟩, ⟨.jmp, some 4⟩,
      ⟨.ret, none⟩]⟩],
    [⟨3, [⟨4, 5⟩], [0]⟩]⟩

theorem loaded :
    ProgramFile.parse "point.ball" (file 6).encode = .ok (file 6, [])
      ∧ (earlier.load (file 6).encode "point.ball").result = .ok ⟨7, 1, 1⟩
      ∧ (earlier.load (file 6).encode "point.ball").program.functions[1]?.map (·.code)
          = some #[⟨.ldc, some 10⟩, ⟨.print, none⟩, ⟨.call, some 1⟩, ⟨.jmp, some 4⟩,
              ⟨.ret, none⟩] := by
  refine ⟨?_, ?_, ?_⟩ <;> cbv

theorem parsed : ProgramFile.parse "point.ball" (file 7).encode = .ok (file 7, []) := by
  cbv

theorem stray : ¬ (file 7).SelfContained := by
  intro contained
  have inside := contained.constants 7 (by decide)
  revert inside
  decide

theorem room : earlier.HasRoom := ⟨by decide, by decide⟩

theorem finds_its_own_records :
    earlier.Receives (file 6) (earlier.load (file 6).encode "point.ball").program
      ∧ (earlier.load (file 6).encode "point.ball").program.functions[1]?.map (·.code)
          = some #[⟨.ldc, some 10⟩, ⟨.print, none⟩, ⟨.call, some 1⟩, ⟨.jmp, some 4⟩,
              ⟨.ret, none⟩]
      ∧ (∃ e, (earlier.load (file 7).encode "point.ball").result = .error e)
      ∧ earlier.KeptBy (earlier.load (file 7).encode "point.ball").program := by
  obtain ⟨_, received, _⟩ := files_refer_to_their_own_records earlier (file 6).encode "point.ball"
  obtain ⟨kept, _, refused⟩ := files_refer_to_their_own_records earlier (file 7).encode "point.ball"
  obtain ⟨same, accepted, code⟩ := loaded
  obtain ⟨file', rest, parsed', receives⟩ := received room _ accepted
  cases same.symm.trans parsed'
  exact ⟨receives, code, refused room _ _ parsed stray, kept⟩

end Stacked

end StackMachine
