import Mathlib
import StackMachine.Proofs.Registration
import StackMachine.Proofs.TypedHeap

/-! # The registry

Whatever is registered, in whatever order and with whatever refusals in between, the pools of a
program and its tables of names stay in step: a name finds the one record that has it, functions
have the signatures that their records spell, methods exist, and the fields of a class lie side by
side. What is registered later changes nothing of what was there.
-/

namespace StackMachine

/-! ## What registration leaves alone -/

/-- All that the first program holds, and all that it finds by name, is in the second in the same
place. -/
structure Program.KeptBy (p q : Program) : Prop extends p.Extends q where
  classes : ∀ (i : Nat) (c : LinkedClass), p.classes[i]? = some c → q.classes[i]? = some c
  functionIndices : ∀ (name : String) (i : Nat), p.functionIndex? name = some i →
    q.functionIndex? name = some i
  namedFunctions : ∀ (name : String) (f : LinkedFunction), p.function? name = some f →
    q.function? name = some f
  classIndices : ∀ (name : String) (i : Nat), p.classIndex? name = some i →
    q.classIndex? name = some i
  namedClasses : ∀ (name : String) (c : LinkedClass), p.class? name = some c →
    q.class? name = some c

namespace Program

variable {p q : Program}

/-- Names find what they found as long as indexes and pools are kept. -/
theorem KeptBy.of_indices (grown : p.Extends q)
    (classes : ∀ (i : Nat) (c : LinkedClass), p.classes[i]? = some c → q.classes[i]? = some c)
    (functionIndices : ∀ (name : String) (i : Nat), p.functionIndex? name = some i →
      q.functionIndex? name = some i)
    (classIndices : ∀ (name : String) (i : Nat), p.classIndex? name = some i →
      q.classIndex? name = some i) : p.KeptBy q where
  toExtends := grown
  classes := classes
  functionIndices := functionIndices
  namedFunctions := by
    intro name f found
    obtain ⟨i, index, there⟩ := Option.bind_eq_some_iff.mp found
    exact Option.bind_eq_some_iff.mpr
      ⟨i, functionIndices name i index, grown.functions i f there⟩
  classIndices := classIndices
  namedClasses := by
    intro name c found
    obtain ⟨i, index, there⟩ := Option.bind_eq_some_iff.mp found
    exact Option.bind_eq_some_iff.mpr ⟨i, classIndices name i index, classes i c there⟩

theorem KeptBy.refl (p : Program) : p.KeptBy p :=
  .of_indices (.refl p) (fun _ _ there => there) (fun _ _ found => found) fun _ _ found => found

theorem KeptBy.trans {r : Program} (first : p.KeptBy q) (second : q.KeptBy r) : p.KeptBy r :=
  .of_indices (first.toExtends.trans second.toExtends)
    (fun i c there => second.classes i c (first.classes i c there))
    (fun name i found => second.functionIndices name i (first.functionIndices name i found))
    fun name i found => second.classIndices name i (first.classIndices name i found)

/-- A name that is entered was not in the table, so no other one is lost. -/
theorem keptBy_withFunction {f : LinkedFunction} (free : p.functionIndex? f.name = none) :
    p.KeptBy (p.withFunction f) :=
  .of_indices (p.extends_withFunction f) (fun _ _ there => there)
    (fun _ _ found => NameTable.index?_insert_of_some free found) fun _ _ found => found

theorem keptBy_withClass {c : LinkedClass} (free : p.classIndex? c.name = none) :
    p.KeptBy (p.withClass c) :=
  .of_indices (p.extends_withClass c) (fun _ _ there => getElem?_push_of_some there)
    (fun _ _ found => found) fun _ _ found => NameTable.index?_insert_of_some free found

theorem keptBy_register (p : Program) (r : Registration) : p.KeptBy (p.register r) := by
  unfold register
  obtain ⟨_, tried⟩ | ⟨c, _, tried⟩ | ⟨_, f, _, linked, tried⟩ | ⟨_, c, _, linked, tried⟩ :=
    p.attempt_cases r
  · rw [tried]
    exact .refl p
  · rw [tried]
    exact .of_indices (p.extends_addConstant c) (fun _ _ there => there)
      (fun _ _ found => found) fun _ _ found => found
  · rw [tried]
    exact keptBy_withFunction (linkFunction_eq_ok.mp linked).2.2
  · rw [tried]
    exact keptBy_withClass (linkClass_eq_ok.mp linked).2.2

theorem GrowsTo.keptBy (grown : p.GrowsTo q) : p.KeptBy q := by
  obtain ⟨records, rfl⟩ := grown
  induction records generalizing p with
  | nil => exact .refl p
  | cons r rest ih => exact (p.keptBy_register r).trans ih

/-! ## One more record -/

/-- The second program is the first with the record at the end of its pool, at the index, and with
its name entered under that index. -/
def Appends (p : Program) (index : Nat) : Registration → Program → Prop
  | .constant c, q =>
      index = p.constants.size ∧ q = { p with constants := p.constants.push c }
  | .function r, q =>
      index = p.functions.size ∧ ∃ f : LinkedFunction, f.record = r
        ∧ q = { p with
            functions := p.functions.push f
            functionNames := p.functionNames.insert f.name index }
  | .record r, q =>
      index = p.classes.size ∧ ∃ c : LinkedClass, c.record = r
        ∧ q = { p with
            classes := p.classes.push c
            classNames := p.classNames.insert c.name index }

theorem appends_of_attempt {r : Registration} {index : Nat}
    (accepted : p.attempt r = (q, .ok index)) : p.Appends index r q := by
  cases r with
  | constant c =>
      cases accepted
      exact ⟨rfl, rfl⟩
  | function r =>
      obtain ⟨f, record, _, _, rfl, rfl⟩ := addFunction_eq_ok.mp accepted
      exact ⟨rfl, f, record, rfl⟩
  | record r =>
      obtain ⟨c, record, _, _, rfl, rfl⟩ := addClass_eq_ok.mp accepted
      exact ⟨rfl, c, record, rfl⟩

end Program

/-! ## Names -/

/-- The entries of the pool have different names, a name has an index if and only if an entry has
the name, and it finds the entry at that index. -/
structure NamesEntries {α : Type} (pool : Array α) (nameOf : α → String)
    (index? : String → Option Nat) (named? : String → Option α) : Prop where
  distinct : (pool.toList.map nameOf).Nodup
  index : ∀ (name : String) (i : Nat),
    index? name = some i ↔ ∃ a, pool[i]? = some a ∧ nameOf a = name
  named : ∀ (name : String) (a : α), named? name = some a ↔ a ∈ pool ∧ nameOf a = name
  atIndex : ∀ (name : String) (i : Nat), index? name = some i → named? name = pool[i]?

section Names

variable {α : Type} {pool : Array α} {nameOf : α → String}

/-- In the table of a pool without a name given twice, a name has the index of the entry that has
it. -/
theorem index?_ofNames_eq_some_iff (distinct : (pool.toList.map nameOf).Nodup) (name : String)
    (i : Nat) :
    (NameTable.ofNames (pool.toList.map nameOf)).index? name = some i
      ↔ ∃ a, pool[i]? = some a ∧ nameOf a = name := by
  have entry : ∀ j : Nat, (pool.toList.map nameOf)[j]? = some name
      ↔ ∃ a, pool[j]? = some a ∧ nameOf a = name := by
    intro j
    rw [List.getElem?_map, Array.getElem?_toList, Option.map_eq_some_iff]
  rw [NameTable.index?_ofNames, ← entry, List.idxOf?_eq_some_iff]
  constructor
  · rintro ⟨bound, named, _⟩
    rw [List.getElem?_eq_getElem bound, named]
  · intro named
    obtain ⟨bound, here⟩ := List.getElem?_eq_some_iff.mp named
    refine ⟨bound, here, ?_⟩
    intro j earlier there
    have inside : j < (pool.toList.map nameOf).length := earlier.trans bound
    have same : (pool.toList.map nameOf)[j]? = (pool.toList.map nameOf)[i]? := by
      rw [named, List.getElem?_eq_getElem inside, there]
    exact absurd ((List.getElem?_inj inside distinct).mp same) (Nat.ne_of_lt earlier)

theorem namesEntries_of_table {table : NameTable}
    (distinct : (pool.toList.map nameOf).Nodup)
    (names : table = .ofNames (pool.toList.map nameOf)) :
    NamesEntries pool nameOf table.index? fun name => (table.index? name).bind (pool[·]?) where
  distinct := distinct
  index := by
    rw [names]
    exact index?_ofNames_eq_some_iff distinct
  named := by
    intro name a
    rw [names]
    simp only [Option.bind_eq_some_iff, index?_ofNames_eq_some_iff distinct]
    constructor
    · rintro ⟨i, ⟨b, at_i, named⟩, at_i'⟩
      rw [at_i] at at_i'
      cases at_i'
      exact ⟨Array.mem_of_getElem? at_i, named⟩
    · rintro ⟨member, named⟩
      obtain ⟨i, bound, rfl⟩ := Array.getElem_of_mem member
      have at_i := Array.getElem?_eq_getElem bound
      exact ⟨i, ⟨_, at_i, named⟩, at_i⟩
  atIndex := by
    intro name i found
    simp only [found, Option.bind_some]

end Names

/-! ## Signatures and methods -/

theorem Descriptor.not_void_of_parseAll? {text : List Char} {params : List Descriptor}
    (read : parseAll? text = some params) : ∀ d ∈ params, d.isVoid = false := by
  fun_induction parseAll? text generalizing params with
  | case1 =>
      cases read
      simp
  | case2 => cases read
  | case3 => cases read
  | case4 c tail d rest one solid ih =>
      obtain ⟨others, read_rest, rfl⟩ := Option.map_eq_some_iff.mp read
      intro e member
      rcases List.mem_cons.mp member with rfl | later
      · simpa using solid
      · exact ih read_rest e later

namespace Program

variable {p : Program} {f : LinkedFunction}

theorem Resolves.not_void (resolved : p.Resolves f) : ∀ d ∈ f.params, d.isVoid = false := by
  obtain ⟨text, _, read⟩ := bind_eq_ok.mp resolved.params
  unfold Descriptor.parseList at read
  cases listed : Descriptor.parseAll? text.toList with
  | none =>
      rw [listed] at read
      cases read
  | some params =>
      rw [listed] at read
      cases read
      exact Descriptor.not_void_of_parseAll? listed

theorem lt_size_of_function {index : Nat} (found : p.function index = .ok f) :
    index < p.functions.size := by
  unfold function at found
  cases there : p.functions[index]? with
  | none =>
      rw [there] at found
      cases found
  | some g => exact (Array.getElem?_eq_some_iff.mp there).1

theorem function_of_checkMethods {methods : List UInt32}
    (checked : p.checkMethods methods = .ok ()) :
    ∀ m ∈ methods, ∃ f, p.function m.toNat = .ok f := by
  induction methods with
  | nil => simp
  | cons method rest ih =>
      unfold checkMethods at checked
      obtain ⟨g, found, later⟩ := bind_eq_ok.mp checked
      intro m member
      rcases List.mem_cons.mp member with rfl | other
      · exact ⟨g, found⟩
      · exact ih later m other

end Program

/-! ## Fields -/

theorem Descriptor.exists_default {d : Descriptor} (solid : d.isVoid = false) :
    ∃ v, d.default? = some v ∧ d.admits v = true := by
  cases default : d.default? with
  | none =>
      cases d with
      | void => cases solid
      | int | bool | string | array | record => cases default
  | some v => exact ⟨v, rfl, admits_default default⟩

def LinkedField.SideBySide : List LinkedField → Nat → Nat → Prop
  | [], start, stop => start = stop
  | f :: rest, start, stop =>
      f.offset = start ∧ SideBySide rest (start + f.descriptor.fieldSize) stop

/-- The fields have different names and lie side by side from 0 to `stop`, and each can hold a
value. -/
structure LinkedField.Laid (fields : List LinkedField) (stop : Nat) : Prop where
  names : (fields.map (·.name)).Nodup
  layout : SideBySide fields 0 stop
  solid : ∀ f ∈ fields, f.descriptor.isVoid = false

namespace LinkedField

variable {fields : List LinkedField} {f : LinkedField} {start stop : Nat}

theorem SideBySide.concat (layout : SideBySide fields start stop) (next : f.offset = stop) :
    SideBySide (fields ++ [f]) start (stop + f.descriptor.fieldSize) := by
  induction fields generalizing start with
  | nil =>
      cases layout
      exact ⟨next, rfl⟩
  | cons g rest ih => exact ⟨layout.1, ih layout.2⟩

theorem Laid.concat (laid : Laid fields stop) (next : f.offset = stop)
    (free : f.name ∉ fields.map (·.name)) (solid : f.descriptor.isVoid = false) :
    Laid (fields ++ [f]) (stop + f.descriptor.fieldSize) where
  names := by
    rw [List.map_append, List.map_singleton]
    exact laid.names.append (List.nodup_singleton _) (List.disjoint_singleton.mpr free)
  layout := laid.layout.concat next
  solid := by
    intro g member
    rcases List.mem_append.mp member with old | new
    · exact laid.solid g old
    · rw [List.mem_singleton.mp new]
      exact solid

/-- Fields that can hold values have as many defaults, each of its field's type. -/
theorem forall₂_defaults (solid : ∀ f ∈ fields, f.descriptor.isVoid = false) :
    List.Forall₂ (fun (f : LinkedField) v => f.descriptor.admits v = true) fields
      (fields.filterMap (·.descriptor.default?)) := by
  induction fields with
  | nil => exact .nil
  | cons f rest ih =>
      obtain ⟨v, default, fits⟩ := Descriptor.exists_default (solid f List.mem_cons_self)
      rw [List.filterMap_cons_some (f := fun f : LinkedField => f.descriptor.default?) default]
      exact .cons fits (ih fun g member => solid g (List.mem_cons_of_mem _ member))

end LinkedField

namespace Program

variable {p : Program} {className : String}

structure LinksField (p : Program) (earlier : List LinkedField) (offset : Nat) (r : FieldRecord)
    (field : LinkedField) : Prop where
  name : p.name r.name.toNat = .ok field.name
  descriptor : p.descriptor r.descriptor.toNat = .ok field.descriptor
  solid : field.descriptor.isVoid = false
  free : field.name ∉ earlier.map (·.name)
  offset : field.offset = offset

theorem linksField_of_linkField {earlier : List LinkedField} {offset : Nat} {r : FieldRecord}
    {field : LinkedField} (linked : p.linkField className earlier offset r = .ok field) :
    p.LinksField earlier offset r field := by
  unfold linkField at linked
  obtain ⟨name, named, linked⟩ := bind_eq_ok.mp linked
  obtain ⟨descriptor, described, linked⟩ := bind_eq_ok.mp linked
  by_cases void : descriptor.isVoid = true
  · rw [if_pos void] at linked
    cases linked
  · by_cases taken : earlier.any (·.name == name) = true
    · rw [if_neg void, if_pos taken] at linked
      cases linked
    · rw [if_neg void, if_neg taken] at linked
      cases linked
      refine ⟨named, described, by simpa using void, ?_, rfl⟩
      intro member
      obtain ⟨other, inside, same⟩ := List.mem_map.mp member
      exact taken (List.any_eq_true.mpr ⟨other, inside, by simpa using same⟩)

/-- Fields are laid out one after another. -/
theorem laid_of_linkFields {earlier fields : List LinkedField} {offset size : Nat}
    {records : List FieldRecord} (laid : LinkedField.Laid earlier offset)
    (linked : p.linkFields className earlier offset records = .ok (fields, size)) :
    LinkedField.Laid fields size := by
  induction records generalizing earlier offset with
  | nil =>
      cases linked
      exact laid
  | cons r rest ih =>
      unfold linkFields at linked
      obtain ⟨field, first, later⟩ := bind_eq_ok.mp linked
      have links := linksField_of_linkField first
      exact ih (laid.concat links.offset links.free links.solid) later

end Program

/-- The fields of the class have different names and lie side by side from 0 to its size, and the
values that they hold at first are one for each field, of the field's type. -/
structure LinkedClass.WellLaid (c : LinkedClass) : Prop where
  names : (c.fields.map (·.name)).Nodup
  layout : LinkedField.SideBySide c.fields 0 c.size
  defaults : List.Forall₂ (fun (f : LinkedField) v => f.descriptor.admits v = true) c.fields
    c.defaults

theorem Program.ResolvesClass.wellLaid {p : Program} {c : LinkedClass}
    (resolved : p.ResolvesClass c) : c.WellLaid := by
  have nothing : LinkedField.Laid [] 0 := ⟨List.nodup_nil, rfl, by simp⟩
  have laid := laid_of_linkFields nothing resolved.fields
  exact ⟨laid.names, laid.layout, LinkedField.forall₂_defaults laid.solid⟩

/-! ## Programs -/

/-- Names and pools are in step, functions are as their records say and take nothing void, methods
exist, and the fields of classes are laid out. -/
structure Program.WellRegistered (p : Program) : Prop where
  functionNames : NamesEntries p.functions (·.name) p.functionIndex? p.function?
  classNames : NamesEntries p.classes (·.name) p.classIndex? p.class?
  signatures : ∀ f ∈ p.functions, p.Resolves f ∧ ∀ d ∈ f.params, d.isVoid = false
  methods : ∀ c ∈ p.classes, ∀ m ∈ c.methods, m.toNat < p.functions.size
  fields : ∀ c ∈ p.classes, c.WellLaid

theorem Program.Consistent.wellRegistered {p : Program} (consistent : p.Consistent) :
    p.WellRegistered where
  functionNames := namesEntries_of_table consistent.distinctFunctions consistent.functionNames
  classNames := namesEntries_of_table consistent.distinctClasses consistent.classNames
  signatures := fun f member =>
    ⟨consistent.functions f member, (consistent.functions f member).not_void⟩
  methods := by
    intro c member m listed
    obtain ⟨f, found⟩ := function_of_checkMethods (consistent.classes c member).methods m listed
    exact lt_size_of_function found
  fields := fun c member => (consistent.classes c member).wellLaid

/-- Whatever was registered, accepted or refused: an attempt that fails leaves the program as it
was, one that succeeds adds the record at the end of its pool, where its index and its name find
it, and changes nothing of what was there or was found; and the program is well registered. -/
theorem registrations_keep_pools_and_names_in_step (p : Program)
    (built : Program.empty.GrowsTo p) :
    (∀ (r : Registration) (q : Program) (fault : Fault),
        p.attempt r = (q, .error fault) → q = p)
      ∧ (∀ (r : Registration) (q : Program) (index : Nat), p.attempt r = (q, .ok index) →
          p.Appends index r q ∧ p.KeptBy q)
      ∧ p.WellRegistered := by
  refine ⟨fun r q fault refused => Program.attempt_of_error refused, ?_, ?_⟩
  · intro r q index accepted
    have kept := p.keptBy_register r
    rw [Program.register, accepted] at kept
    exact ⟨Program.appends_of_attempt accepted, kept⟩
  · exact (built.consistent .empty).wellRegistered

/-! A function and a class with two fields are registered, and between them a function of a name
that is taken, a class with a method that does not exist, and one that has a field twice. -/

namespace Interleaved

def records : List Registration :=
  [.constant (.ofString "Main"), .constant (.ofString ""), .constant (.ofString "void;"),
    .constant (.ofString "Point"), .constant (.ofString "x"), .constant (.ofString "I32;"),
    .function ⟨0, 1, 2, 0, 0, #[⟨.ret, none⟩]⟩, .function ⟨0, 1, 2, 1, 1, #[]⟩,
    .record ⟨3, [⟨4, 5⟩], [1]⟩, .record ⟨3, [⟨4, 5⟩, ⟨4, 5⟩], [0]⟩,
    .record ⟨3, [⟨4, 5⟩, ⟨3, 5⟩], [0]⟩]

def program : Program := Program.empty.registerAll records

def next : FunctionRecord := ⟨3, 5, 2, 0, 1, #[⟨.ret, none⟩]⟩

theorem outcomes :
    program.counts = ⟨6, 1, 1⟩
      ∧ (program.addFunction ⟨0, 1, 2, 1, 1, #[]⟩).2
        = .error (.duplicateDefinition .function "Main")
      ∧ (program.addFunction next).2 = .ok 1 := by
  refine ⟨?_, ?_, ?_⟩ <;> cbv

theorem stay_in_step :
    program.WellRegistered
      ∧ (program.addFunction ⟨0, 1, 2, 1, 1, #[]⟩).1 = program
      ∧ program.Appends 1 (.function next) (program.addFunction next).1
      ∧ program.KeptBy (program.addFunction next).1 := by
  obtain ⟨refused, accepted, registered⟩ :=
    registrations_keep_pools_and_names_in_step program ⟨records, rfl⟩
  obtain ⟨_, taken, free⟩ := outcomes
  obtain ⟨appended, kept⟩ := accepted (.function next) _ 1 (Prod.ext rfl free)
  exact ⟨registered, refused (.function _) _ _ (Prod.ext rfl taken), appended, kept⟩

end Interleaved

end StackMachine
