import Mathlib
import StackMachine.Proofs.ProgramGrowth

/-! # Registration

A program is built by registering constants, functions and classes, in any order. A record is
resolved against the pools as they stand, and the pools only grow, so it resolves to the same
against the program in the end. No two functions and no two classes get one name, and the tables
have the names of the pools, in their order. Thus the records of a program can be registered
again, pool by pool, and give the same program.
-/

namespace StackMachine

theorem bind_eq_ok {ε α β : Type} {x : Except ε α} {k : α → Except ε β} {b : β} :
    x >>= k = .ok b ↔ ∃ a, x = .ok a ∧ k a = .ok b := by
  cases x with
  | error e =>
      constructor
      · intro absurd
        cases absurd
      · rintro ⟨a, absurd, _⟩
        cases absurd
  | ok a =>
      constructor
      · intro rest
        exact ⟨a, rfl, rest⟩
      · rintro ⟨a', same, rest⟩
        cases same
        exact rest

/-! ## Tables of names -/

namespace NameTable

variable {names : List String} {name : String}

theorem lookup_filter_self (name : String) (entries : List (String × Nat)) :
    (entries.filter (·.1 != name)).lookup name = none := by
  rw [List.lookup_eq_none_iff]
  intro entry member
  have different := (List.mem_filter.mp member).2
  rwa [bne_comm] at different

theorem lookup_filter_of_ne {other : String} (different : other ≠ name)
    (entries : List (String × Nat)) :
    (entries.filter (·.1 != name)).lookup other = entries.lookup other := by
  induction entries with
  | nil => rfl
  | cons entry rest ih =>
      by_cases removed : entry.1 = name
      · have unlike : (other == entry.1) = false := by simpa [removed] using different
        rw [List.filter_cons_of_neg (by simp [removed]), ih, List.lookup_cons, unlike]
      · rw [List.filter_cons_of_pos (by simp [removed]), List.lookup_cons, List.lookup_cons, ih]

theorem index?_insert (t : NameTable) (name other : String) (index : Nat) :
    (t.insert name index).index? other
      = if other = name then some index else t.index? other := by
  rw [insert, index?, List.lookup_append, List.lookup_cons]
  by_cases same : other = name
  · rw [if_pos same, same, lookup_filter_self, beq_self_eq_true]
    rfl
  · rw [if_neg same, lookup_filter_of_ne same, beq_eq_false_iff_ne.mpr same]
    exact Option.or_none

theorem index?_insert_of_some {t : NameTable} {other : String} {index i : Nat}
    (free : t.index? name = none) (found : t.index? other = some i) :
    (t.insert name index).index? other = some i := by
  have different : other ≠ name := by
    rintro rfl
    rw [free] at found
    cases found
  rw [index?_insert, if_neg different, found]

def ofNames (names : List String) : NameTable := ⟨names.zipIdx⟩

theorem lookup_zipIdx (names : List String) (name : String) (start : Nat) :
    (names.zipIdx start).lookup name = (names.idxOf? name).map (· + start) := by
  induction names generalizing start with
  | nil => rfl
  | cons first rest ih =>
      rw [List.zipIdx_cons, List.lookup_cons, List.idxOf?_cons, ih]
      by_cases same : first = name
      · simp [same]
      · have unlike : (name == first) = false := by simpa using Ne.symm same
        simp [same, unlike, Function.comp_def, Nat.add_comm, Nat.add_left_comm]

theorem index?_ofNames (names : List String) (name : String) :
    (ofNames names).index? name = names.idxOf? name := by
  rw [ofNames, index?, lookup_zipIdx]
  exact Option.map_id'

theorem index?_ofNames_eq_none_iff : (ofNames names).index? name = none ↔ name ∉ names := by
  rw [index?_ofNames, List.idxOf?_eq_none_iff]

theorem insert_ofNames (free : name ∉ names) :
    (ofNames names).insert name names.length = ofNames (names ++ [name]) := by
  have all : names.zipIdx.filter (·.1 != name) = names.zipIdx := by
    rw [List.filter_eq_self]
    intro entry member
    have listed : entry.1 ∈ names := List.fst_mem_of_mem_zipIdx member
    simpa using ne_of_mem_of_not_mem listed free
  rw [ofNames, insert, all, ofNames, List.zipIdx_append]
  simp

end NameTable

namespace Program

variable {p q : Program} {f : LinkedFunction} {c : LinkedClass}

/-! ## Resolved records -/

structure Resolves (p : Program) (f : LinkedFunction) : Prop where
  name : p.name f.record.name.toNat = .ok f.name
  params : p.name f.record.params.toNat >>= Descriptor.parseList = .ok f.params
  result : p.descriptor f.record.result.toNat = .ok f.result

structure ResolvesClass (p : Program) (c : LinkedClass) : Prop where
  name : p.name c.record.name.toNat = .ok c.name
  fields : p.linkFields c.name [] 0 c.record.fields = .ok (c.fields, c.size)
  methods : p.checkMethods c.record.methods = .ok ()

/-- Functions are resolved by the constants alone. -/
theorem Resolves.congr (resolved : p.Resolves f) (same : p.constants = q.constants) :
    q.Resolves f := by
  obtain ⟨constants, functions, classes, functionNames, classNames⟩ := q
  cases same
  exact ⟨resolved.name, resolved.params, resolved.result⟩

theorem Resolves.mono (resolved : p.Resolves f) (grown : p.Extends q) : q.Resolves f where
  name := grown.name resolved.name
  params := bind_ok_mono (fun _ => grown.name) resolved.params
  result := grown.descriptor resolved.result

theorem linkField_mono (grown : p.Extends q) {className : String} {earlier : List LinkedField}
    {offset : Nat} {r : FieldRecord} {field : LinkedField}
    (linked : p.linkField className earlier offset r = .ok field) :
    q.linkField className earlier offset r = .ok field := by
  unfold linkField at linked ⊢
  obtain ⟨name, named, rest⟩ := bind_eq_ok.mp linked
  obtain ⟨descriptor, described, rest⟩ := bind_eq_ok.mp rest
  refine bind_eq_ok.mpr ⟨name, grown.name named, ?_⟩
  exact bind_eq_ok.mpr ⟨descriptor, grown.descriptor described, rest⟩

theorem linkFields_mono (grown : p.Extends q) {className : String} {earlier : List LinkedField}
    {offset : Nat} {records : List FieldRecord} {laidOut : List LinkedField × Nat}
    (linked : p.linkFields className earlier offset records = .ok laidOut) :
    q.linkFields className earlier offset records = .ok laidOut := by
  induction records generalizing earlier offset with
  | nil => exact linked
  | cons r rest ih =>
      unfold linkFields at linked ⊢
      obtain ⟨field, first, later⟩ := bind_eq_ok.mp linked
      exact bind_eq_ok.mpr ⟨field, linkField_mono grown first, ih later⟩

theorem checkMethods_mono (grown : p.Extends q) {methods : List UInt32}
    (checked : p.checkMethods methods = .ok ()) : q.checkMethods methods = .ok () := by
  induction methods with
  | nil => rfl
  | cons method rest ih =>
      unfold checkMethods at checked ⊢
      obtain ⟨g, found, later⟩ := bind_eq_ok.mp checked
      exact bind_eq_ok.mpr ⟨g, grown.function found, ih later⟩

theorem ResolvesClass.mono (resolved : p.ResolvesClass c) (grown : p.Extends q) :
    q.ResolvesClass c where
  name := grown.name resolved.name
  fields := linkFields_mono grown resolved.fields
  methods := checkMethods_mono grown resolved.methods

/-- A function is linked exactly if it resolves and its name is free. -/
theorem linkFunction_eq_ok {r : FunctionRecord} :
    p.linkFunction r = .ok f
      ↔ f.record = r ∧ p.Resolves f ∧ p.functionIndex? f.name = none := by
  constructor
  · intro linked
    unfold linkFunction at linked
    obtain ⟨name, named, linked⟩ := bind_eq_ok.mp linked
    obtain ⟨text, written, linked⟩ := bind_eq_ok.mp linked
    obtain ⟨params, read, linked⟩ := bind_eq_ok.mp linked
    obtain ⟨result, described, linked⟩ := bind_eq_ok.mp linked
    by_cases taken : (p.functionIndex? name).isSome = true
    · rw [if_pos taken] at linked
      cases linked
    · rw [if_neg taken] at linked
      cases linked
      exact ⟨rfl, ⟨named, bind_eq_ok.mpr ⟨text, written, read⟩, described⟩, by simpa using taken⟩
  · rintro ⟨rfl, resolved, free⟩
    obtain ⟨text, written, read⟩ := bind_eq_ok.mp resolved.params
    unfold linkFunction
    refine bind_eq_ok.mpr ⟨f.name, resolved.name, ?_⟩
    refine bind_eq_ok.mpr ⟨text, written, ?_⟩
    refine bind_eq_ok.mpr ⟨f.params, read, ?_⟩
    refine bind_eq_ok.mpr ⟨f.result, resolved.result, ?_⟩
    rw [if_neg (by simp [free])]

/-- A class is linked exactly if it resolves and its name is free. -/
theorem linkClass_eq_ok {r : ClassRecord} :
    p.linkClass r = .ok c ↔ c.record = r ∧ p.ResolvesClass c ∧ p.classIndex? c.name = none := by
  constructor
  · intro linked
    unfold linkClass at linked
    obtain ⟨name, named, linked⟩ := bind_eq_ok.mp linked
    obtain ⟨laidOut, fields, linked⟩ := bind_eq_ok.mp linked
    obtain ⟨done, methods, linked⟩ := bind_eq_ok.mp linked
    by_cases taken : (p.classIndex? name).isSome = true
    · rw [if_pos taken] at linked
      cases linked
    · rw [if_neg taken] at linked
      cases linked
      exact ⟨rfl, ⟨named, fields, methods⟩, by simpa using taken⟩
  · rintro ⟨rfl, resolved, free⟩
    unfold linkClass
    refine bind_eq_ok.mpr ⟨c.name, resolved.name, ?_⟩
    refine bind_eq_ok.mpr ⟨(c.fields, c.size), resolved.fields, ?_⟩
    refine bind_eq_ok.mpr ⟨(), resolved.methods, ?_⟩
    rw [if_neg (by simp [free])]

/-- A function is added exactly if it resolves and its name is free. -/
theorem addFunction_eq_ok {r : FunctionRecord} {index : Nat} :
    p.addFunction r = (q, .ok index)
      ↔ ∃ f : LinkedFunction, f.record = r ∧ p.Resolves f ∧ p.functionIndex? f.name = none
          ∧ q = p.withFunction f ∧ index = p.functions.size := by
  constructor
  · intro added
    cases linked : p.linkFunction r with
    | error fault =>
        rw [addFunction_of_refused linked] at added
        cases added
    | ok f =>
        rw [addFunction_of_linked linked] at added
        cases added
        obtain ⟨record, resolved, free⟩ := linkFunction_eq_ok.mp linked
        exact ⟨f, record, resolved, free, rfl, rfl⟩
  · rintro ⟨f, record, resolved, free, rfl, rfl⟩
    exact addFunction_of_linked (linkFunction_eq_ok.mpr ⟨record, resolved, free⟩)

/-- A class is added exactly if it resolves and its name is free. -/
theorem addClass_eq_ok {r : ClassRecord} {index : Nat} :
    p.addClass r = (q, .ok index)
      ↔ ∃ c : LinkedClass, c.record = r ∧ p.ResolvesClass c ∧ p.classIndex? c.name = none
          ∧ q = p.withClass c ∧ index = p.classes.size := by
  constructor
  · intro added
    cases linked : p.linkClass r with
    | error fault =>
        rw [addClass_of_refused linked] at added
        cases added
    | ok c =>
        rw [addClass_of_linked linked] at added
        cases added
        obtain ⟨record, resolved, free⟩ := linkClass_eq_ok.mp linked
        exact ⟨c, record, resolved, free, rfl, rfl⟩
  · rintro ⟨c, record, resolved, free, rfl, rfl⟩
    exact addClass_of_linked (linkClass_eq_ok.mpr ⟨record, resolved, free⟩)

section Names

theorem names_withFunction (p : Program) (f : LinkedFunction) :
    (p.withFunction f).functions.toList.map (·.name)
      = p.functions.toList.map (·.name) ++ [f.name] := by
  rw [withFunction, Array.toList_push, List.map_append, List.map_singleton]

theorem functionNames_withFunction
    (names : p.functionNames = .ofNames (p.functions.toList.map (·.name)))
    (free : f.name ∉ p.functions.toList.map (·.name)) :
    (p.withFunction f).functionNames
      = .ofNames ((p.withFunction f).functions.toList.map (·.name)) := by
  rw [names_withFunction, ← NameTable.insert_ofNames free, List.length_map, Array.length_toList,
    ← names]
  rfl

theorem names_withClass (p : Program) (c : LinkedClass) :
    (p.withClass c).classes.toList.map (·.name) = p.classes.toList.map (·.name) ++ [c.name] := by
  rw [withClass, Array.toList_push, List.map_append, List.map_singleton]

theorem classNames_withClass
    (names : p.classNames = .ofNames (p.classes.toList.map (·.name)))
    (free : c.name ∉ p.classes.toList.map (·.name)) :
    (p.withClass c).classNames = .ofNames ((p.withClass c).classes.toList.map (·.name)) := by
  rw [names_withClass, ← NameTable.insert_ofNames free, List.length_map, Array.length_toList,
    ← names]
  rfl

end Names

/-! ## Consistent programs -/

/-- Every record resolves against the pools, no name is given twice, and the tables have the names
of the pools, in order. -/
structure Consistent (p : Program) : Prop where
  functions : ∀ f ∈ p.functions, p.Resolves f
  classes : ∀ c ∈ p.classes, p.ResolvesClass c
  distinctFunctions : (p.functions.toList.map (·.name)).Nodup
  distinctClasses : (p.classes.toList.map (·.name)).Nodup
  functionNames : p.functionNames = .ofNames (p.functions.toList.map (·.name))
  classNames : p.classNames = .ofNames (p.classes.toList.map (·.name))

namespace Consistent

theorem empty : Program.empty.Consistent where
  functions := by simp [Program.empty]
  classes := by simp [Program.empty]
  distinctFunctions := by simp [Program.empty]
  distinctClasses := by simp [Program.empty]
  functionNames := rfl
  classNames := rfl

theorem functionIndex?_eq_none_iff (consistent : p.Consistent) {name : String} :
    p.functionIndex? name = none ↔ name ∉ p.functions.toList.map (·.name) := by
  rw [functionIndex?, consistent.functionNames, NameTable.index?_ofNames_eq_none_iff]

theorem classIndex?_eq_none_iff (consistent : p.Consistent) {name : String} :
    p.classIndex? name = none ↔ name ∉ p.classes.toList.map (·.name) := by
  rw [classIndex?, consistent.classNames, NameTable.index?_ofNames_eq_none_iff]

theorem addConstant (consistent : p.Consistent) (c : Constant) :
    (p.addConstant c).1.Consistent where
  functions := fun f member => (consistent.functions f member).mono (p.extends_addConstant c)
  classes := fun k member => (consistent.classes k member).mono (p.extends_addConstant c)
  distinctFunctions := consistent.distinctFunctions
  distinctClasses := consistent.distinctClasses
  functionNames := consistent.functionNames
  classNames := consistent.classNames

theorem withFunction (consistent : p.Consistent) (resolved : p.Resolves f)
    (free : p.functionIndex? f.name = none) : (p.withFunction f).Consistent := by
  have grown := p.extends_withFunction f
  rw [consistent.functionIndex?_eq_none_iff] at free
  refine ⟨?_, fun c member => (consistent.classes c member).mono grown, ?_,
    consistent.distinctClasses, functionNames_withFunction consistent.functionNames free,
    consistent.classNames⟩
  · intro g member
    rcases Array.mem_push.mp member with old | rfl
    · exact (consistent.functions g old).mono grown
    · exact resolved.mono grown
  · rw [names_withFunction]
    exact consistent.distinctFunctions.append (List.nodup_singleton _)
      (List.disjoint_singleton.mpr free)

theorem withClass (consistent : p.Consistent) (resolved : p.ResolvesClass c)
    (free : p.classIndex? c.name = none) : (p.withClass c).Consistent := by
  have grown := p.extends_withClass c
  rw [consistent.classIndex?_eq_none_iff] at free
  refine ⟨fun f member => (consistent.functions f member).mono grown, ?_,
    consistent.distinctFunctions, ?_, consistent.functionNames,
    classNames_withClass consistent.classNames free⟩
  · intro k member
    rcases Array.mem_push.mp member with old | rfl
    · exact (consistent.classes k old).mono grown
    · exact resolved.mono grown
  · rw [names_withClass]
    exact consistent.distinctClasses.append (List.nodup_singleton _)
      (List.disjoint_singleton.mpr free)

theorem register (consistent : p.Consistent) (r : Registration) : (p.register r).Consistent := by
  unfold Program.register
  obtain ⟨_, tried⟩ | ⟨c, _, tried⟩ | ⟨_, f, _, linked, tried⟩ | ⟨_, c, _, linked, tried⟩ :=
    p.attempt_cases r
  · rw [tried]
    exact consistent
  · rw [tried]
    exact consistent.addConstant c
  · obtain ⟨_, resolved, free⟩ := linkFunction_eq_ok.mp linked
    rw [tried]
    exact consistent.withFunction resolved free
  · obtain ⟨_, resolved, free⟩ := linkClass_eq_ok.mp linked
    rw [tried]
    exact consistent.withClass resolved free

theorem registerAll (consistent : p.Consistent) (records : List Registration) :
    (p.registerAll records).Consistent := by
  induction records generalizing p with
  | nil => exact consistent
  | cons r rest ih => exact ih (consistent.register r)

end Consistent

/-! ## Loads keep programs consistent -/

theorem GrowsTo.consistent (grown : p.GrowsTo q) (before : p.Consistent) : q.Consistent := by
  obtain ⟨records, rfl⟩ := grown
  exact before.registerAll records

theorem consistent_of_loadImage {input : List UInt8} {log : List LogEntry}
    (loaded : loadImage input = (.ok p, log)) : p.Consistent := by
  obtain ⟨image, rest, _, _, restored⟩ := loadImage_eq_ok_iff.mp ⟨log, loaded⟩
  have grown := GrowsTo.restore image
  rw [restored] at grown
  exact grown.consistent .empty

/-! ## Registering again -/

theorem addConstants_eq (p : Program) (constants : List Constant) :
    p.addConstants constants = { p with constants := p.constants ++ constants.toArray } := by
  induction constants generalizing p with
  | nil => simp [addConstants]
  | cons c rest ih =>
      rw [show p.addConstants (c :: rest) = (p.addConstant c).1.addConstants rest from rfl, ih]
      simp [addConstant]

/-- Functions that resolve, under names that are free and differ, are all added. -/
theorem addEach_functions (functions : List LinkedFunction)
    (resolved : ∀ f ∈ functions, p.Resolves f)
    (table : p.functionNames = .ofNames (p.functions.toList.map (·.name)))
    (names : (p.functions.toList.map (·.name) ++ functions.map (·.name)).Nodup) :
    addEach addFunction p (functions.map (·.record))
      = ({ p with
            functions := p.functions ++ functions.toArray
            functionNames :=
              .ofNames (p.functions.toList.map (·.name) ++ functions.map (·.name)) }, .ok ()) := by
  induction functions generalizing p with
  | nil => simp [addEach, ← table]
  | cons f rest ih =>
      have free : f.name ∉ p.functions.toList.map (·.name) := by
        intro taken
        exact (List.nodup_append.mp names).2.2 _ taken _ (List.mem_cons_self ..) rfl
      have unknown : p.functionIndex? f.name = none := by
        rw [functionIndex?, table, NameTable.index?_ofNames_eq_none_iff]
        exact free
      have added : p.addFunction f.record = (p.withFunction f, .ok p.functions.size) :=
        addFunction_eq_ok.mpr ⟨f, rfl, resolved f (List.mem_cons_self ..), unknown, rfl, rfl⟩
      rw [List.map_cons, addEach, added]
      dsimp only
      rw [ih _ (functionNames_withFunction table free)]
      · rw [names_withFunction]
        simp [withFunction]
      · rw [names_withFunction]
        simpa using names
      · intro g member
        exact (resolved g (List.mem_cons_of_mem _ member)).mono (p.extends_withFunction f)

/-- Classes that resolve, under names that are free and differ, are all added. -/
theorem addEach_classes (classes : List LinkedClass)
    (resolved : ∀ c ∈ classes, p.ResolvesClass c)
    (table : p.classNames = .ofNames (p.classes.toList.map (·.name)))
    (names : (p.classes.toList.map (·.name) ++ classes.map (·.name)).Nodup) :
    addEach addClass p (classes.map (·.record))
      = ({ p with
            classes := p.classes ++ classes.toArray
            classNames :=
              .ofNames (p.classes.toList.map (·.name) ++ classes.map (·.name)) }, .ok ()) := by
  induction classes generalizing p with
  | nil => simp [addEach, ← table]
  | cons c rest ih =>
      have free : c.name ∉ p.classes.toList.map (·.name) := by
        intro taken
        exact (List.nodup_append.mp names).2.2 _ taken _ (List.mem_cons_self ..) rfl
      have unknown : p.classIndex? c.name = none := by
        rw [classIndex?, table, NameTable.index?_ofNames_eq_none_iff]
        exact free
      have added : p.addClass c.record = (p.withClass c, .ok p.classes.size) :=
        addClass_eq_ok.mpr ⟨c, rfl, resolved c (List.mem_cons_self ..), unknown, rfl, rfl⟩
      rw [List.map_cons, addEach, added]
      dsimp only
      rw [ih _ (classNames_withClass table free)]
      · rw [names_withClass]
        simp [withClass]
      · rw [names_withClass]
        simpa using names
      · intro k member
        exact (resolved k (List.mem_cons_of_mem _ member)).mono (p.extends_withClass c)

/-- The records of a consistent program that verifies give the program again. -/
theorem Consistent.restore (consistent : p.Consistent) (verified : p.verifyFrom 0 = .ok ()) :
    Program.restore (Image.ofProgram p) = (p, .ok ()) := by
  have constants : Program.empty.addConstants p.constants.toList
      = ⟨p.constants, #[], #[], .empty, .empty⟩ := by
    rw [addConstants_eq]
    simp [Program.empty]
  have functions : addEach Program.addFunction ⟨p.constants, #[], #[], .empty, .empty⟩
      (p.functions.toList.map (·.record))
        = (⟨p.constants, p.functions, #[], p.functionNames, .empty⟩, .ok ()) := by
    rw [addEach_functions _ _ rfl]
    · simp [consistent.functionNames]
    · simpa using consistent.distinctFunctions
    · intro f member
      exact (consistent.functions f (Array.mem_toList_iff.mp member)).congr rfl
  have classes : addEach Program.addClass ⟨p.constants, p.functions, #[], p.functionNames, .empty⟩
      (p.classes.toList.map (·.record)) = (p, .ok ()) := by
    rw [addEach_classes _ _ rfl]
    · simp [← consistent.classNames]
    · simpa using consistent.distinctClasses
    · intro c member
      exact (consistent.classes c (Array.mem_toList_iff.mp member)).mono
        ⟨fun _ _ found => found, fun _ _ found => found⟩
  simp only [Program.restore, Image.ofProgram, constants, functions, classes, verified]

end Program

end StackMachine
