import StackMachine.Change
import StackMachine.Constant
import StackMachine.Descriptor.Parser
import StackMachine.Instruction
import StackMachine.Log

/-! # Programs

A program is a pool of constants, a pool of functions and a pool of classes, with a table of the
names of functions and one of the names of classes. Records refer to names, types and functions
by index. A record is registered by resolving its names and types against the pools, entering its
name in the table and adding it at the end of its pool.
-/

namespace StackMachine

structure FunctionRecord where
  name : UInt32
  params : UInt32
  result : UInt32
  maxStack : UInt16
  locals : UInt16
  code : Array Instruction
  deriving DecidableEq, Repr

structure FieldRecord where
  name : UInt32
  descriptor : UInt32
  deriving DecidableEq, Repr

structure ClassRecord where
  name : UInt32
  fields : List FieldRecord
  methods : List UInt32
  deriving DecidableEq, Repr

structure LinkedFunction where
  name : String
  record : FunctionRecord
  params : List Descriptor
  result : Descriptor
  deriving DecidableEq, Repr

namespace LinkedFunction

def arity (f : LinkedFunction) : Nat := f.params.length

def code (f : LinkedFunction) : Array Instruction := f.record.code

def locals (f : LinkedFunction) : Nat := f.record.locals.toNat

def maxStack (f : LinkedFunction) : Nat := f.record.maxStack.toNat

def returnsValue (f : LinkedFunction) : Bool := !f.result.isVoid

/-- Parameters and result, such as `(I32;I32;) -> I32;`. -/
def signature (f : LinkedFunction) : String :=
  "(" ++ Descriptor.listText f.params ++ ") -> " ++ f.result.text

def describe (f : LinkedFunction) : String :=
  "RuntimeFunction \x7b name: " ++ Text.quoted f.name
    ++ ", params: [" ++ ", ".intercalate (f.params.map Descriptor.describe)
    ++ "], return_type: " ++ f.result.describe
    ++ ", max_stack: " ++ toString f.maxStack
    ++ ", locals_count: " ++ toString f.locals
    ++ ", code_len: " ++ toString f.code.size ++ " \x7d"

end LinkedFunction

structure LinkedField where
  name : String
  descriptor : Descriptor
  offset : Nat
  deriving DecidableEq, Repr

/-- A class whose name and fields are resolved and laid out. -/
structure LinkedClass where
  name : String
  record : ClassRecord
  fields : List LinkedField
  size : Nat
  deriving DecidableEq, Repr

namespace LinkedClass

def methods (c : LinkedClass) : List UInt32 := c.record.methods

def field? (c : LinkedClass) (name : String) : Option LinkedField :=
  c.fields.find? (·.name == name)

def defaults (c : LinkedClass) : List Value :=
  c.fields.filterMap (·.descriptor.default?)

end LinkedClass

/-- How many records of each sort there are. -/
structure Counts where
  constants : Nat
  functions : Nat
  classes : Nat
  deriving DecidableEq, Repr

def Counts.text (c : Counts) : String :=
  s!"{c.constants} constants, {c.functions} functions, {c.classes} classes"

/-- Names, each with the index that it was entered under. -/
structure NameTable where
  entries : List (String × Nat)
  deriving DecidableEq, Repr

namespace NameTable

def empty : NameTable := ⟨[]⟩

def index? (t : NameTable) (name : String) : Option Nat := t.entries.lookup name

/-- Enters a name, which is no longer found under another index. -/
def insert (t : NameTable) (name : String) (index : Nat) : NameTable :=
  ⟨t.entries.filter (·.1 != name) ++ [(name, index)]⟩

end NameTable

structure Program where
  constants : Array Constant
  functions : Array LinkedFunction
  classes : Array LinkedClass
  functionNames : NameTable
  classNames : NameTable
  deriving DecidableEq, Repr

namespace Program

def empty : Program := ⟨#[], #[], #[], .empty, .empty⟩

def counts (p : Program) : Counts :=
  ⟨p.constants.size, p.functions.size, p.classes.size⟩

/-! ## Looking up -/

def constant (p : Program) (index : Nat) : Except Fault Constant :=
  match p.constants[index]? with
  | some c => .ok c
  | none => .error (.indexOutOfRange .constant index p.constants.size)

def function (p : Program) (index : Nat) : Except Fault LinkedFunction :=
  match p.functions[index]? with
  | some f => .ok f
  | none => .error (.indexOutOfRange .function index p.functions.size)

def classAt (p : Program) (index : Nat) : Except Fault LinkedClass :=
  match p.classes[index]? with
  | some c => .ok c
  | none => .error (.indexOutOfRange .record index p.classes.size)

def functionIndex? (p : Program) (name : String) : Option Nat :=
  p.functionNames.index? name

def function? (p : Program) (name : String) : Option LinkedFunction :=
  (p.functionIndex? name).bind (p.functions[·]?)

def classIndex? (p : Program) (name : String) : Option Nat :=
  p.classNames.index? name

def class? (p : Program) (name : String) : Option LinkedClass :=
  (p.classIndex? name).bind (p.classes[·]?)

def constantValue (p : Program) (index : Nat) : Except Fault Value := do
  (← p.constant index).value index

/-- The text of a constant used as a name or a type. -/
def name (p : Program) (index : Nat) : Except Fault String := do
  let c ← p.constant index
  match c.text? with
  | some s => .ok s
  | none => .error (.malformedName index c.tag.name)

def descriptor (p : Program) (index : Nat) : Except Fault Descriptor := do
  Descriptor.parse (← p.name index)

/-! ## Growing -/

/-- Registers a constant. The result is its index. -/
def addConstant (p : Program) (c : Constant) : Program × Nat :=
  ({ p with constants := p.constants.push c }, p.constants.size)

/-- Resolves the name and the signature of a function. -/
def linkFunction (p : Program) (r : FunctionRecord) : Except Fault LinkedFunction := do
  let name ← p.name r.name.toNat
  let params ← Descriptor.parseList (← p.name r.params.toNat)
  let result ← p.descriptor r.result.toNat
  if (p.functionIndex? name).isSome then .error (.duplicateDefinition .function name)
  else .ok ⟨name, r, params, result⟩

def registerFunction (r : FunctionRecord) : Change Program Fault Nat := do
  let f ← (← get).linkFunction r
  let index := (← get).functions.size
  modify fun p => { p with functionNames := p.functionNames.insert f.name index }
  modify fun p => { p with functions := p.functions.push f }
  return index

/-- Registers a function. The result is its index. -/
def addFunction (p : Program) (r : FunctionRecord) : Program × Except Fault Nat :=
  (registerFunction r).apply p

/-- Resolves the next field of a class and places it at `offset`. -/
def linkField (p : Program) (className : String) (earlier : List LinkedField) (offset : Nat)
    (r : FieldRecord) : Except Fault LinkedField := do
  let name ← p.name r.name.toNat
  let descriptor ← p.descriptor r.descriptor.toNat
  if descriptor.isVoid then .error (.malformedDescriptor descriptor.text)
  else if earlier.any (·.name == name) then
    .error (.duplicateDefinition .field (className ++ "." ++ name))
  else .ok ⟨name, descriptor, offset⟩

/-- Resolves fields one after another, each placed where the one before it ends. The result is
the list of all fields and the size of the class. -/
def linkFields (p : Program) (className : String) (earlier : List LinkedField) (offset : Nat) :
    List FieldRecord → Except Fault (List LinkedField × Nat)
  | [] => .ok (earlier, offset)
  | r :: rest => do
      let field ← p.linkField className earlier offset r
      p.linkFields className (earlier ++ [field]) (offset + field.descriptor.fieldSize) rest

def checkMethods (p : Program) : List UInt32 → Except Fault Unit
  | [] => .ok ()
  | method :: rest => do
      let _ ← p.function method.toNat
      p.checkMethods rest

/-- Resolves the name and the fields of a class and lays the fields out. -/
def linkClass (p : Program) (r : ClassRecord) : Except Fault LinkedClass := do
  let name ← p.name r.name.toNat
  let (fields, size) ← p.linkFields name [] 0 r.fields
  p.checkMethods r.methods
  if (p.classIndex? name).isSome then .error (.duplicateDefinition .record name)
  else .ok ⟨name, r, fields, size⟩

def registerClass (r : ClassRecord) : Change Program Fault Nat := do
  let c ← (← get).linkClass r
  let index := (← get).classes.size
  modify fun p => { p with classNames := p.classNames.insert c.name index }
  modify fun p => { p with classes := p.classes.push c }
  return index

/-- Registers a class. The result is its index. -/
def addClass (p : Program) (r : ClassRecord) : Program × Except Fault Nat :=
  (registerClass r).apply p

/-! ## What is logged of growth -/

def constantEntry (index : Nat) (c : Constant) : LogEntry :=
  ⟨.debug, s!"constant #{index} = {c.text}"⟩

def functionEntry (index : Nat) (f : LinkedFunction) : LogEntry :=
  ⟨.debug, s!"function #{index} {f.name}{f.signature} ({f.code.size} instructions, {f.locals} locals)"⟩

def classEntry (index : Nat) (c : LinkedClass) : LogEntry :=
  ⟨.debug, s!"class #{index} {c.name} ({c.fields.length} fields, {c.size} bytes, {c.methods.length} methods)"⟩

def poolEntries {α : Type} (entry : Nat → α → LogEntry) (start : Nat) (pool : Array α) :
    List LogEntry :=
  (pool.toList.drop start).zipIdx start |>.map fun (a, index) => entry index a

/-- One entry for each record that `after` has beyond `before`. -/
def growthEntries (before after : Program) : List LogEntry :=
  poolEntries constantEntry before.constants.size after.constants
    ++ poolEntries functionEntry before.functions.size after.functions
    ++ poolEntries classEntry before.classes.size after.classes

end Program

end StackMachine
