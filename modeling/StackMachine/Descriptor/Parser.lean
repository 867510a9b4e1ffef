import StackMachine.Descriptor.Basic

/-! # Reading descriptors

A descriptor is a run of opening brackets, a token and a semicolon. The token names `B`,
`String`, `void`, an integer type or a record. A letter `I` or `U` followed by nothing but
digits is an integer type or nothing; alone it has 32 bits.
-/

namespace StackMachine.Descriptor

def maxDepth : Nat := 255

def isNameChar (c : Char) : Bool :=
  c.isAlphanum || c == '_' || c == '.' || c == '/'

def decimalValue (digits : List Char) : Nat :=
  digits.foldl (fun n c => 10 * n + (c.toNat - '0'.toNat)) 0

/-- The signedness that the first letter of an integer token stands for. -/
def signOf? : Char → Option Bool
  | 'I' => some true
  | 'U' => some false
  | _ => none

/-- A token that is a sign letter and digits only is read as an integer type. -/
def ofDigits? (signed : Bool) (digits : List Char) : Option Descriptor :=
  if digits.isEmpty then some (.int ⟨signed, .w32⟩)
  else (Width.ofBits? (decimalValue digits)).map fun width => .int ⟨signed, width⟩

def ofName? (token : List Char) : Option Descriptor :=
  if token.all isNameChar then some (.record (String.ofList token)) else none

def ofToken? (token : List Char) : Option Descriptor :=
  match token with
  | [] => none
  | first :: digits =>
      if token = ['B'] then some .bool
      else if token = ['S', 't', 'r', 'i', 'n', 'g'] then some .string
      else if token = ['v', 'o', 'i', 'd'] then some .void
      else
        match signOf? first with
        | some signed =>
            if digits.all Char.isDigit then ofDigits? signed digits else ofName? token
        | none => ofName? token

/-- Splits the text at the first semicolon, which is dropped. -/
def splitToken? : List Char → Option (List Char × List Char)
  | [] => none
  | c :: rest =>
      if c = ';' then some ([], rest)
      else (splitToken? rest).map fun (token, rest) => (c :: token, rest)

/-- The array type of the given depth. -/
def nest (element : Descriptor) : Nat → Descriptor
  | 0 => element
  | depth + 1 => .array (nest element depth)

def takeOne? (text : List Char) : Option (Descriptor × List Char) :=
  let depth := (text.takeWhile (· == '[')).length
  if depth > maxDepth then none
  else
    match splitToken? (text.dropWhile (· == '[')) with
    | none => none
    | some (token, rest) =>
        match ofToken? token with
        | none => none
        | some base =>
            if depth > 0 && base.isVoid then none else some (nest base depth, rest)

theorem length_of_splitToken? {text token rest : List Char}
    (h : splitToken? text = some (token, rest)) : rest.length < text.length := by
  induction text generalizing token with
  | nil => simp [splitToken?] at h
  | cons c tail ih =>
      simp only [splitToken?] at h
      split at h
      · simp only [Option.some.injEq, Prod.mk.injEq] at h
        simp [h.2]
      · cases inner : splitToken? tail with
        | none => simp [inner] at h
        | some found =>
            simp only [inner, Option.map_some, Option.some.injEq, Prod.mk.injEq] at h
            have shorter := @ih found.1 (by rw [inner, ← h.2])
            simp only [List.length_cons]
            omega

theorem length_of_takeOne? {text rest : List Char} {d : Descriptor}
    (h : takeOne? text = some (d, rest)) : rest.length < text.length := by
  simp only [takeOne?] at h
  split at h
  · simp at h
  · split at h
    · simp at h
    · rename_i token tail split_eq
      have shorter := length_of_splitToken? split_eq
      have dropped : (text.dropWhile (· == '[')).length ≤ text.length :=
        (List.dropWhile_suffix _).length_le
      split at h
      · simp at h
      · split at h
        · simp at h
        · simp only [Option.some.injEq, Prod.mk.injEq] at h
          rw [← h.2]
          omega

def parse? (text : String) : Option Descriptor :=
  match takeOne? text.toList with
  | some (d, []) => some d
  | _ => none

/-- Reads a text that is a row of descriptors, none of them `void;`. -/
def parseAll? (text : List Char) : Option (List Descriptor) :=
  match text with
  | [] => some []
  | c :: tail =>
      match _h : takeOne? (c :: tail) with
      | none => none
      | some (d, rest) => if d.isVoid then none else (parseAll? rest).map (d :: ·)
termination_by text.length
decreasing_by exact length_of_takeOne? ‹_›

def parse (text : String) : Except Fault Descriptor :=
  match parse? text with
  | some d => .ok d
  | none => .error (.malformedDescriptor text)

def parseList (text : String) : Except Fault (List Descriptor) :=
  match parseAll? text.toList with
  | some params => .ok params
  | none => .error (.malformedDescriptor text)

end StackMachine.Descriptor
