import Mathlib
import StackMachine.Descriptor.Parser

/-! # The grammar of descriptors

What descriptors look like, said without a parser, and that the parser accepts these texts and no
others. It takes from the front of a longer text what a descriptor takes there and leaves the rest,
so a row of descriptors falls apart in one way only, and rows can be read one after another.
-/

namespace StackMachine.Descriptor

/-! ## The grammar -/

def Digit (c : Char) : Prop := '0' ≤ c ∧ c ≤ '9'

instance (c : Char) : Decidable (Digit c) := inferInstanceAs (Decidable ('0' ≤ c ∧ c ≤ '9'))

def NameChar (c : Char) : Prop :=
  ('A' ≤ c ∧ c ≤ 'Z') ∨ ('a' ≤ c ∧ c ≤ 'z') ∨ Digit c ∨ c = '_' ∨ c = '.' ∨ c = '/'

instance (c : Char) : Decidable (NameChar c) :=
  inferInstanceAs (Decidable (('A' ≤ c ∧ c ≤ 'Z') ∨ ('a' ≤ c ∧ c ≤ 'z') ∨ Digit c ∨ c = '_'
    ∨ c = '.' ∨ c = '/'))

/-- The number that digits write, the ones last. Zeros in front do not count. -/
def numeral (digits : List Char) : Nat :=
  Nat.ofDigits 10 (digits.reverse.map fun c => c.toNat - '0'.toNat)

def signLetter (signed : Bool) : Char := if signed then 'I' else 'U'

/-- A sign letter and nothing but digits after it, perhaps none. -/
def IntegerShaped (token : List Char) : Prop :=
  ∃ (signed : Bool) (digits : List Char), token = signLetter signed :: digits
    ∧ ∀ c ∈ digits, Digit c

inductive Names : List Char → Descriptor → Prop where
  | bool : Names "B".toList .bool
  | string : Names "String".toList .string
  | void : Names "void".toList .void
  | letter (signed : Bool) : Names [signLetter signed] (.int ⟨signed, .w32⟩)
  | int (signed : Bool) (width : Width) {digits : List Char} (nonempty : digits ≠ [])
      (all : ∀ c ∈ digits, Digit c) (value : numeral digits = width.bits) :
      Names (signLetter signed :: digits) (.int ⟨signed, width⟩)
  | record {token : List Char} (nonempty : token ≠ []) (all : ∀ c ∈ token, NameChar c)
      (keyword : token ∉ ["B".toList, "String".toList, "void".toList])
      (integer : ¬ IntegerShaped token) : Names token (.record (String.ofList token))

/-- The text spells the type: at most 255 opening brackets, a token and a semicolon. There are no
arrays of `void`. -/
inductive Spells : List Char → Descriptor → Prop where
  | brackets {depth : Nat} {token : List Char} {base : Descriptor} (shallow : depth ≤ 255)
      (named : Names token base) (solid : 0 < depth → base ≠ .void) :
      Spells (List.replicate depth '[' ++ token ++ [';']) (Descriptor.array^[depth] base)

/-! ## Characters and numbers -/

theorem isDigit_iff {c : Char} : c.isDigit = true ↔ Digit c := by
  simp only [Char.isDigit, Digit, Char.le_def, ge_iff_le, Bool.and_eq_true, decide_eq_true_eq]

theorem isNameChar_iff {c : Char} : isNameChar c = true ↔ NameChar c := by
  simp only [isNameChar, Char.isAlphanum, Char.isAlpha, Char.isUpper, Char.isLower,
    Bool.or_eq_true, isDigit_iff, NameChar, Char.le_def, ge_iff_le, Bool.and_eq_true,
    decide_eq_true_eq, beq_iff_eq, or_assoc]

theorem all_isDigit_iff {digits : List Char} :
    digits.all Char.isDigit = true ↔ ∀ c ∈ digits, Digit c := by
  simp only [List.all_eq_true, isDigit_iff]

theorem all_isNameChar_iff {token : List Char} :
    token.all isNameChar = true ↔ ∀ c ∈ token, NameChar c := by
  simp only [List.all_eq_true, isNameChar_iff]

theorem numeral_concat (front : List Char) (c : Char) :
    numeral (front ++ [c]) = 10 * numeral front + (c.toNat - '0'.toNat) := by
  simp only [numeral, List.reverse_append, List.reverse_singleton, List.map_append,
    List.map_singleton, Nat.ofDigits_append, Nat.ofDigits_singleton, List.length_singleton,
    Nat.pow_one]
  exact Nat.add_comm _ _

theorem decimalValue_eq (digits : List Char) : decimalValue digits = numeral digits := by
  induction digits using List.reverseRecOn with
  | nil => rfl
  | append_singleton front c ih =>
      rw [numeral_concat, ← ih, decimalValue, List.foldl_append]
      rfl

theorem ofBits?_eq_some_iff {n : Nat} {width : Width} :
    Width.ofBits? n = some width ↔ n = width.bits := by
  constructor
  · intro found
    unfold Width.ofBits? at found
    split at found <;> cases found <;> rfl
  · rintro rfl
    cases width <;> rfl

theorem signOf?_eq_some_iff {c : Char} {signed : Bool} :
    signOf? c = some signed ↔ c = signLetter signed := by
  constructor
  · intro found
    unfold signOf? at found
    split at found <;> cases found <;> rfl
  · rintro rfl
    cases signed <;> rfl

/-! ## Tokens -/

theorem ofDigits?_eq_some_iff {signed : Bool} {digits : List Char} {d : Descriptor} :
    ofDigits? signed digits = some d
      ↔ (digits = [] ∧ d = .int ⟨signed, .w32⟩)
        ∨ (digits ≠ [] ∧ ∃ width : Width, numeral digits = width.bits
            ∧ d = .int ⟨signed, width⟩) := by
  unfold ofDigits?
  by_cases none : digits = []
  · simp [none, eq_comm]
  · have filled : digits.isEmpty = false := by simpa using none
    simp only [filled, none, decimalValue_eq, Option.map_eq_some_iff, ofBits?_eq_some_iff,
      Bool.false_eq_true, if_false, false_and, false_or, ne_eq, not_false_eq_true, true_and]
    exact exists_congr fun width => and_congr_right fun _ => eq_comm

theorem ofName?_eq_some_iff {token : List Char} {d : Descriptor} :
    ofName? token = some d ↔ (∀ c ∈ token, NameChar c) ∧ d = .record (String.ofList token) := by
  unfold ofName?
  by_cases all : token.all isNameChar = true
  · rw [if_pos all, Option.some.injEq, and_iff_right (all_isNameChar_iff.mp all), eq_comm]
  · rw [if_neg all, ← all_isNameChar_iff]
    simp [all]

theorem ofToken?_of_integerShaped {signed : Bool} {digits : List Char}
    (all : ∀ c ∈ digits, Digit c) :
    ofToken? (signLetter signed :: digits) = ofDigits? signed digits := by
  have sign : signOf? (signLetter signed) = some signed := signOf?_eq_some_iff.mpr rfl
  have read : digits.all Char.isDigit = true := all_isDigit_iff.mpr all
  have keyword : signLetter signed ≠ 'B' ∧ signLetter signed ≠ 'S' ∧ signLetter signed ≠ 'v' := by
    cases signed <;> decide
  simp [ofToken?, sign, read, keyword]

theorem ofToken?_of_name {token : List Char} (nonempty : token ≠ [])
    (keyword : token ∉ ["B".toList, "String".toList, "void".toList])
    (integer : ¬ IntegerShaped token) : ofToken? token = ofName? token := by
  cases token with
  | nil => exact absurd rfl nonempty
  | cons first digits =>
      have bool : first :: digits ≠ ['B'] := fun same => keyword (by simp [same])
      have string : first :: digits ≠ ['S', 't', 'r', 'i', 'n', 'g'] := fun same =>
        keyword (by simp [same])
      have void : first :: digits ≠ ['v', 'o', 'i', 'd'] := fun same => keyword (by simp [same])
      simp only [ofToken?]
      rw [if_neg bool, if_neg string, if_neg void]
      cases sign : signOf? first with
      | none => rfl
      | some signed =>
          have other : ¬ digits.all Char.isDigit = true := by
            intro all
            rw [signOf?_eq_some_iff.mp sign] at integer
            exact integer ⟨signed, digits, rfl, all_isDigit_iff.mp all⟩
          simp only [if_neg other]

theorem ofToken?_eq_some_iff {token : List Char} {d : Descriptor} :
    ofToken? token = some d ↔ Names token d := by
  constructor
  · intro found
    by_cases keyword : token ∈ ["B".toList, "String".toList, "void".toList]
    · simp only [List.mem_cons, List.not_mem_nil, or_false] at keyword
      rcases keyword with rfl | rfl | rfl
      · cases found
        exact .bool
      · cases found
        exact .string
      · cases found
        exact .void
    · by_cases integer : IntegerShaped token
      · obtain ⟨signed, digits, rfl, all⟩ := integer
        rw [ofToken?_of_integerShaped all] at found
        rcases ofDigits?_eq_some_iff.mp found with ⟨rfl, rfl⟩ | ⟨nonempty, width, value, rfl⟩
        · exact .letter signed
        · exact .int signed width nonempty all value
      · have nonempty : token ≠ [] := by
          rintro rfl
          cases found
        rw [ofToken?_of_name nonempty keyword integer] at found
        obtain ⟨all, rfl⟩ := ofName?_eq_some_iff.mp found
        exact .record nonempty all keyword integer
  · intro named
    cases named with
    | bool => rfl
    | string => rfl
    | void => rfl
    | letter signed =>
        rw [ofToken?_of_integerShaped (by simp)]
        rfl
    | int signed width nonempty all value =>
        rw [ofToken?_of_integerShaped all]
        exact ofDigits?_eq_some_iff.mpr (.inr ⟨nonempty, width, value, rfl⟩)
    | record nonempty all keyword integer =>
        rw [ofToken?_of_name nonempty keyword integer]
        exact ofName?_eq_some_iff.mpr ⟨all, rfl⟩

/-! ## One descriptor at the front of a text -/

theorem NameChar.ne_separator {c : Char} (name : NameChar c) : c ≠ ';' ∧ c ≠ '[' := by
  constructor <;> rintro rfl <;> revert name <;> decide

theorem Names.nameChars {token : List Char} {base : Descriptor} (named : Names token base) :
    ∀ c ∈ token, NameChar c := by
  cases named with
  | bool => exact all_isNameChar_iff.mp rfl
  | string => exact all_isNameChar_iff.mp rfl
  | void => exact all_isNameChar_iff.mp rfl
  | letter signed => cases signed <;> exact all_isNameChar_iff.mp rfl
  | int signed width nonempty all value =>
      intro c member
      rcases List.mem_cons.mp member with rfl | later
      · cases signed <;> decide
      · exact .inr (.inr (.inl (all c later)))
  | record nonempty all keyword integer => exact all

theorem splitToken?_eq_some_iff {text token rest : List Char} :
    splitToken? text = some (token, rest) ↔ text = token ++ ';' :: rest ∧ ';' ∉ token := by
  induction text generalizing token with
  | nil => simp [splitToken?]
  | cons c tail ih =>
      unfold splitToken?
      by_cases semicolon : c = ';'
      · rw [if_pos semicolon, semicolon]
        cases token with
        | nil => simp
        | cons first more =>
            constructor
            · intro split
              cases split
            · rintro ⟨same, absent⟩
              cases same
              exact absurd List.mem_cons_self absent
      · rw [if_neg semicolon, Option.map_eq_some_iff]
        cases token with
        | nil => simp [semicolon]
        | cons first more =>
            constructor
            · rintro ⟨⟨before, after⟩, split, same⟩
              cases same
              obtain ⟨rfl, absent⟩ := ih.mp split
              exact ⟨rfl, by simp [Ne.symm semicolon, absent]⟩
            · rintro ⟨same, absent⟩
              cases same
              have later : ';' ∉ more := fun member => absent (List.mem_cons_of_mem _ member)
              exact ⟨(more, rest), ih.mpr ⟨rfl, later⟩, rfl⟩

theorem isVoid_iff {d : Descriptor} : d.isVoid = true ↔ d = .void := by
  cases d <;> simp [isVoid]

theorem nest_eq_iterate (base : Descriptor) (depth : Nat) :
    nest base depth = Descriptor.array^[depth] base := by
  induction depth with
  | zero => rfl
  | succ depth ih => rw [nest, ih, Function.iterate_succ_apply']

/-- What the parser makes of the depth, the token and the rest of the text. -/
theorem takeOne?_eq_some {text rest : List Char} {d : Descriptor} :
    takeOne? text = some (d, rest)
      ↔ ∃ (token : List Char) (base : Descriptor),
          (text.takeWhile (· == '[')).length ≤ 255
          ∧ splitToken? (text.dropWhile (· == '[')) = some (token, rest)
          ∧ Names token base
          ∧ (0 < (text.takeWhile (· == '[')).length → base ≠ .void)
          ∧ d = Descriptor.array^[(text.takeWhile (· == '[')).length] base := by
  constructor
  · intro found
    simp only [takeOne?] at found
    by_cases deep : (text.takeWhile (· == '[')).length > maxDepth
    · simp [deep] at found
    · cases split : splitToken? (text.dropWhile (· == '[')) with
      | none => simp [split] at found
      | some parts =>
          cases read : ofToken? parts.1 with
          | none => simp [split, read] at found
          | some base =>
              simp only [if_neg deep, split, read, Bool.and_eq_true, decide_eq_true_eq,
                Option.ite_none_left_eq_some, Option.some.injEq, Prod.mk.injEq] at found
              obtain ⟨solid, rfl, rfl⟩ := found
              refine ⟨parts.1, base, Nat.not_lt.mp deep, rfl, ofToken?_eq_some_iff.mp read, ?_,
                nest_eq_iterate base _⟩
              intro nested void
              exact solid ⟨nested, isVoid_iff.mpr void⟩
  · rintro ⟨token, base, shallow, split, named, solid, rfl⟩
    have whole : ¬ ((text.takeWhile (· == '[')).length > 0 ∧ base.isVoid = true) := by
      rintro ⟨nested, void⟩
      exact solid nested (isVoid_iff.mp void)
    simp only [takeOne?, if_neg (Nat.not_lt.mpr shallow : ¬ _ > maxDepth), split,
      ofToken?_eq_some_iff.mpr named, Bool.and_eq_true, decide_eq_true_eq, if_neg whole,
      nest_eq_iterate]

/-- The token or the semicolon ends the run of brackets. -/
theorem Names.brackets_end {token : List Char} {base : Descriptor} (named : Names token base)
    (depth : Nat) (rest : List Char) :
    (List.replicate depth '[' ++ (token ++ ';' :: rest)).takeWhile (· == '[')
        = List.replicate depth '['
      ∧ (List.replicate depth '[' ++ (token ++ ';' :: rest)).dropWhile (· == '[')
          = token ++ ';' :: rest := by
  have stop : (token ++ ';' :: rest).takeWhile (· == '[') = [] := by
    cases token with
    | nil => simp
    | cons c more => simp [(named.nameChars c List.mem_cons_self).ne_separator.2]
  constructor
  · rw [List.takeWhile_append_of_pos (by simp), stop, List.append_nil]
  · rw [List.dropWhile_append_of_pos (by simp)]
    simpa only [stop, List.nil_append] using
      (token ++ ';' :: rest).takeWhile_append_dropWhile (p := (· == '['))

theorem takeOne?_eq_some_iff {text rest : List Char} {d : Descriptor} :
    takeOne? text = some (d, rest) ↔ ∃ front, Spells front d ∧ text = front ++ rest := by
  rw [takeOne?_eq_some]
  constructor
  · rintro ⟨token, base, shallow, split, named, solid, rfl⟩
    refine ⟨_, .brackets shallow named solid, ?_⟩
    have brackets : text.takeWhile (· == '[')
        = List.replicate (text.takeWhile (· == '[')).length '[' :=
      List.eq_replicate_of_mem fun c member => by simpa using List.mem_takeWhile_imp member
    rw [← brackets, List.append_assoc, List.append_assoc, List.singleton_append,
      ← (splitToken?_eq_some_iff.mp split).1, List.takeWhile_append_dropWhile]
  · rintro ⟨front, spelled, rfl⟩
    cases spelled with
    | @brackets depth token base shallow named solid =>
        have text : List.replicate depth '[' ++ token ++ [';'] ++ rest
            = List.replicate depth '[' ++ (token ++ ';' :: rest) := by simp
        have absent : ';' ∉ token := fun member => (named.nameChars _ member).ne_separator.1 rfl
        obtain ⟨run, left⟩ := named.brackets_end depth rest
        rw [text, run, left, List.length_replicate]
        exact ⟨token, base, shallow, splitToken?_eq_some_iff.mpr ⟨rfl, absent⟩, named, solid, rfl⟩

/-! ## Rows of descriptors -/

namespace Spells

variable {front front' rest rest' : List Char} {d d' : Descriptor}

theorem ne_nil (spelled : Spells front d) : front ≠ [] := by
  cases spelled with
  | brackets shallow named solid => simp

theorem takeOne?_append (spelled : Spells front d) (rest : List Char) :
    takeOne? (front ++ rest) = some (d, rest) :=
  takeOne?_eq_some_iff.mpr ⟨front, spelled, rfl⟩

/-- What a descriptor takes from the front of a text is determined by the text. -/
theorem front_unique (spelled : Spells front d) (spelled' : Spells front' d')
    (same : front ++ rest = front' ++ rest') : front = front' ∧ rest = rest' ∧ d = d' := by
  have first := spelled.takeOne?_append rest
  rw [same, spelled'.takeOne?_append rest'] at first
  cases first
  exact ⟨List.append_cancel_right same, rfl, rfl⟩

theorem type_unique (spelled : Spells front d) (spelled' : Spells front d') : d = d' :=
  (spelled.front_unique spelled' (rfl : front ++ [] = front ++ [])).2.2

theorem void : Spells "void;".toList .void := .brackets (Nat.zero_le _) .void (by simp)

theorem eq_void_iff (spelled : Spells front d) : d = .void ↔ front = "void;".toList := by
  constructor
  · rintro rfl
    generalize typed : Descriptor.void = d at spelled
    cases spelled with
    | @brackets depth token base shallow named solid =>
        cases depth with
        | zero =>
            rw [Function.iterate_zero, id] at typed
            subst typed
            cases named
            rfl
        | succ depth =>
            rw [Function.iterate_succ_apply'] at typed
            cases typed
  · rintro rfl
    exact spelled.type_unique void

end Spells

theorem parseAll?_of_takeOne? {text rest : List Char} {d : Descriptor}
    (one : takeOne? text = some (d, rest)) (solid : d ≠ .void) :
    parseAll? text = (parseAll? rest).map (d :: ·) := by
  cases text with
  | nil =>
      obtain ⟨front, spelled, empty⟩ := takeOne?_eq_some_iff.mp one
      exact absurd (List.append_eq_nil_iff.mp empty.symm).1 spelled.ne_nil
  | cons c tail =>
      have whole : ¬ d.isVoid = true := fun void => solid (isVoid_iff.mp void)
      rw [parseAll?]
      split
      · rename_i none
        rw [none] at one
        cases one
      · rename_i d' rest' found
        rw [found] at one
        cases one
        rw [if_neg whole]

theorem parseAll?_eq_some_iff {text : List Char} {ds : List Descriptor} :
    parseAll? text = some ds
      ↔ ∃ parts, List.Forall₂ Spells parts ds ∧ "void;".toList ∉ parts ∧ text = parts.flatten := by
  constructor
  · intro read
    fun_induction parseAll? text generalizing ds with
    | case1 =>
        cases read
        exact ⟨[], .nil, by simp, rfl⟩
    | case2 => cases read
    | case3 => cases read
    | case4 c tail d rest one solid ih =>
        obtain ⟨others, later, rfl⟩ := Option.map_eq_some_iff.mp read
        obtain ⟨parts, spelled, solids, rfl⟩ := ih later
        obtain ⟨front, first, split⟩ := takeOne?_eq_some_iff.mp one
        have whole : "void;".toList ≠ front := fun same =>
          solid (isVoid_iff.mpr (first.eq_void_iff.mpr same.symm))
        exact ⟨front :: parts, .cons first spelled, List.not_mem_cons_of_ne_of_not_mem whole solids,
          split⟩
  · rintro ⟨parts, spelled, solids, rfl⟩
    induction spelled with
    | nil => simp [parseAll?]
    | cons first later ih =>
        have solid := fun void => List.ne_of_not_mem_cons solids (first.eq_void_iff.mp void).symm
        rw [List.flatten_cons, parseAll?_of_takeOne? (first.takeOne?_append _) solid,
          ih (List.not_mem_of_not_mem_cons solids), Option.map_some]

/-- Texts that are descriptors can be told apart after they are joined. -/
theorem flatten_injective {parts parts' : List (List Char)}
    (spelled : ∀ part ∈ parts, ∃ d, Spells part d) (spelled' : ∀ part ∈ parts', ∃ d, Spells part d)
    (same : parts.flatten = parts'.flatten) : parts = parts' := by
  induction parts generalizing parts' with
  | nil =>
      cases parts' with
      | nil => rfl
      | cons front' rest' =>
          obtain ⟨d', first'⟩ := spelled' front' List.mem_cons_self
          exact absurd (List.append_eq_nil_iff.mp same.symm).1 first'.ne_nil
  | cons front rest ih =>
      obtain ⟨d, first⟩ := spelled front List.mem_cons_self
      cases parts' with
      | nil => exact absurd (List.append_eq_nil_iff.mp same).1 first.ne_nil
      | cons front' rest' =>
          obtain ⟨d', first'⟩ := spelled' front' List.mem_cons_self
          obtain ⟨rfl, later, _⟩ := first.front_unique first' same
          rw [ih (fun part member => spelled part (List.mem_cons_of_mem _ member))
            (fun part member => spelled' part (List.mem_cons_of_mem _ member)) later]

/-- The text is a row of texts that spell the types, none of them `void;`. -/
def SpellsRow (text : String) (ds : List Descriptor) : Prop :=
  ∃ parts : List String, text = String.join parts
    ∧ List.Forall₂ (fun part d => Spells part.toList d) parts ds ∧ "void;" ∉ parts

theorem parse_eq_ok_iff {text : String} {d : Descriptor} :
    parse text = .ok d ↔ Spells text.toList d := by
  have whole : parse? text = some d ↔ takeOne? text.toList = some (d, []) := by
    unfold parse?
    split
    · rename_i d' found
      simp [found]
    · rename_i other
      simpa using fun found => other d found
  have shown : parse text = .ok d ↔ parse? text = some d := by
    unfold parse
    cases parse? text <;> simp
  rw [shown, whole, takeOne?_eq_some_iff]
  simp

theorem parseList_eq_ok_iff {text : String} {ds : List Descriptor} :
    parseList text = .ok ds ↔ SpellsRow text ds := by
  have shown : parseList text = .ok ds ↔ parseAll? text.toList = some ds := by
    unfold parseList
    cases parseAll? text.toList <;> simp
  rw [shown, parseAll?_eq_some_iff]
  constructor
  · rintro ⟨parts, spelled, solid, joined⟩
    obtain ⟨texts, rfl⟩ : ∃ texts : List String, texts.map String.toList = parts :=
      ⟨parts.map String.ofList, by simp⟩
    refine ⟨texts, ?_, List.forall₂_map_left_iff.mp spelled, ?_⟩
    · rw [← String.toList_inj, joined, String.toList_join, List.flatMap_def]
    · exact fun member => solid (List.mem_map_of_mem member)
  · rintro ⟨texts, rfl, spelled, solid⟩
    refine ⟨texts.map String.toList, List.forall₂_map_left_iff.mpr spelled, ?_, ?_⟩
    · rwa [List.mem_map_of_injective fun _ _ => String.toList_injective]
    · rw [String.toList_join, List.flatMap_def]

theorem parse_eq_error_iff {text : String} {fault : Fault} :
    parse text = .error fault
      ↔ fault = .malformedDescriptor text ∧ ∀ d, parse text ≠ .ok d := by
  unfold parse
  cases parse? text with
  | none => simp [eq_comm]
  | some d => simp

theorem parseList_eq_error_iff {text : String} {fault : Fault} :
    parseList text = .error fault
      ↔ fault = .malformedDescriptor text ∧ ∀ ds, parseList text ≠ .ok ds := by
  unfold parseList
  cases parseAll? text.toList with
  | none => simp [eq_comm]
  | some ds => simp

theorem SpellsRow.append {a b : String} {ds es : List Descriptor} (left : SpellsRow a ds)
    (right : SpellsRow b es) : SpellsRow (a ++ b) (ds ++ es) := by
  obtain ⟨parts, rfl, spelled, solid⟩ := left
  obtain ⟨parts', rfl, spelled', solid'⟩ := right
  refine ⟨parts ++ parts', ?_, List.rel_append spelled spelled', ?_⟩
  · apply String.toList_injective
    simp only [String.toList_append, String.toList_join, List.flatMap_append]
  · exact fun member => (List.mem_append.mp member).elim solid solid'

/-- A text is read as a descriptor exactly if it spells one, and as the type that it spells; any
other text is malformed. A text is read as a row of descriptors exactly if it is one. It is one in
a single way, and rows of descriptors can be joined. -/
theorem descriptors_are_read_as_spelled :
    (∀ (text : String) (d : Descriptor), parse text = .ok d ↔ Spells text.toList d)
      ∧ (∀ (text : String) (fault : Fault), parse text = .error fault
          ↔ fault = .malformedDescriptor text ∧ ∀ d, ¬ Spells text.toList d)
      ∧ (∀ (text : String) (ds : List Descriptor), parseList text = .ok ds ↔ SpellsRow text ds)
      ∧ (∀ (text : String) (fault : Fault), parseList text = .error fault
          ↔ fault = .malformedDescriptor text ∧ ∀ ds, ¬ SpellsRow text ds)
      ∧ Set.InjOn String.join {parts | ∀ part ∈ parts, ∃ d, Spells part.toList d}
      ∧ ∀ (a b : String) (ds es : List Descriptor), parseList a = .ok ds → parseList b = .ok es →
          parseList (a ++ b) = .ok (ds ++ es) := by
  refine ⟨fun _ _ => parse_eq_ok_iff, ?_, fun _ _ => parseList_eq_ok_iff, ?_, ?_, ?_⟩
  · intro text fault
    simp only [parse_eq_error_iff, ne_eq, parse_eq_ok_iff]
  · intro text fault
    simp only [parseList_eq_error_iff, ne_eq, parseList_eq_ok_iff]
  · intro parts spelled parts' spelled' same
    have chars := congrArg String.toList same
    rw [String.toList_join, String.toList_join, List.flatMap_def, List.flatMap_def] at chars
    refine List.map_injective_iff.mpr (fun _ _ => String.toList_injective)
      (flatten_injective ?_ ?_ chars)
    · simpa using spelled
    · simpa using spelled'
  · intro a b ds es left right
    rw [parseList_eq_ok_iff] at left right ⊢
    exact left.append right

/-- A width with zeros in front, and a name that begins like an integer type. -/
theorem padded_widths_and_names_are_joined :
    parseList "[[U0064;" = .ok [.array (.array (.int .u64))]
      ∧ parseList "I64.x;B;" = .ok [.record "I64.x", .bool]
      ∧ parseList ("[[U0064;" ++ "I64.x;B;")
          = .ok [.array (.array (.int .u64)), .record "I64.x", .bool] := by
  have left : parseList "[[U0064;" = .ok [.array (.array (.int .u64))] := by cbv
  have right : parseList "I64.x;B;" = .ok [.record "I64.x", .bool] := by cbv
  obtain ⟨_, _, _, _, _, joined⟩ := descriptors_are_read_as_spelled
  exact ⟨left, right, joined _ _ _ _ left right⟩

end StackMachine.Descriptor
