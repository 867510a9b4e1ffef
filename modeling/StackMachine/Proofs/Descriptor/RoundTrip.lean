import Mathlib
import StackMachine.Proofs.Descriptor.Grammar
import StackMachine.Proofs.Registration

/-! # Descriptors are read back as they are rendered

Several texts spell one type, and rendering picks one of them. So what was read can be rendered and
read again, types that were read can be told apart by their texts, and the signature that is printed
for a function says its types.
-/

namespace StackMachine

namespace Descriptor

/-! ## Rendering -/

theorem numeral_bits (width : Width) :
    (toString width.bits).toList ≠ [] ∧ (∀ c ∈ (toString width.bits).toList, Digit c)
      ∧ numeral (toString width.bits).toList = width.bits := by
  rw [← all_isDigit_iff]
  cases width <;> decide

theorem names_int (kind : IntKind) : Names kind.name.toList (.int kind) := by
  obtain ⟨nonempty, all, value⟩ := numeral_bits kind.width
  have letter : kind.name.toList = signLetter kind.signed :: (toString kind.width.bits).toList := by
    rw [IntKind.name, String.toList_append]
    cases kind.signed <;> rfl
  rw [letter]
  exact .int kind.signed kind.width nonempty all value

/-- The token that a type is rendered with. -/
theorem Names.rendered {token : List Char} {base : Descriptor} (named : Names token base) :
    ∃ token', Names token' base ∧ base.text.toList = token' ++ [';'] := by
  cases named with
  | bool => exact ⟨_, .bool, rfl⟩
  | string => exact ⟨_, .string, rfl⟩
  | void => exact ⟨_, .void, rfl⟩
  | letter signed => exact ⟨_, names_int ⟨signed, .w32⟩, String.toList_append⟩
  | int signed width nonempty all value =>
      exact ⟨_, names_int ⟨signed, width⟩, String.toList_append⟩
  | record nonempty all keyword integer =>
      refine ⟨token, .record nonempty all keyword integer, ?_⟩
      rw [text, String.toList_append, String.toList_ofList]
      rfl

theorem text_iterate_array (depth : Nat) (base : Descriptor) :
    (Descriptor.array^[depth] base).text.toList
      = List.replicate depth '[' ++ base.text.toList := by
  induction depth with
  | zero => rfl
  | succ depth ih =>
      rw [Function.iterate_succ_apply', text, String.toList_append, ih]
      rfl

/-- What a text spells is spelled by its rendering too. -/
theorem Spells.text {front : List Char} {d : Descriptor} (spelled : Spells front d) :
    Spells d.text.toList d := by
  cases spelled with
  | brackets shallow named solid =>
      obtain ⟨token', named', rendered⟩ := named.rendered
      rw [text_iterate_array, rendered, ← List.append_assoc]
      exact .brackets shallow named' solid

/-- The renderings spell the types one by one, and only what was `void;` is rendered so. -/
theorem spells_texts {parts : List String} {ds : List Descriptor}
    (each : List.Forall₂ (fun part d => Spells part.toList d) parts ds) :
    List.Forall₂ (fun part d => Spells part.toList d) (ds.map Descriptor.text) ds
      ∧ ("void;" ∈ ds.map Descriptor.text → "void;" ∈ parts) := by
  induction each with
  | nil => exact ⟨.nil, id⟩
  | cons first later ih =>
      refine ⟨.cons first.text ih.1, fun member => ?_⟩
      rcases List.mem_cons.mp member with void | among
      · have typed := first.text.eq_void_iff.mpr (congrArg String.toList void.symm)
        have here := String.toList_injective (first.eq_void_iff.mp typed)
        exact here ▸ List.mem_cons_self
      · exact List.mem_cons_of_mem _ (ih.2 among)

theorem SpellsRow.listText {text : String} {ds : List Descriptor} (spelled : SpellsRow text ds) :
    SpellsRow (listText ds) ds := by
  obtain ⟨parts, rfl, each, solid⟩ := spelled
  obtain ⟨rendered, void⟩ := spells_texts each
  exact ⟨ds.map Descriptor.text, rfl, rendered, fun member => solid (void member)⟩

theorem parse_text {text : String} {d : Descriptor} (read : parse text = .ok d) :
    parse d.text = .ok d :=
  parse_eq_ok_iff.mpr (parse_eq_ok_iff.mp read).text

theorem parseList_listText {text : String} {ds : List Descriptor}
    (read : parseList text = .ok ds) : parseList (listText ds) = .ok ds :=
  parseList_eq_ok_iff.mpr (parseList_eq_ok_iff.mp read).listText

/-! ## Signatures -/

theorem Spells.parenthesis_not_mem {front : List Char} {d : Descriptor}
    (spelled : Spells front d) : ')' ∉ front := by
  cases spelled with
  | @brackets depth token base shallow named solid =>
      have name : ')' ∉ token := fun member => absurd (named.nameChars _ member) (by decide)
      simp [name]

theorem SpellsRow.parenthesis_not_mem {text : String} {ds : List Descriptor}
    (spelled : SpellsRow text ds) : ')' ∉ text.toList := by
  obtain ⟨parts, rfl, each, solid⟩ := spelled
  clear solid
  rw [String.toList_join]
  induction each with
  | nil => simp
  | cons first later ih =>
      rw [List.flatMap_cons, List.mem_append, not_or]
      exact ⟨first.parenthesis_not_mem, ih⟩

end Descriptor

/-- The text is a signature of the types, in whatever spelling. -/
def ReadsSignature (text : String) (params : List Descriptor) (result : Descriptor) : Prop :=
  ∃ a b : String, text = "(" ++ a ++ ") -> " ++ b
    ∧ Descriptor.parseList a = .ok params ∧ Descriptor.parse b = .ok result

theorem Program.Resolves.readsSignature_iff {p : Program} {f : LinkedFunction}
    (resolved : p.Resolves f) (params : List Descriptor) (result : Descriptor) :
    ReadsSignature f.signature params result ↔ params = f.params ∧ result = f.result := by
  obtain ⟨_, _, listed⟩ := bind_eq_ok.mp resolved.params
  obtain ⟨_, _, described⟩ := bind_eq_ok.mp resolved.result
  have printed := Descriptor.parseList_listText listed
  have printed' := Descriptor.parse_text described
  constructor
  · rintro ⟨a, b, same, read, read'⟩
    have before := (Descriptor.parseList_eq_ok_iff.mp printed).parenthesis_not_mem
    have after : ')' ∉ " -> ".toList ++ f.result.text.toList := by
      have one := (Descriptor.parse_eq_ok_iff.mp printed').parenthesis_not_mem
      simp [one]
    have split : (Descriptor.listText f.params).toList
          ++ ')' :: (" -> ".toList ++ f.result.text.toList)
        = a.toList ++ ')' :: (" -> ".toList ++ b.toList) := by
      have chars := congrArg String.toList same
      simpa [LinkedFunction.signature] using chars
    obtain ⟨row, _, rest⟩ := (List.append_cons_inj_of_notMem before after).mp split
    rw [← String.toList_injective row, printed] at read
    rw [← String.toList_injective (List.append_cancel_left rest), printed'] at read'
    cases read
    cases read'
    exact ⟨rfl, rfl⟩
  · rintro ⟨rfl, rfl⟩
    exact ⟨_, _, rfl, printed, printed'⟩

/-- What was read from any text is read again from its rendering, types and rows of types that were
read have different renderings, and the signature of any function of a program that was built by
registering records is a signature of its types and of no others. -/
theorem rendered_types_are_read_back :
    (∀ (text : String) (d : Descriptor), Descriptor.parse text = .ok d →
        Descriptor.parse d.text = .ok d)
      ∧ (∀ (text : String) (ds : List Descriptor), Descriptor.parseList text = .ok ds →
          Descriptor.parseList (Descriptor.listText ds) = .ok ds)
      ∧ Set.InjOn Descriptor.text {d | ∃ text, Descriptor.parse text = .ok d}
      ∧ Set.InjOn Descriptor.listText {ds | ∃ text, Descriptor.parseList text = .ok ds}
      ∧ ∀ p : Program, Program.empty.GrowsTo p → ∀ f ∈ p.functions, ∀ params result,
          ReadsSignature f.signature params result ↔ params = f.params ∧ result = f.result := by
  refine ⟨fun _ _ => Descriptor.parse_text, fun _ _ => Descriptor.parseList_listText, ?_, ?_, ?_⟩
  · rintro d ⟨_, read⟩ d' ⟨_, read'⟩ same
    have again := Descriptor.parse_text read
    rw [same, Descriptor.parse_text read'] at again
    exact (Except.ok.inj again).symm
  · rintro ds ⟨_, read⟩ ds' ⟨_, read'⟩ same
    have again := Descriptor.parseList_listText read
    rw [same, Descriptor.parseList_listText read'] at again
    exact (Except.ok.inj again).symm
  · intro p built f member
    exact ((built.consistent .empty).functions f member).readsSignature_iff

/-! A function whose types are written in spellings that are not the rendered ones. -/

namespace Respelled

def records : List Registration :=
  [.constant (.ofString "Sum"), .constant (.ofString "I;[U016;"), .constant (.ofString "I032;"),
    .function ⟨0, 1, 2, 0, 2, #[]⟩]

def program : Program := Program.empty.registerAll records

def sum : LinkedFunction :=
  ⟨"Sum", ⟨0, 1, 2, 0, 2, #[]⟩, [.int .i32, .array (.int .u16)], .int .i32⟩

theorem registered : sum ∈ program.functions := by
  have functions : program.functions = #[sum] := by cbv
  simp [functions]

theorem signature_says_its_types :
    sum.signature = "(I32;[U16;) -> I32;"
      ∧ Descriptor.parse "I032;" = .ok (.int .i32) ∧ Descriptor.parse "I32;" = .ok (.int .i32)
      ∧ Descriptor.parseList "I;[U016;" = .ok [.int .i32, .array (.int .u16)]
      ∧ Descriptor.parseList "I32;[U16;" = .ok [.int .i32, .array (.int .u16)]
      ∧ ReadsSignature "(I32;[U16;) -> I32;" [.int .i32, .array (.int .u16)] (.int .i32) := by
  obtain ⟨one, row, _, _, signatures⟩ := rendered_types_are_read_back
  have read : Descriptor.parse "I032;" = .ok (.int .i32) := by cbv
  have listed : Descriptor.parseList "I;[U016;" = .ok [.int .i32, .array (.int .u16)] := by cbv
  have printed : sum.signature = "(I32;[U16;) -> I32;" := by cbv
  have said := signatures program ⟨records, rfl⟩ sum registered sum.params sum.result
  rw [printed] at said
  exact ⟨printed, read, one _ _ read, listed, row _ _ listed, said.mpr ⟨rfl, rfl⟩⟩

end Respelled

end StackMachine
