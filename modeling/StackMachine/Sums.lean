/-! # Sums over lists -/

namespace StackMachine

/-- Replacing an item takes its share from the sum and adds the new one. -/
theorem foldr_add_set {α : Type} (g : α → Nat) (l : List α) (i : Nat) (a : α)
    (h : i < l.length) :
    (l.set i a).foldr (fun b total => g b + total) 0 + g l[i]
      = l.foldr (fun b total => g b + total) 0 + g a := by
  induction l generalizing i with
  | nil => simp at h
  | cons b rest ih =>
      cases i with
      | zero =>
          simp only [List.set_cons_zero, List.foldr_cons, List.getElem_cons_zero]
          omega
      | succ i =>
          have step := ih i (by simpa using h)
          simp only [List.set_cons_succ, List.foldr_cons, List.getElem_cons_succ]
          omega

end StackMachine
