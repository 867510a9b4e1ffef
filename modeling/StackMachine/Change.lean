/-! # Changes that may stop

A change of a state may stop at an error. What it changed before stays changed.
-/

namespace StackMachine

abbrev Change (σ ε : Type) := ExceptT ε (StateM σ)

namespace Change

variable {σ ε α β : Type}

/-- The state that the change leaves, also where it stops, and its result. -/
def apply (change : Change σ ε α) (s : σ) : σ × Except ε α := (change.run.run s).swap

def ofFunction (f : σ → σ × Except ε α) : Change σ ε α := do
  let (s, result) := f (← get)
  set s
  result

section Checks

variable (check : σ → Except ε α) {k : α → Change σ ε β} {s : σ}

theorem apply_check_of_ok {a : α} (passed : check s = .ok a) :
    ((get : Change σ ε σ) >>= fun s => (liftM (check s) : Change σ ε α) >>= k).apply s
      = (k a).apply s := by
  have checked : (liftM (check s) : Change σ ε α) = pure a := by
    rw [passed]
    rfl
  change ((liftM (check s) : Change σ ε α) >>= k).apply s = _
  rw [checked]
  rfl

/-- A check that fails stops a change where it stands. -/
theorem apply_check_of_error {e : ε} (failed : check s = .error e) :
    ((get : Change σ ε σ) >>= fun s => (liftM (check s) : Change σ ε α) >>= k).apply s
      = (s, .error e) := by
  have checked : (liftM (check s) : Change σ ε α) = throw e := by
    rw [failed]
    rfl
  change ((liftM (check s) : Change σ ε α) >>= k).apply s = _
  rw [checked]
  rfl

end Checks

end Change

end StackMachine
