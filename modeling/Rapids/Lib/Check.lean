/-!
# Rapids.Lib.Check

**Checks that may go wrong.** A check is an `Option Bool`: it accepts, refuses, or
goes wrong, which is `none`. Checks are made one after the other (`andThen`), and
a check that is not reached cannot go wrong.
-/

namespace Rapids.Lib

/-- Make the second check if the first one accepts. -/
def andThen (x y : Option Bool) : Option Bool :=
  x.bind fun ok => if ok then y else some false

variable {x y : Option Bool} {b : Bool}

@[simp] theorem andThen_none : andThen none y = none := rfl

@[simp] theorem andThen_true : andThen (some true) y = y := rfl

@[simp] theorem andThen_false : andThen (some false) y = some false := rfl

/-- The second check goes wrong only if it is reached. -/
@[simp] theorem andThen_eq_none : andThen x y = none ↔ x = none ∨ x = some true ∧ y = none := by
  cases x with
  | none => simp
  | some ok => cases ok <;> simp

@[simp] theorem andThen_eq_true : andThen x y = some true ↔ x = some true ∧ y = some true := by
  cases x with
  | none => simp
  | some ok => cases ok <;> simp

/-- A check made in some case only. -/
theorem ite_some_true_eq_none {c : Prop} [Decidable c] :
    (if c then x else some true) = none ↔ c ∧ x = none := by
  split <;> simp_all

end Rapids.Lib
