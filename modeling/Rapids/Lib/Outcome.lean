import Mathlib.Tactic.SplitIfs

/-!
# Rapids.Lib.Outcome

**Postconditions of partial computations.** `Every P x` says that the result of
`x`, if there is one, satisfies `P`. The rules follow the shape of a computation,
so that a fact about a program comes down to its primitive steps; a step whose
result does not matter is passed by `every_bind_any`.
-/

namespace Rapids.Lib

section
variable {α β : Type} {P Q : α → Prop} {R : β → Prop}

/-- Does every result of the computation satisfy `P`? -/
def Every (P : α → Prop) (x : Option α) : Prop := ∀ a, x = some a → P a

theorem every_none : Every P none := fun _ h => absurd h.symm (Option.some_ne_none _)

theorem every_some {a : α} (h : P a) : Every P (some a) := fun _ ha => Option.some.inj ha ▸ h

variable {x : Option α}

theorem every_mono (h : Every P x) (himp : ∀ a, P a → Q a) : Every Q x :=
  fun a ha => himp a (h a ha)

theorem every_bind {f : α → Option β} (h : Every P x)
    (hf : ∀ a, P a → Every R (f a)) : Every R (x >>= f) := by
  cases x with
  | none => exact every_none
  | some a => exact hf a (h a rfl)

/-- The rest of a computation, where it does not matter how it got there. -/
theorem every_bind_any {f : α → Option β} (hf : ∀ a, x = some a → Every R (f a)) :
    Every R (x >>= f) :=
  every_bind (fun _ ha => ha) hf

theorem every_map {f : α → β} (h : Every P x) (hf : ∀ a, P a → R (f a)) :
    Every R (x.map f) := by
  cases x with
  | none => exact every_none
  | some a => exact every_some (hf a (h a rfl))

theorem every_ite {c : Prop} [Decidable c] {y : Option α} (hx : c → Every P x)
    (hy : ¬c → Every P y) : Every P (if c then x else y) := by
  split_ifs with hc
  · exact hx hc
  · exact hy hc

end

end Rapids.Lib
