import Rapids.Lib.Run

/-!
# Rapids.Lib.Relate

**Two runs side by side.** Two partial computations are related by `Option.Rel r`
if both fail, or both succeed with results that `r` relates. The rules here follow
the shape of a computation (a bind, a map, a branch, a fold), so that relating two
runs of one program comes down to its primitive steps.
-/

namespace Rapids.Lib

section
variable {α β γ δ ε : Type} {r : α → β → Prop} {q : γ → δ → Prop}

variable {x : Option α} {y : Option β}

theorem rel_mono {r' : α → β → Prop} (h : Option.Rel r x y)
    (himp : ∀ a b, r a b → r' a b) : Option.Rel r' x y := by
  cases h with
  | none => exact .none
  | some hab => exact .some (himp _ _ hab)

theorem rel_bind {f : α → Option γ} {g : β → Option δ}
    (h : Option.Rel r x y) (hfg : ∀ a b, r a b → Option.Rel q (f a) (g b)) :
    Option.Rel q (x >>= f) (y >>= g) := by
  cases h with
  | none => exact .none
  | some hab => exact hfg _ _ hab

theorem rel_map {f : α → γ} {g : β → δ} (h : Option.Rel r x y)
    (hfg : ∀ a b, r a b → q (f a) (g b)) : Option.Rel q (x.map f) (y.map g) := by
  cases h with
  | none => exact .none
  | some hab => exact .some (hfg _ _ hab)

/-- A part of a computation that does not differ. -/
theorem rel_bind_same {x : Option ε} {f : ε → Option γ} {g : ε → Option δ}
    (hfg : ∀ a, Option.Rel q (f a) (g a)) : Option.Rel q (x >>= f) (x >>= g) := by
  cases x with
  | none => exact .none
  | some a => exact hfg a

/-- The same, with what is known of the part that does not differ. -/
theorem rel_bind_eq {x : Option ε} {f : ε → Option γ} {g : ε → Option δ}
    (hfg : ∀ a, x = some a → Option.Rel q (f a) (g a)) : Option.Rel q (x >>= f) (x >>= g) := by
  cases x with
  | none => exact .none
  | some a => exact hfg a rfl

/-- A branch that both runs take. -/
theorem rel_ite_of {c : Prop} [Decidable c] {x' : Option α} {y' : Option β}
    (h : c → Option.Rel r x y) (h' : ¬c → Option.Rel r x' y') :
    Option.Rel r (if c then x else x') (if c then y else y') := by
  split
  · exact h ‹_›
  · exact h' ‹_›

theorem rel_ite {c : Prop} [Decidable c] {x' : Option α} {y' : Option β}
    (h : Option.Rel r x y) (h' : Option.Rel r x' y') :
    Option.Rel r (if c then x else x') (if c then y else y') :=
  rel_ite_of (fun _ => h) fun _ => h'

/-- What is known of one result can be kept with the relation. -/
theorem rel_and {p : α → Prop} (h : Option.Rel r x y)
    (hp : ∀ a, x = some a → p a) : Option.Rel (fun a b => r a b ∧ p a) x y := by
  cases h with
  | none => exact .none
  | some hab => exact .some ⟨hab, hp _ rfl⟩

theorem rel_foldlM {f : α → ε → Option α} {g : β → ε → Option β}
    (hfg : ∀ a b e, r a b → Option.Rel r (f a e) (g b e)) {es : List ε} {a : α} {b : β}
    (h : r a b) : Option.Rel r (es.foldlM f a) (es.foldlM g b) := by
  induction es generalizing a b with
  | nil => exact .some h
  | cons e rest ih =>
    rw [List.foldlM_cons, List.foldlM_cons]
    exact rel_bind (hfg a b e h) fun _ _ => ih

end

end Rapids.Lib
