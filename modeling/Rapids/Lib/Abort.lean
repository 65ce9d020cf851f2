import Mathlib.Tactic.SplitIfs

/-!
# Rapids.Lib.Abort

**Named failures.** A computation in `Option` that fails at one of several
assertions does not say at which one. Written in `Except`, with a name for each
assertion (`named`), it does, and `toOption` gives the first one back. `Avoids`
says that the computation does not fail at certain names; its rules follow the
shape of the computation.
-/

namespace Rapids.Lib

variable {ε α β : Type}

/-- A step that may fail, with the name of its failure. -/
def named (why : ε) : Option α → Except ε α
  | none => .error why
  | some a => .ok a

@[simp] theorem toOption_named (why : ε) (x : Option α) : (named why x).toOption = x := by
  cases x with
  | none => rfl
  | some a => rfl

@[simp] theorem toOption_ok (a : α) : (Except.ok a : Except ε α).toOption = some a := rfl

@[simp] theorem toOption_pure (a : α) : (pure a : Except ε α).toOption = some a := rfl

@[simp] theorem toOption_bind (x : Except ε α) (f : α → Except ε β) :
    (x >>= f).toOption = x.toOption >>= fun a => (f a).toOption := by
  cases x with
  | error why => rfl
  | ok a => rfl

@[simp] theorem toOption_ite {c : Prop} [Decidable c] (x y : Except ε α) :
    (if c then x else y).toOption = if c then x.toOption else y.toOption := by
  split_ifs
  · rfl
  · rfl

theorem named_eq_ok {why : ε} {x : Option α} {a : α} (h : named why x = .ok a) : x = some a := by
  cases x with
  | none => cases h
  | some b =>
    cases h
    rfl

/-! ### Avoiding failures -/

/-- If the computation fails, then for none of the bad reasons. -/
def Avoids (bad : ε → Prop) (x : Except ε α) : Prop := ∀ why, x = .error why → ¬ bad why

section
variable {bad : ε → Prop}

theorem avoids_ok (a : α) : Avoids bad (.ok a) := by
  intro why h
  cases h

theorem avoids_named {why : ε} (h : ¬ bad why) (x : Option α) : Avoids bad (named why x) := by
  intro why' hx
  cases x with
  | none =>
    cases hx
    exact h
  | some a => cases hx

theorem avoids_some {why : ε} {x : Option α} (h : x.isSome = true) : Avoids bad (named why x) := by
  cases x with
  | none => cases h
  | some a => exact avoids_ok a

theorem avoids_bind {x : Except ε α} {f : α → Except ε β} (hx : Avoids bad x)
    (hf : ∀ a, x = .ok a → Avoids bad (f a)) : Avoids bad (x >>= f) := by
  cases x with
  | error why =>
    intro why' h
    cases h
    exact hx why rfl
  | ok a => exact hf a rfl

theorem avoids_ite {c : Prop} [Decidable c] {x y : Except ε α} (hx : c → Avoids bad x)
    (hy : ¬ c → Avoids bad y) : Avoids bad (if c then x else y) := by
  split_ifs with hc
  · exact hx hc
  · exact hy hc

end

end Rapids.Lib
