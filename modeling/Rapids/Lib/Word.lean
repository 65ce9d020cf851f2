import Rapids.Lib.Abort

/-!
# Rapids.Lib.Word

**Arithmetic on words with its faults.** Words are numbers below a limit. An operation on
words gives the exact result, or the fault that it would hide: a result that wraps around,
a division by zero, an assertion that fails. So a computation that has a result is exact
throughout.
-/

namespace Rapids.Lib

/-- What can be wrong with a computation. -/
inductive Fault
  | wraps
  | dividesByZero
  | asserts
  deriving DecidableEq, Repr

namespace Word

variable (limit : Nat)

def add (a b : Nat) : Except Fault Nat := if a + b < limit then .ok (a + b) else .error .wraps

def mul (a b : Nat) : Except Fault Nat := if a * b < limit then .ok (a * b) else .error .wraps

def sub (a b : Nat) : Except Fault Nat := if b ≤ a then .ok (a - b) else .error .wraps

def div (a b : Nat) : Except Fault Nat := if b = 0 then .error .dividesByZero else .ok (a / b)

variable {limit} {a b c : Nat}

theorem add_eq_ok : add limit a b = .ok c ↔ a + b < limit ∧ a + b = c := by
  unfold add
  by_cases h : a + b < limit
  · simp [h]
  · simp [h]

theorem mul_eq_ok : mul limit a b = .ok c ↔ a * b < limit ∧ a * b = c := by
  unfold mul
  by_cases h : a * b < limit
  · simp [h]
  · simp [h]

theorem sub_eq_ok : sub a b = .ok c ↔ b ≤ a ∧ a - b = c := by
  unfold sub
  by_cases h : b ≤ a
  · simp [h]
  · simp [h]

theorem div_eq_ok : div a b = .ok c ↔ b ≠ 0 ∧ a / b = c := by
  unfold div
  by_cases h : b = 0
  · simp [h]
  · simp [h]

theorem named_iff {α : Type} {why : Fault} {x : Option α} {y : α} : named why x = .ok y ↔ x = some y := by
  constructor
  · exact named_eq_ok
  · intro h
    rw [h]
    rfl

theorem bind_eq_ok {α β : Type} {x : Except Fault α} {f : α → Except Fault β} {y : β} :
    x >>= f = .ok y ↔ ∃ v, x = .ok v ∧ f v = .ok y := by
  cases x with
  | error why =>
    constructor
    · intro h
      cases h
    · rintro ⟨v, hv, -⟩
      cases hv
  | ok v =>
    constructor
    · intro h
      exact ⟨v, rfl, h⟩
    · rintro ⟨v', hv, h⟩
      cases hv
      exact h

end Word

end Rapids.Lib
