import Mathlib.Data.Int.ModEq
import Mathlib.Tactic.NormNum

/-!
# Rapids.Lib.Int64

Fixed-width integers as `Int` with explicit range and explicit wrap-around.

A 64-bit signed quantity is an `Int`; `InI64` says that it fits, `toI64` is the
conversion that keeps the low 64 bits, and `toU64` its unsigned counterpart.
-/

namespace Rapids.Lib

/-- The largest 64-bit signed value. -/
def i64Max : Int := 9223372036854775807

/-- The smallest 64-bit signed value. -/
def i64Min : Int := -9223372036854775808

variable (x y : Int)

/-- The value fits a 64-bit signed integer. -/
def InI64 : Prop := i64Min ≤ x ∧ x ≤ i64Max

instance (x : Int) : Decidable (InI64 x) := inferInstanceAs (Decidable (_ ∧ _))

/-- Conversion to a 64-bit signed integer (two's complement). -/
def toI64 : Int := x.bmod 18446744073709551616

/-- Conversion to a 64-bit unsigned integer. -/
def toU64 : Nat := (x % 18446744073709551616).toNat

theorem toI64_of_inI64 {x : Int} (h : InI64 x) : toI64 x = x := by
  obtain ⟨h1, h2⟩ := h
  simp only [i64Min, i64Max] at h1 h2
  unfold toI64
  rw [Int.bmod_def]
  split_ifs <;> omega

theorem inI64_toI64 : InI64 (toI64 x) := by
  unfold toI64 InI64 i64Min i64Max
  rw [Int.bmod_def]
  split_ifs <;> omega

@[simp] theorem toI64_toI64 : toI64 (toI64 x) = toI64 x :=
  toI64_of_inI64 (inI64_toI64 x)

/-! Inside a narrowed sum or difference, narrowing has no effect. -/

@[simp] theorem toI64_toI64_add : toI64 (toI64 x + y) = toI64 (x + y) := by
  simp [toI64]

@[simp] theorem toI64_add_toI64 : toI64 (x + toI64 y) = toI64 (x + y) := by
  simp [toI64]

@[simp] theorem toI64_toI64_sub : toI64 (toI64 x - y) = toI64 (x - y) := by
  simp [toI64]

@[simp] theorem toI64_sub_toI64 : toI64 (x - toI64 y) = toI64 (x - y) := by
  simp [toI64]

/-- The sum of two amounts wraps to a negative number, or is exact. -/
theorem toI64_add_exact {x y : Int} (hx : 0 ≤ x) (hx' : x ≤ i64Max) (hy : 0 ≤ y) (hy' : y ≤ i64Max)
    (h : 0 ≤ toI64 (x + y)) : toI64 (x + y) = x + y := by
  simp only [i64Max] at hx' hy'
  refine toI64_of_inI64 ⟨by simp only [i64Min]; omega, ?_⟩
  simp only [i64Max]
  by_contra hout
  rw [toI64, Int.bmod_def] at h
  split_ifs at h <;> omega

/-- Two differences that agree after narrowing chain with two others, in either
order. -/
theorem toI64_sub_trans {a b c x y z : Int} (h1 : toI64 (b - a) = toI64 (z - y))
    (h2 : toI64 (c - b) = toI64 (y - x)) : toI64 (c - a) = toI64 (z - x) := by
  calc toI64 (c - a) = toI64 (toI64 (c - b) + toI64 (b - a)) := by
        rw [toI64_toI64_add, toI64_add_toI64]
        congr 1
        omega
    _ = toI64 (z - x) := by
        rw [h1, h2, toI64_toI64_add, toI64_add_toI64]
        congr 1
        omega

/-- Negating and narrowing commute, except at the one value without a negation. -/
theorem toI64_neg {x : Int} (h : toI64 x ≠ i64Min) : toI64 (-x) = -toI64 x := by
  revert h
  unfold toI64 i64Min
  rw [Int.bmod_def, Int.bmod_def]
  intro h
  split_ifs at h ⊢ <;> omega

/-- A value that comes back after an addition: what is added is 0 when narrowed. -/
theorem toI64_add_eq_self_iff {x d : Int} (hx : InI64 x) : toI64 (x + d) = x ↔ toI64 d = 0 := by
  constructor
  · intro h
    calc toI64 d = toI64 (toI64 (x + d) - x) := by
          rw [toI64_toI64_sub]
          congr 1
          omega
      _ = 0 := by
          rw [h, Int.sub_self]
          decide
  · intro h
    rw [← toI64_add_toI64, h, Int.add_zero, toI64_of_inI64 hx]

end Rapids.Lib
