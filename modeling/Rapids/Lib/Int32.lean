import Rapids.Lib.Int64

/-!
# Rapids.Lib.Int32

**Signed 32-bit integers**, as integers with an explicit reduction.

`toI32` is the conversion to `int`: what is left of a number that does not fit.
-/

namespace Rapids.Lib

/-- The numbers that `int` holds. -/
def InI32 (x : Int) : Prop := -2147483648 ≤ x ∧ x ≤ 2147483647

instance (x : Int) : Decidable (InI32 x) := inferInstanceAs (Decidable (_ ∧ _))

/-- Conversion to `int`. -/
def toI32 (x : Int) : Int := x.bmod 4294967296

theorem toI32_of_inI32 {x : Int} (h : InI32 x) : toI32 x = x := by
  obtain ⟨hlow, hhigh⟩ := h
  rw [toI32, Int.bmod_def]
  omega

/-- What `strtol` makes of a number: the nearest one of 64 bits. -/
def clampI64 (x : Int) : Int := if x < i64Min then i64Min else if i64Max < x then i64Max else x

theorem clampI64_of_inI64 {x : Int} (h : InI64 x) : clampI64 x = x := by
  rw [clampI64, if_neg (Int.not_lt.mpr h.1), if_neg (Int.not_lt.mpr h.2)]

theorem InI32.inI64 {x : Int} (h : InI32 x) : InI64 x := by
  obtain ⟨hlow, hhigh⟩ := h
  constructor
  · rw [i64Min]
    omega
  · rw [i64Max]
    omega

end Rapids.Lib
