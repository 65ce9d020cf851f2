import Mathlib.Data.Rat.Floor
import Rapids.Token.Fees

/-!
# Rapids.Token.Rounding

The **256-bit divisions** as roundings of rational numbers.

An amount is multiplied and divided in 256 bits and converted back to 64. Between numbers
that are not negative only the conversion at the end can fail, when the result does not
fit.
-/

namespace Rapids.Token

open Rapids.Lib

theorem convertTo256_of_nonneg {x : Int} (h : 0 ≤ x) : convertTo256 x = some x.toNat :=
  if_neg (not_lt.mpr h)

theorem convertTo64_of_le {q : Nat} {x : Int} (hq : (q : Int) = x) (hx : x ≤ i64Max) :
    convertTo64 q = some x := by
  rw [convertTo64, if_neg, hq]
  unfold i64Max at hx
  unfold maxInt8Bytes
  omega

theorem divideAndRoundUp_eq {m d x : Nat} (h : divideAndRoundUp m d = some x) :
    (x : Int) = ⌈(m : ℚ) / d⌉ := by
  unfold divideAndRoundUp at h
  split_ifs at h with hm hd
  · cases h
    rw [hm]
    simp
  · cases h
    have hdpos : (0 : ℚ) < d := Nat.cast_pos.mpr (Nat.pos_of_ne_zero hd)
    have hlow : (m - 1) / d * d < m := by
      have := Nat.div_mul_le_self (m - 1) d
      omega
    have hhigh : m ≤ (1 + (m - 1) / d) * d := by
      have := Nat.lt_mul_div_succ (m - 1) (Nat.pos_of_ne_zero hd)
      rw [Nat.add_comm 1, Nat.mul_comm]
      omega
    generalize (m - 1) / d = k at hlow hhigh ⊢
    refine (Int.ceil_eq_iff.mpr ⟨?_, ?_⟩).symm
    · have hcast : (((1 + k : Nat) : Int) : ℚ) - 1 = (k : ℚ) := by
        push_cast
        ring
      rw [hcast, lt_div_iff₀ hdpos]
      exact_mod_cast hlow
    · rw [div_le_iff₀ hdpos]
      exact_mod_cast hhigh

theorem divideAndRoundUp_isSome {m d : Nat} (hd : d ≠ 0) : ∃ x, divideAndRoundUp m d = some x := by
  unfold divideAndRoundUp
  split_ifs
  · exact ⟨0, rfl⟩
  · exact ⟨_, rfl⟩

theorem divideAndRoundUp_mul {a b c : Int} (ha : 0 ≤ a) (hb : 0 ≤ b) (hc : 0 < c) :
    ∃ q, divideAndRoundUp (a.toNat * b.toNat) c.toNat = some q ∧ (q : Int) = ⌈((a * b : Int) : ℚ) / c⌉ := by
  obtain ⟨q, hq⟩ := divideAndRoundUp_isSome (d := c.toNat) (by omega)
  refine ⟨q, hq, ?_⟩
  have hcast : ∀ {y : Int}, 0 ≤ y → ((y.toNat : Nat) : ℚ) = (y : ℚ) := fun hy => by
    rw [← Int.cast_natCast, Int.toNat_of_nonneg hy]
  rw [divideAndRoundUp_eq hq, Nat.cast_mul, hcast ha, hcast hb, hcast hc.le, Int.cast_mul]

end Rapids.Token
