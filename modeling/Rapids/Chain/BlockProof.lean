import Mathlib.Order.Bounds.Defs
import Rapids.Chain.Difficulty
import Rapids.Lib.Limbs

/-!
# Rapids.Chain.BlockProof

**The arithmetic of targets and work** (`arith_uint256.cpp` and `GetBlockProof` in `pow.cpp`).

A product is computed word by word, a quotient by subtracting the divisor at every shift from the
highest at which it can fit. Both are exact in their 256 bits (`mul_eq`, `divAssign_eq`). The compact
form of a number is the **next one below it that has a compact form**, and a canonical compact form
is the one that its target gets (`isGreatest_target`, `getCompact_target`). So the work of a block is
`2 ^ 256 / (target + 1)`, although the dividend does not fit (`getBlockProof_eq`).
-/

namespace Rapids.Chain

open Rapids.Lib

/-! ### Products and quotients -/

/-- `operator*=`, with a factor of 256 bits. -/
def mul (a b : Nat) : List Nat := mulAssign (2 ^ 32) 8 a b

/-- `operator*=`, with a factor of 32 bits. -/
def mul32 (a b32 : Nat) : List Nat :=
  mulRow (2 ^ 32) b32 0 (List.replicate 8 0) (toLimbs (2 ^ 32) 8 a)

/-- The loop of `operator/=`, with one shift fewer than its first argument to come. -/
def divLoop : Nat → Nat → Nat → Nat → Nat
  | 0, _, _, quotient => quotient
  | shift + 1, num, div, quotient =>
    if div ≤ num then divLoop shift (num - div) (div / 2) (quotient ||| 2 ^ shift)
    else divLoop shift num (div / 2) quotient

/-- `operator/=`, which throws for the divisor 0. -/
def divAssign (num div : Nat) : Option Nat :=
  if numBits div = 0 then none
  else if numBits num < numBits div then some 0
  else
    let shift := numBits num - numBits div
    some (divLoop (shift + 1) num (div * 2 ^ shift % 2 ^ 256) 0)

theorem mul_eq (a b : Nat) : Nat.ofDigits (2 ^ 32) (mul a b) = a * b % 2 ^ 256 := by
  rw [mul, ofDigits_mulAssign (by decide), ← Nat.pow_mul]

theorem mul32_eq {a b32 : Nat} (ha : a < 2 ^ 256) :
    Nat.ofDigits (2 ^ 32) (mul32 a b32) = a * b32 % 2 ^ 256 := by
  have hmod := @ofDigits_mulRow (2 ^ 32) b32 0 (List.replicate 8 0) (toLimbs (2 ^ 32) 8 a) (by simp)
  have hlt := Nat.ofDigits_lt_base_pow_length (by decide)
    (@mulRow_lt (2 ^ 32) b32 0 (List.replicate 8 0) (toLimbs (2 ^ 32) 8 a) (by decide) (by simp))
  rw [ofDigits_toLimbs, Nat.ofDigits_replicate_zero, List.length_replicate, ← Nat.pow_mul,
    Nat.mod_eq_of_lt ha, Nat.zero_add] at hmod
  rw [length_mulRow, List.length_replicate, ← Nat.pow_mul] at hlt
  rw [mul32, Nat.mul_comm a, ← Nat.mod_eq_of_lt hlt]
  exact hmod

/-- The loop adds the quotient to what it has, bit by bit. -/
theorem divLoop_eq {b n num div quotient : Nat} (hb : 0 < b) (hnum : num < b * 2 ^ n)
    (hdiv : ∀ shift, n = shift + 1 → div = b * 2 ^ shift) (hquotient : 2 ^ n ∣ quotient) :
    divLoop n num div quotient = quotient + num / b := by
  induction n generalizing num div quotient with
  | zero =>
    rw [Nat.pow_zero, Nat.mul_one] at hnum
    rw [divLoop, Nat.div_eq_of_lt hnum, Nat.add_zero]
  | succ shift ih =>
    have hbit := hdiv shift rfl
    have hnext : ∀ k, shift = k + 1 → div / 2 = b * 2 ^ k := by
      rintro k rfl
      rw [hbit, Nat.pow_succ, ← Nat.mul_assoc, Nat.mul_div_cancel _ (by decide)]
    obtain ⟨c, rfl⟩ := hquotient
    have hdvd : 2 ^ shift ∣ 2 ^ (shift + 1) * c := (Nat.pow_dvd_pow 2 (Nat.le_succ _)).mul_right c
    rw [Nat.pow_succ, ← Nat.mul_assoc] at hnum
    rw [divLoop]
    by_cases hle : div ≤ num
    · -- the bit of the quotient is set
      have hor : 2 ^ (shift + 1) * c ||| 2 ^ shift = 2 ^ (shift + 1) * c + 2 ^ shift :=
        (Nat.two_pow_add_eq_or_of_lt (Nat.pow_lt_pow_right (by decide) (Nat.lt_succ_self _)) c).symm
      rw [if_pos hle, hor, ih (by omega) hnext (hdvd.add (dvd_refl _)), Nat.add_assoc]
      rw [hbit] at hle ⊢
      have hcount : 2 ^ shift ≤ num / b := (Nat.le_div_iff_mul_le hb).mpr (by rwa [Nat.mul_comm])
      rw [Nat.sub_mul_div]
      omega
    · rw [if_neg hle, ih (by omega) hnext hdvd]

/-- **The quotient is exact.** -/
theorem divAssign_eq {a b : Nat} (ha : a < 2 ^ 256) (hb : b ≠ 0) : divAssign a b = some (a / b) := by
  have hbits : numBits b ≠ 0 := by rw [numBits, if_neg hb]; omega
  have hlow : 2 ^ (numBits b - 1) ≤ b := two_pow_le_of_lt_numBits (by omega)
  rw [divAssign, if_neg hbits]
  by_cases hless : numBits a < numBits b
  · have hlt : a < b := (lt_two_pow_numBits a).trans_le
      ((Nat.pow_le_pow_right (by decide) (by omega)).trans hlow)
    rw [if_pos hless, Nat.div_eq_of_lt hlt]
  · have hfits : b * 2 ^ (numBits a - numBits b) < 2 ^ 256 := by
      refine ((Nat.mul_lt_mul_right (Nat.two_pow_pos _)).mpr (lt_two_pow_numBits b)).trans_le ?_
      rw [← Nat.pow_add]
      exact Nat.pow_le_pow_right (by decide) (by have := numBits_le ha; omega)
    have hnum : a < b * 2 ^ (numBits a - numBits b + 1) := by
      refine (lt_two_pow_numBits a).trans_le (le_trans ?_ (Nat.mul_le_mul_right _ hlow))
      rw [← Nat.pow_add]
      exact Nat.pow_le_pow_right (by decide) (by omega)
    simp only [if_neg hless, Nat.mod_eq_of_lt hfits]
    rw [divLoop_eq (Nat.pos_of_ne_zero hb) hnum (fun shift heq => by rw [Nat.succ.inj heq])
      (Nat.dvd_zero _), Nat.zero_add]

/-! ### The compact form -/

/-- The numbers that have a compact form: at most 23 bits, and whole bytes of zeros. -/
def HasCompact (v : Nat) : Prop := ∃ m k, m < 2 ^ 23 ∧ v = m * 2 ^ (8 * k)

/-- A compact form without flags whose mantissa begins with its highest bits and has no bits below
the number. -/
def IsCanonical (c : Nat) : Prop :=
  (setCompact c).2 = (false, false) ∧
    (c = 0 ∨ 2 ^ 15 ≤ c % 2 ^ 24 ∧ c % 2 ^ 24 < 2 ^ 23 ∧ 2 ^ (8 * (3 - c / 2 ^ 24)) ∣ c % 2 ^ 24)

theorem setCompact_getCompact {v : Nat} (hv : v < 2 ^ 256) : (setCompact (getCompact v)).2 = (false, false) := by
  obtain ⟨size, hsize, hm, -, heq⟩ := getCompact_mk hv
  have hsign : getCompact v / 2 ^ 23 % 2 = 0 := by omega
  have hexponent : getCompact v / 2 ^ 24 % 256 = size := by omega
  have hmantissa : getCompact v % 2 ^ 23 = mantissa v size := by omega
  have hlast : size = 33 → mantissa v size ≤ 0xffff := by
    rintro rfl
    rw [mantissa_eq]
    omega
  simp only [setCompact, hsign, hexponent, hmantissa, Prod.mk.injEq, Bool.and_eq_false_imp]
  refine ⟨fun _ => by decide, fun _ => ?_⟩
  simp only [Bool.or_eq_false_iff, Bool.and_eq_false_iff, decide_eq_false_iff_not]
  refine ⟨⟨by omega, .inr (by omega)⟩, ?_⟩
  by_cases h33 : size = 33
  · rw [if_neg (by omega)]
    exact .inl (Nat.not_lt.mpr (hlast h33))
  · exact .inr (by omega)

/-- **The compact form** stands for the next number below that has one. -/
theorem isGreatest_target {v : Nat} (hv : v < 2 ^ 256) :
    IsGreatest {y | HasCompact y ∧ y ≤ v} (target (getCompact v)) := by
  refine ⟨⟨?_, setCompact_getCompact_le hv⟩, ?_⟩
  all_goals
    obtain ⟨size, hsize, hm, hhigh, heq⟩ := getCompact_mk hv
    rw [mantissa_eq] at hm hhigh
    rw [heq, target_mantissa hv (by omega) (by rwa [mantissa_eq])]
  · exact ⟨_, _, (Nat.le_mul_of_pos_right _ (Nat.two_pow_pos _)).trans_lt hm, rfl⟩
  · rintro y ⟨⟨m, k, hm', rfl⟩, hle⟩
    by_cases hk : size - 3 ≤ k
    · -- whole steps of the last byte that is kept
      obtain ⟨d, rfl⟩ := Nat.exists_eq_add_of_le hk
      rw [Nat.mul_add, Nat.pow_add, Nat.mul_comm (2 ^ _), ← Nat.mul_assoc] at hle ⊢
      exact Nat.mul_le_mul_right _ ((Nat.le_div_iff_mul_le (Nat.two_pow_pos _)).mpr hle)
    · -- less than the highest bits alone
      by_cases hv0 : v = 0
      · simp_all
      · have hbits := hhigh hv0
        rw [Nat.sub_eq_zero_of_le (by omega : 3 ≤ size), Nat.mul_zero, Nat.pow_zero, Nat.mul_one] at hbits
        calc m * 2 ^ (8 * k) ≤ 2 ^ 23 * 2 ^ (8 * (size - 3) - 8) :=
              Nat.mul_le_mul hm'.le (Nat.pow_le_pow_right (by decide) (by omega))
          _ = 2 ^ 15 * 2 ^ (8 * (size - 3)) := by
              rw [← Nat.pow_add, ← Nat.pow_add]
              congr 1
              omega
          _ ≤ _ := Nat.mul_le_mul_right _ hbits

theorem target_error {v : Nat} (hv : v < 2 ^ 256) (hne : v ≠ 0) :
    (v - target (getCompact v)) * 2 ^ 15 < v := by
  obtain ⟨size, hsize, hm, hhigh, heq⟩ := getCompact_mk hv
  have hbits := hhigh hne
  rw [heq, target_mantissa hv (by omega) hm]
  rw [mantissa_eq] at hbits
  by_cases hthree : size ≤ 3
  · rw [Nat.sub_eq_zero_of_le hthree]
    simpa using Nat.pos_of_ne_zero hne
  · rw [Nat.sub_eq_zero_of_le (Nat.le_of_not_le hthree), Nat.mul_zero, Nat.pow_zero, Nat.mul_one] at hbits
    have hdiv := Nat.div_add_mod' v (2 ^ (8 * (size - 3)))
    have hle := Nat.mul_le_mul_right (2 ^ (8 * (size - 3))) hbits
    omega

theorem mantissa_lt {v size size' : Nat} (h : size < size') : mantissa v size' ≤ mantissa v size / 2 ^ 8 := by
  induction size', h using Nat.le_induction with
  | base => exact (mantissa_succ v size).le
  | succ n hn ih =>
    rw [mantissa_succ]
    exact (Nat.div_le_self _ _).trans ih

/-- **A canonical form** is the one that its target gets. -/
theorem getCompact_target {c : Nat} (hc : c < 2 ^ 32) (h : IsCanonical c) : getCompact (target c) = c := by
  obtain ⟨hflags, rfl | ⟨hhigh, hlow, hdvd⟩⟩ := h
  · decide
  obtain ⟨size, hsize⟩ : ∃ size, size = c / 2 ^ 24 := ⟨_, rfl⟩
  obtain ⟨m, hm⟩ : ∃ m, m = c % 2 ^ 24 := ⟨_, rfl⟩
  have hcompact : c = m + size * 2 ^ 24 := by omega
  rw [← hm] at hhigh hlow hdvd
  rw [← hsize] at hdvd
  have hfits : 3 < size → m * 2 ^ (8 * (size - 3)) < 2 ^ 256 := by
    intro hmore
    have hoverflow := (Prod.mk.inj hflags).2
    have hexponent : c / 2 ^ 24 % 256 = size := by omega
    have hword : c % 2 ^ 23 = m := by omega
    simp only [hexponent, hword, if_neg (Nat.not_le_of_lt hmore), Bool.and_eq_false_imp, decide_eq_true_eq,
      Bool.or_eq_false_iff, Bool.and_eq_false_imp, decide_eq_false_iff_not] at hoverflow
    obtain ⟨⟨h34, h33⟩, h32⟩ := hoverflow (by omega)
    by_cases hlast : size = 33
    · subst hlast
      have hm : m < 2 ^ 16 := by omega
      exact (Nat.mul_lt_mul_right (Nat.two_pow_pos _)).mpr hm
    · refine ((Nat.mul_lt_mul_right (Nat.two_pow_pos _)).mpr hlow).trans_le ?_
      rw [← Nat.pow_add]
      exact Nat.pow_le_pow_right (by decide) (by omega)
  have hmantissa : mantissa (target c) size = m := by
    rw [hcompact, target_mk hlow (by omega), mantissa]
    by_cases hthree : size ≤ 3
    · rw [if_pos hthree, if_pos hthree, Nat.div_mul_cancel hdvd]
    · rw [if_neg hthree, if_neg hthree, Nat.mod_eq_of_lt (hfits (by omega)),
        Nat.mul_div_cancel _ (Nat.two_pow_pos _)]
  have hne : target c ≠ 0 := by
    intro hzero
    rw [hzero, mantissa_eq, Nat.zero_div, Nat.zero_mul] at hmantissa
    omega
  obtain ⟨size', -, hlow', hhigh', heq⟩ := getCompact_mk (target_lt c)
  obtain rfl : size' = size := by
    rcases Nat.lt_trichotomy size' size with hlt | heq | hlt
    · have := @mantissa_lt (target c) _ _ hlt
      omega
    · exact heq
    · have := @mantissa_lt (target c) _ _ hlt
      omega
  rw [heq, hmantissa, ← hcompact]

/-! ### The work of a block -/

/-- `GetBlockProof` -/
def getBlockProof (nBits : Nat) : Option Nat :=
  let (bnTarget, fNegative, fOverflow) := setCompact nBits
  if fNegative || fOverflow || bnTarget = 0 then some 0
  else (divAssign (2 ^ 256 - 1 - bnTarget) ((bnTarget + 1) % 2 ^ 256)).map fun q => (q + 1) % 2 ^ 256

theorem target_ne_max (nBits : Nat) : target nBits ≠ 2 ^ 256 - 1 := by
  simp only [target, setCompact]
  by_cases hsize : nBits / 2 ^ 24 % 256 ≤ 3
  · rw [if_pos hsize, if_pos hsize]
    exact ((Nat.div_le_self _ _).trans_lt (by omega)).ne
  · -- the lowest byte is zero
    have hdvd : 2 ^ 8 ∣ nBits % 2 ^ 23 * 2 ^ (8 * (nBits / 2 ^ 24 % 256 - 3)) % 2 ^ 256 :=
      (Nat.dvd_mod_iff (Nat.pow_dvd_pow 2 (by decide))).mpr
        ((Nat.pow_dvd_pow 2 (by omega)).mul_left _)
    rw [if_neg hsize, if_neg hsize]
    omega

theorem getBlockProof_eq {nBits : Nat} (h : getBlockProof nBits ≠ some 0) :
    getBlockProof nBits = some (2 ^ 256 / (target nBits + 1)) := by
  have hlt := target_lt nBits
  have hmax := target_ne_max nBits
  rw [target] at hlt hmax ⊢
  simp only [getBlockProof] at h ⊢
  split_ifs at h ⊢ with hzero
  · exact absurd rfl h
  simp only [Bool.or_eq_true, decide_eq_true_eq, not_or] at hzero
  generalize (setCompact nBits).1 = bnTarget at *
  have hquotient := Nat.div_le_self (2 ^ 256 - 1 - bnTarget) (bnTarget + 1)
  have hsum : 2 ^ 256 - 1 - bnTarget + (bnTarget + 1) = 2 ^ 256 := by omega
  rw [Nat.mod_eq_of_lt (by omega : bnTarget + 1 < 2 ^ 256), divAssign_eq (by omega) (by omega), Option.map_some,
    Nat.mod_eq_of_lt (by omega), ← Nat.add_div_right _ (Nat.succ_pos bnTarget), Nat.succ_eq_add_one, hsum]

/-- **The arithmetic of targets and work is exact.** -/
theorem arithmetic_exact :
    (∀ a b, a < 2 ^ 256 → b < 2 ^ 256 → Nat.ofDigits (2 ^ 32) (mul a b) = a * b % 2 ^ 256 ∧
      (b < 2 ^ 32 → Nat.ofDigits (2 ^ 32) (mul32 a b) = a * b % 2 ^ 256) ∧
      (b ≠ 0 → divAssign a b = some (a / b))) ∧
    (∀ x < 2 ^ 256, (setCompact (getCompact x)).2 = (false, false) ∧
      IsGreatest {y | HasCompact y ∧ y ≤ x} (setCompact (getCompact x)).1 ∧
      (x ≠ 0 → (x - (setCompact (getCompact x)).1) * 2 ^ 15 < x)) ∧
    (∀ c < 2 ^ 32, IsCanonical c → getCompact (setCompact c).1 = c) ∧
    ∀ nBits < 2 ^ 32, getBlockProof nBits ≠ some 0 →
      getBlockProof nBits = some (2 ^ 256 / ((setCompact nBits).1 + 1)) :=
  ⟨fun a b ha _ => ⟨mul_eq a b, fun _ => mul32_eq ha, divAssign_eq ha⟩,
    fun _ hx => ⟨setCompact_getCompact hx, isGreatest_target hx, target_error hx⟩,
    fun _ hc h => getCompact_target hc h, fun _ _ h => getBlockProof_eq h⟩

end Rapids.Chain
