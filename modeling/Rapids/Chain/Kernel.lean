import Rapids.Chain.Difficulty
import Rapids.Chain.StakeModifier
import Rapids.Lib.Limbs

/-!
# Rapids.Chain.Kernel

**The kernel of a stake** (`kernel.cpp`) and the target that its hash has to meet.

The target of the block is weighted with the value that is staked: `bnTarget` is its product with a
hundredth of the value, by the long multiplication of `base_uint`, which keeps eight words. While the
product fits, more value means more hashes that pass; from the first value on for which it does not fit,
`bnTarget` starts again below the target itself.
-/

namespace Rapids.Chain

open Rapids.Lib

variable {nBits : UInt32}

/-- `CStakeKernel`. The bytes of the modifier are those of `kernelModifier`; an amount is signed. -/
structure CStakeKernel where
  stakeModifier : List UInt8
  nTimeBlockFrom : UInt32
  stakeUniqueness : List UInt8
  nTime : UInt32
  nBits : UInt32
  stakeValue : Int

namespace CStakeKernel

/-- `GetHash` -/
def getHash (hash : List UInt8 → UInt256) (k : CStakeKernel) : UInt256 :=
  hash (k.stakeModifier ++ leBytes 4 k.nTimeBlockFrom.toNat ++ k.stakeUniqueness ++ leBytes 4 k.nTime.toNat)

/-- `bnTarget`: the target of the block, times a hundredth of the value, in eight words. -/
def bnTarget (k : CStakeKernel) : Nat :=
  Nat.ofDigits (2 ^ 32) (mulAssign (2 ^ 32) 8 (target k.nBits.toNat) (toU64 k.stakeValue / 100))

/-- `CheckKernelHash` -/
def checkKernelHash (hash : List UInt8 → UInt256) (k : CStakeKernel) : Bool :=
  (k.getHash hash).toNat < k.bnTarget

end CStakeKernel

/-! ### The weighted target -/

/-- The product, as a number of any size. -/
def weight (nBits : UInt32) (value : Int) : Nat := target nBits.toNat * (value.toNat / 100)

theorem CStakeKernel.bnTarget_eq {k : CStakeKernel} (h0 : 0 ≤ k.stakeValue) (hmax : k.stakeValue ≤ i64Max) :
    k.bnTarget = weight k.nBits k.stakeValue % 2 ^ 256 := by
  have hvalue : toU64 k.stakeValue = k.stakeValue.toNat := by
    simp only [i64Max] at hmax
    rw [toU64, Int.emod_eq_of_lt h0 (by omega)]
  rw [bnTarget, ofDigits_mulAssign (by decide), hvalue, weight, ← Nat.pow_mul]

theorem weight_mono {nBits : UInt32} {value value' : Int} (h : value ≤ value') :
    weight nBits value ≤ weight nBits value' :=
  Nat.mul_le_mul_left _ (Nat.div_le_div_right (Int.toNat_le_toNat h))

theorem target_lt_of_odd {nBits : Nat} (h : target nBits % 2 = 1) : target nBits < 2 ^ 23 := by
  have hmantissa : nBits % 2 ^ 23 < 2 ^ 23 := Nat.mod_lt _ (by decide)
  simp only [target, setCompact] at h ⊢
  generalize nBits / 2 ^ 24 % 256 = size at h ⊢
  by_cases hsmall : size ≤ 3
  · rw [if_pos hsmall, if_pos hsmall]
    exact Nat.lt_of_le_of_lt (Nat.div_le_self _ _) hmantissa
  · rw [if_neg hsmall, if_neg hsmall] at h
    have heven : 2 ∣ nBits % 2 ^ 23 * 2 ^ (8 * (size - 3)) := Dvd.dvd.mul_left (dvd_pow_self 2 (by omega)) _
    omega

/-- A product that does not fit is even, so that it is not cut to the largest number there is. -/
theorem weight_mod_ne {value : Int} (hmax : value ≤ i64Max) (hover : 2 ^ 256 ≤ weight nBits value) :
    weight nBits value % 2 ^ 256 ≠ 2 ^ 256 - 1 := by
  intro hlast
  have hodd : target nBits.toNat * (value.toNat / 100) % 2 = 1 := by
    rw [weight] at hlast
    omega
  have htarget : target nBits.toNat % 2 = 1 := (Nat.odd_mul.mp (Nat.odd_iff.mpr hodd)).1 |> Nat.odd_iff.mp
  have hsmall := target_lt_of_odd htarget
  have hvalue : value.toNat / 100 < 2 ^ 63 := by
    simp only [i64Max] at hmax
    omega
  have hproduct := Nat.mul_le_mul (Nat.le_of_lt hsmall) (Nat.le_of_lt hvalue)
  rw [weight] at hover
  omega

/-! ### Comparing and passing -/

/-- The hash is compared with the exact product, or with the product cut to the largest number. -/
def ComparesExactly (nBits : UInt32) (value : Int) : Prop :=
  ∃ bound, (bound = weight nBits value ∨ bound = min (weight nBits value) (2 ^ 256 - 1)) ∧
    ∀ hash, ∀ k : CStakeKernel, k.nBits = nBits → k.stakeValue = value →
      k.checkKernelHash hash = decide ((k.getHash hash).toNat < bound)

/-- A kernel that passes also passes with more value. -/
def StakeMonotone (network : Network) (nBits : UInt32) : Prop :=
  ∀ hash, ∀ k : CStakeKernel, k.nBits = nBits → 0 ≤ k.stakeValue → ∀ value', k.stakeValue ≤ value' →
    value' ≤ network.maxMoneyOut → k.checkKernelHash hash = true →
      ({ k with stakeValue := value' } : CStakeKernel).checkKernelHash hash = true

/-- A kernel that hashes to nothing in particular. -/
def plainKernel (nBits : UInt32) (value : Int) : CStakeKernel := ⟨[], 0, [], 0, nBits, value⟩

/-- With a hash function that is constant, a kernel passes if the number is below the product's rest. -/
theorem checkKernelHash_const {n : Nat} (hn : n < 2 ^ 256) {value : Int} (h0 : 0 ≤ value)
    (hmax : value ≤ i64Max) :
    (plainKernel nBits value).checkKernelHash (fun _ => BitVec.ofNat 256 n) =
      decide (n < weight nBits value % 2 ^ 256) := by
  rw [CStakeKernel.checkKernelHash, CStakeKernel.getHash, BitVec.toNat_ofNat, Nat.mod_eq_of_lt hn,
    CStakeKernel.bnTarget_eq h0 hmax]
  rfl

theorem comparesExactly_iff {value : Int} (h0 : 0 ≤ value) (hmax : value ≤ i64Max) :
    ComparesExactly nBits value ↔ weight nBits value < 2 ^ 256 := by
  constructor
  · intro h
    by_contra hover
    have hover := Nat.le_of_not_lt hover
    obtain ⟨bound, hbound, hcompare⟩ := h
    have hne := weight_mod_ne hmax hover
    have hlt : weight nBits value % 2 ^ 256 < 2 ^ 256 := Nat.mod_lt _ (by decide)
    -- the number that the product is cut to does not pass, and is below the bound
    have hcut := hcompare (fun _ => BitVec.ofNat 256 (weight nBits value % 2 ^ 256)) (plainKernel nBits value) rfl rfl
    rw [checkKernelHash_const hlt h0 hmax, CStakeKernel.getHash, BitVec.toNat_ofNat, Nat.mod_eq_of_lt hlt,
      decide_eq_false (Nat.lt_irrefl _)] at hcut
    have hless : weight nBits value % 2 ^ 256 < bound := by
      rcases hbound with hbound | hbound <;> omega
    rw [decide_eq_true hless] at hcut
    cases hcut
  · intro hfits
    refine ⟨weight nBits value, .inl rfl, fun hash k hbits hvalue => ?_⟩
    subst hbits hvalue
    rw [CStakeKernel.checkKernelHash, CStakeKernel.bnTarget_eq h0 hmax, Nat.mod_eq_of_lt hfits]

/-- **More value is never worse** exactly while the product fits for the largest value. -/
theorem stakeMonotone_iff {network : Network} :
    StakeMonotone network nBits ↔ weight nBits network.maxMoneyOut < 2 ^ 256 := by
  have hmax := network.maxMoneyOut_le
  constructor
  · intro h
    by_contra hover
    have hover : 2 ^ 256 ≤ target nBits.toNat * (network.maxMoneyOut.toNat / 100) := Nat.le_of_not_lt hover
    have hlt := target_lt nBits.toNat
    have hpos : 0 < target nBits.toNat := by
      refine Nat.pos_of_ne_zero fun hzero => ?_
      rw [hzero, Nat.zero_mul] at hover
      omega
    -- the last number of hundreds for which the product fits
    obtain ⟨last, hlast⟩ : ∃ last, last = (2 ^ 256 - 1) / target nBits.toNat := ⟨_, rfl⟩
    have hfits : target nBits.toNat * last ≤ 2 ^ 256 - 1 := by
      rw [hlast]
      exact Nat.mul_div_le _ _
    have hnext : 2 ^ 256 - 1 < target nBits.toNat * (last + 1) := by
      rw [hlast]
      exact Nat.lt_mul_div_succ _ hpos
    have hone : 1 ≤ last := by
      rw [hlast]
      exact Nat.div_pos (by omega) hpos
    have hroom : last + 1 ≤ network.maxMoneyOut.toNat / 100 := by
      refine Nat.lt_of_not_le fun hle => ?_
      have hmul := Nat.mul_le_mul_left (target nBits.toNat) hle
      omega
    rw [Nat.mul_succ] at hnext
    have hweight : weight nBits (100 * last : Nat) = target nBits.toNat * last := by
      rw [weight, Int.toNat_natCast, Nat.mul_div_cancel_left _ (by decide)]
    have hweight' : weight nBits (100 * (last + 1) : Nat) = target nBits.toNat * last + target nBits.toNat := by
      rw [weight, Int.toNat_natCast, Nat.mul_div_cancel_left _ (by decide), Nat.mul_succ]
    -- what the next product is cut to passes before it and not with it
    have hmono := h (fun _ => BitVec.ofNat 256 (target nBits.toNat * last + target nBits.toNat - 2 ^ 256))
      (plainKernel nBits (100 * last : Nat)) rfl (Int.natCast_nonneg _) (100 * (last + 1) : Nat)
      (show ((100 * last : Nat) : Int) ≤ (100 * (last + 1) : Nat) by omega) (by omega)
    rw [checkKernelHash_const (by omega) (Int.natCast_nonneg _) (by omega), hweight,
      Nat.mod_eq_of_lt (show target nBits.toNat * last < 2 ^ 256 by omega)] at hmono
    have hpass := hmono (decide_eq_true (by omega))
    have hstake : ({ plainKernel nBits (100 * last : Nat) with stakeValue := (100 * (last + 1) : Nat) } : CStakeKernel) =
        plainKernel nBits (100 * (last + 1) : Nat) := rfl
    rw [hstake, checkKernelHash_const (by omega) (Int.natCast_nonneg _) (by omega), hweight',
      decide_eq_true_eq] at hpass
    omega
  · intro hfits hash k hbits h0 value' hle hvalue' hpass
    subst hbits
    have hless := @weight_mono k.nBits _ _ hle
    have hmost := @weight_mono k.nBits _ _ hvalue'
    rw [CStakeKernel.checkKernelHash, decide_eq_true_eq, CStakeKernel.bnTarget_eq h0 (by omega),
      Nat.mod_eq_of_lt (by omega)] at hpass
    rw [CStakeKernel.checkKernelHash, decide_eq_true_eq,
      @CStakeKernel.bnTarget_eq { k with stakeValue := value' } (Int.le_trans h0 hle) (Int.le_trans hvalue' hmax)]
    dsimp only
    rw [Nat.mod_eq_of_lt (by omega)]
    exact Nat.lt_of_lt_of_le hpass hless

/-- **When the weight of a stake does not wrap.** For a value in the money range the comparison is with the
exact product if and only if that fits; it is so for all values, and more value is never worse, if and only
if the product fits for the largest value of the network. -/
theorem stake_weight_exact_iff (network : Network) (nBits : UInt32) :
    (∀ value, 0 ≤ value → value ≤ network.maxMoneyOut →
      (ComparesExactly nBits value ↔ weight nBits value < 2 ^ 256)) ∧
    ((∀ value, 0 ≤ value → value ≤ network.maxMoneyOut → ComparesExactly nBits value) ∧
        StakeMonotone network nBits ↔ weight nBits network.maxMoneyOut < 2 ^ 256) := by
  have hmax := network.maxMoneyOut_le
  refine ⟨fun value h0 hvalue => comparesExactly_iff h0 (Int.le_trans hvalue hmax), ?_⟩
  rw [stakeMonotone_iff]
  constructor
  · intro h
    exact h.2
  · intro hfits
    refine ⟨fun value h0 hvalue => ?_, hfits⟩
    exact (comparesExactly_iff h0 (Int.le_trans hvalue hmax)).mpr (Nat.lt_of_le_of_lt (weight_mono hvalue) hfits)

/-- The largest target of the main network, and a stake of one coin. -/
theorem stake_weight_oneCoin : ComparesExactly 0x1e0fffff 100000000 :=
  ((stake_weight_exact_iff .main 0x1e0fffff).1 100000000 (by decide) (by decide)).mpr (by decide +kernel)

/-- On the main network, after the genesis block: a hash that passes for a little more than a coin, and not for
a hundred units more. -/
theorem stake_weight_wraps :
    getNextWorkRequired (Network.main.work 0) [⟨0, 1542153600, 0x1e0ffff0, false⟩] = 0x1e0fffff ∧
    ¬ StakeMonotone .main 0x1e0fffff ∧ ¬ ComparesExactly 0x1e0fffff 104857800 := by
  refine ⟨by decide +kernel, fun h => ?_, fun h => ?_⟩
  · have hmono := h (fun _ => BitVec.ofNat 256 (2 ^ 236)) (plainKernel 0x1e0fffff 104857700) rfl (by decide)
      104857800 (by decide) (by decide)
    revert hmono
    decide +kernel
  · have hfits := (comparesExactly_iff (by decide) (by decide)).mp h
    revert hfits
    decide +kernel

end Rapids.Chain
