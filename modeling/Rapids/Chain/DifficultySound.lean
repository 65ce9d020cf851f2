import Rapids.Chain.Difficulty
import Mathlib.Algebra.Order.BigOperators.Group.List
import Mathlib.Algebra.Group.Action.Defs
import Mathlib.Tactic.Linarith

/-!
# Rapids.Chain.DifficultySound

**When the difficulty is adjusted exactly.**

`Lwma3CalculateNextWorkRequired` multiplies the weighted solve time of the last eight blocks with the sum
of their targets, both within bounds that the loop keeps: a solve time is between one second and six times
the spacing, whatever the times of the blocks are. The product may still be six times the largest target,
and only then is it capped. Where the limit is `2 ^ 255 - 1` that is more than 256 bits hold.

`CalculateNextWorkRequired` multiplies first and divides afterwards, with the same outcome.
-/

namespace Rapids.Chain

open Rapids.Lib

/-! ### The weighted solve time -/

/-- The solve times of blocks, the oldest first, after a block of an earlier time. -/
def solvetimes (spacing : Int) : Int → List Int → List Int
  | _, [] => []
  | previousTimestamp, nTime :: rest =>
    let thisTimestamp := if previousTimestamp < nTime then nTime else previousTimestamp + 1
    min (6 * spacing) (thisTimestamp - previousTimestamp) :: solvetimes spacing thisTimestamp rest

/-- Their sum, with the weights from `j + 1` on. -/
def weightedSum : Int → List Int → Int
  | _, [] => 0
  | j, solvetime :: rest => solvetime * (j + 1) + weightedSum (j + 1) rest

@[simp] theorem length_solvetimes (spacing previous : Int) (times : List Int) :
    (solvetimes spacing previous times).length = times.length := by
  induction times generalizing previous with
  | nil => rfl
  | cons time rest ih => rw [solvetimes, List.length_cons, List.length_cons, ih]

theorem solvetimes_bounds {spacing previous : Int} (hspacing : 0 < spacing) {times : List Int} :
    ∀ s ∈ solvetimes spacing previous times, 1 ≤ s ∧ s ≤ 6 * spacing := by
  induction times generalizing previous with
  | nil => simp [solvetimes]
  | cons time rest ih =>
    intro s hs
    rw [solvetimes] at hs
    rcases List.mem_cons.mp hs with rfl | hs
    · refine ⟨?_, min_le_left _ _⟩
      by_cases hlater : previous < time
      · rw [if_pos hlater]
        omega
      · rw [if_neg hlater]
        omega
    · exact ih s hs

theorem weightedSum_bounds {low high j : Int} (hj : 0 ≤ j) {l : List Int} (hl : ∀ s ∈ l, low ≤ s ∧ s ≤ high) :
    low * weightedSum j (List.replicate l.length 1) ≤ weightedSum j l ∧
      weightedSum j l ≤ high * weightedSum j (List.replicate l.length 1) := by
  induction l generalizing j with
  | nil => simp [weightedSum]
  | cons s rest ih =>
    obtain ⟨hlow, hhigh⟩ := hl s (.head _)
    obtain ⟨hrestLow, hrestHigh⟩ := ih (show 0 ≤ j + 1 by omega) fun x hx => hl x (.tail _ hx)
    rw [List.length_cons, List.replicate_succ, weightedSum, weightedSum, one_mul, mul_add low (j + 1),
      mul_add high (j + 1)]
    exact ⟨Int.add_le_add (Int.mul_le_mul_of_nonneg_right hlow (by omega)) hrestLow,
      Int.add_le_add (Int.mul_le_mul_of_nonneg_right hhigh (by omega)) hrestHigh⟩

/-! ### The loop over the last blocks -/

variable (W : WorkParams)

/-- What a block adds to the sum of the targets. -/
def targetShare (h : IndexHeader) : Nat :=
  target h.nBits.toNat / (288 * W.nPosTargetSpacing).toNat

/-- **The loop** adds up the weighted solve times, and the shares in 256 bits. -/
theorem foldl_lwmaStep (l : List IndexHeader) (s : Lwma) (hs : s.sumTarget < 2 ^ 256) :
    (l.foldl (lwmaStep W) s).t =
        s.t + weightedSum s.j (solvetimes W.nPosTargetSpacing s.previousTimestamp
          (l.map fun h => (h.nTime.toNat : Int))) ∧
      (l.foldl (lwmaStep W) s).sumTarget = (s.sumTarget + (l.map (targetShare W)).sum) % 2 ^ 256 := by
  induction l generalizing s with
  | nil =>
    refine ⟨?_, ?_⟩
    · simp [solvetimes, weightedSum]
    · exact (Nat.mod_eq_of_lt hs).symm
  | cons h rest ih =>
    obtain ⟨ht, hsum⟩ := ih (lwmaStep W s h) (Nat.mod_lt _ (by decide))
    rw [List.foldl_cons, ht, hsum, List.map_cons, List.map_cons, List.sum_cons, solvetimes, weightedSum]
    refine ⟨?_, ?_⟩
    · simp only [lwmaStep]
      ring
    · simp only [lwmaStep, targetShare, target]
      rw [Nat.mod_add_mod, Nat.add_assoc]

/-- The weighted solve time of the last eight blocks of a branch. -/
def weightedSolvetime (c : Branch) : Int :=
  weightedSum 0 (solvetimes W.nPosTargetSpacing ((c.drop 8).head?.elim 0 fun before => (before.nTime.toNat : Int))
    ((c.take 8).reverse.map fun h => (h.nTime.toNat : Int)))

/-- The sum of the shares of the last eight blocks. -/
def sumOfTargets (c : Branch) : Nat := ((c.take 8).map (targetShare W)).sum

/-- The target that `Lwma3CalculateNextWorkRequired` puts into compact form, with the arithmetic of the code. -/
def lwmaTarget (c : Branch) (fProofOfStake : Bool) : Nat :=
  let posLimit := if fProofOfStake then W.posLimit else W.powLimit
  let nextTarget := (weightedSolvetime W c % 2 ^ 64).toNat * (sumOfTargets W c % 2 ^ 256) % 2 ^ 256
  if posLimit < nextTarget then posLimit else nextTarget

theorem lwma3_eq {W : WorkParams} {c : Branch} (hlength : 8 < c.length) (fProofOfStake : Bool) :
    lwma3CalculateNextWorkRequired W c fProofOfStake = getCompact (lwmaTarget W c fProofOfStake) := by
  cases hbefore : c.drop 8 with
  | nil =>
    rw [List.drop_eq_nil_iff] at hbefore
    omega
  | cons before rest =>
    obtain ⟨ht, hsum⟩ := foldl_lwmaStep W (c.take 8).reverse ⟨before.nTime.toNat, 0, 0, 0⟩
      (show 0 < 2 ^ 256 by decide)
    simp only [lwma3CalculateNextWorkRequired, hbefore, ht, hsum, lwmaTarget, weightedSolvetime, sumOfTargets,
      List.head?_cons, Option.elim_some, List.map_reverse, List.sum_reverse, Int.zero_add, Nat.zero_add]

theorem lwma3_short {W : WorkParams} {c : Branch} (hlength : c.length ≤ 8) (fProofOfStake : Bool) :
    lwma3CalculateNextWorkRequired W c fProofOfStake =
      getCompact (if fProofOfStake then W.posLimit else W.powLimit) := by
  rw [lwma3CalculateNextWorkRequired, List.drop_eq_nil_of_le hlength]

/-! ### Bounds -/

section Bounds

variable {network : Network} {hashGenesisBlock : Nat} {c : Branch}

@[simp] theorem work_nPosTargetSpacing : (network.work hashGenesisBlock).nPosTargetSpacing = 6 := by
  cases network <;> rfl

theorem weightedSolvetime_bounds (hlength : 8 < c.length) :
    36 ≤ weightedSolvetime (network.work hashGenesisBlock) c ∧
      weightedSolvetime (network.work hashGenesisBlock) c ≤ 1296 := by
  obtain ⟨hlow, hhigh⟩ := weightedSum_bounds (Int.le_refl 0)
    (@solvetimes_bounds (network.work hashGenesisBlock).nPosTargetSpacing
      ((c.drop 8).head?.elim 0 fun before => (before.nTime.toNat : Int)) (by rw [work_nPosTargetSpacing]; decide)
      ((c.take 8).reverse.map fun h => (h.nTime.toNat : Int)))
  have height : (solvetimes (network.work hashGenesisBlock).nPosTargetSpacing
      ((c.drop 8).head?.elim 0 fun before => (before.nTime.toNat : Int))
      ((c.take 8).reverse.map fun h => (h.nTime.toNat : Int))).length = 8 := by
    rw [length_solvetimes, List.length_map, List.length_reverse, List.length_take]
    omega
  have hones : weightedSum 0 (List.replicate 8 1) = 36 := by decide
  have hsix : 6 * (network.work hashGenesisBlock).nPosTargetSpacing * 36 = 1296 := by
    rw [work_nPosTargetSpacing]
    rfl
  rw [height, hones] at hlow hhigh
  rw [hsix] at hhigh
  exact ⟨hlow, hhigh⟩

theorem targetShare_eq (h : IndexHeader) :
    targetShare (network.work hashGenesisBlock) h = target h.nBits.toNat / 1728 := by
  rw [targetShare, work_nPosTargetSpacing]
  rfl

theorem sumOfTargets_le {bound : Nat} (hbound : ∀ h ∈ c.take 8, target h.nBits.toNat ≤ bound) :
    sumOfTargets (network.work hashGenesisBlock) c ≤ 8 * (bound / 1728) := by
  have hshares : ∀ x ∈ (c.take 8).map (targetShare (network.work hashGenesisBlock)), x ≤ bound / 1728 := by
    intro x hx
    obtain ⟨h, hmem, rfl⟩ := List.mem_map.mp hx
    rw [targetShare_eq]
    exact Nat.div_le_div_right (hbound h hmem)
  refine Nat.le_trans (List.sum_le_card_nsmul _ _ hshares) ?_
  rw [List.length_map, smul_eq_mul]
  exact Nat.mul_le_mul_right _ (List.length_take_le 8 c)

theorem sumOfTargets_pos_iff :
    0 < sumOfTargets (network.work hashGenesisBlock) c ↔ ∃ h ∈ c.take 8, 1728 ≤ target h.nBits.toNat := by
  rw [sumOfTargets, Nat.pos_iff_ne_zero, Ne, List.sum_eq_zero_iff]
  constructor
  · intro h
    by_contra hnone
    refine h fun x hx => ?_
    obtain ⟨b, hmem, rfl⟩ := List.mem_map.mp hx
    rw [targetShare_eq]
    exact Nat.div_eq_of_lt (Nat.lt_of_not_le fun hle => hnone ⟨b, hmem, hle⟩)
  · intro h hzero
    obtain ⟨b, hmem, hle⟩ := h
    have hshare := hzero _ (List.mem_map_of_mem hmem)
    rw [targetShare_eq] at hshare
    omega

/-- The weighted solve time times the sum of the targets, as a number of any size. -/
def lwmaProduct (c : Branch) : Nat := (weightedSolvetime W c).toNat * sumOfTargets W c

/-- A product is cut to what it is under a limit if it fits, or if the limit is what is left anyhow. -/
theorem min_mod_eq_iff {limit p : Nat} (hlimit : limit < 2 ^ 256) :
    min limit (p % 2 ^ 256) = min limit p ↔ p < 2 ^ 256 ∨ limit ≤ p % 2 ^ 256 := by
  omega

theorem lwmaProduct_le (hlength : 8 < c.length) {bound : Nat}
    (hbound : ∀ h ∈ c.take 8, target h.nBits.toNat ≤ bound) :
    lwmaProduct (network.work hashGenesisBlock) c ≤ 6 * bound := by
  obtain ⟨-, hhigh⟩ := @weightedSolvetime_bounds network hashGenesisBlock c hlength
  have hsum := @sumOfTargets_le network hashGenesisBlock c bound hbound
  calc lwmaProduct (network.work hashGenesisBlock) c
      ≤ 1296 * (8 * (bound / 1728)) := Nat.mul_le_mul (by omega) hsum
    _ ≤ 6 * bound := by omega

theorem lwmaTarget_eq (hlength : 8 < c.length) (fProofOfStake : Bool) :
    lwmaTarget (network.work hashGenesisBlock) c fProofOfStake =
      min network.limit (lwmaProduct (network.work hashGenesisBlock) c % 2 ^ 256) := by
  obtain ⟨hlow, hhigh⟩ := @weightedSolvetime_bounds network hashGenesisBlock c hlength
  have hsum := @sumOfTargets_le network hashGenesisBlock c (2 ^ 256 - 1) fun h _ =>
    Nat.le_pred_of_lt (target_lt h.nBits.toNat)
  have htime : weightedSolvetime (network.work hashGenesisBlock) c % 2 ^ 64 =
      weightedSolvetime (network.work hashGenesisBlock) c := Int.emod_eq_of_lt (by omega) (by omega)
  have hmod : sumOfTargets (network.work hashGenesisBlock) c % 2 ^ 256 =
      sumOfTargets (network.work hashGenesisBlock) c := Nat.mod_eq_of_lt (by omega)
  simp only [lwmaTarget, Network.work_powLimit, Network.work_posLimit, ite_self, htime, hmod]
  rw [← lwmaProduct]
  split <;> omega

end Bounds

/-! ### The next target -/

/-- What the adjustment over the last eight blocks is to do. -/
structure LwmaExact (network : Network) (hashGenesisBlock : Nat) (c : Branch) (fProofOfStake : Bool) : Prop where
  result : lwma3CalculateNextWorkRequired (network.work hashGenesisBlock) c fProofOfStake =
    getCompact (lwmaTarget (network.work hashGenesisBlock) c fProofOfStake)
  exact : lwmaTarget (network.work hashGenesisBlock) c fProofOfStake =
    min network.limit (lwmaProduct (network.work hashGenesisBlock) c)
  nonzero : target (lwma3CalculateNextWorkRequired (network.work hashGenesisBlock) c fProofOfStake) ≠ 0
  atMostLimit : target (lwma3CalculateNextWorkRequired (network.work hashGenesisBlock) c fProofOfStake) ≤
    network.limit
  atMostSix : ∃ h ∈ c.take 8,
    target (lwma3CalculateNextWorkRequired (network.work hashGenesisBlock) c fProofOfStake) ≤
      6 * target h.nBits.toNat

section Lwma

variable {network : Network} {hashGenesisBlock : Nat} {c : Branch} {fProofOfStake : Bool}

theorem exists_target_ge (hlength : 8 < c.length) {v : Nat}
    (hv : v ≤ lwmaProduct (network.work hashGenesisBlock) c) : ∃ h ∈ c.take 8, v ≤ 6 * target h.nBits.toNat := by
  by_contra hnone
  have hbound : ∀ h ∈ c.take 8, target h.nBits.toNat ≤ (v - 1) / 6 := by
    intro h hmem
    have hless : ¬ v ≤ 6 * target h.nBits.toNat := fun hle => hnone ⟨h, hmem, hle⟩
    omega
  have hproduct := @lwmaProduct_le network hashGenesisBlock c hlength _ hbound
  cases htake : c.take 8 with
  | nil =>
    rw [List.take_eq_nil_iff] at htake
    rcases htake with htake | htake
    · omega
    · rw [htake] at hlength
      simp at hlength
  | cons h rest => exact hnone ⟨h, by rw [htake]; exact .head _, by omega⟩

/-- **The adjustment is exact** where the product fits, or is cut to something above the limit, and where
one of the targets is at least the number it is divided by. -/
theorem lwmaExact_iff (hlength : 8 < c.length) :
    LwmaExact network hashGenesisBlock c fProofOfStake ↔
      (lwmaProduct (network.work hashGenesisBlock) c < 2 ^ 256 ∨
          network.limit ≤ lwmaProduct (network.work hashGenesisBlock) c % 2 ^ 256) ∧
        ∃ h ∈ c.take 8, 1728 ≤ target h.nBits.toNat := by
  have heq := @lwmaTarget_eq network hashGenesisBlock c hlength fProofOfStake
  obtain ⟨hlow, -⟩ := @weightedSolvetime_bounds network hashGenesisBlock c hlength
  have hproduct : lwmaProduct (network.work hashGenesisBlock) c ≠ 0 ↔
      ∃ h ∈ c.take 8, 1728 ≤ target h.nBits.toNat := by
    rw [← @sumOfTargets_pos_iff network hashGenesisBlock, lwmaProduct, Nat.mul_ne_zero_iff]
    constructor
    · intro h
      omega
    · intro h
      omega
  have hexact : lwmaTarget (network.work hashGenesisBlock) c fProofOfStake =
        min network.limit (lwmaProduct (network.work hashGenesisBlock) c) ↔
      (lwmaProduct (network.work hashGenesisBlock) c < 2 ^ 256 ∨
        network.limit ≤ lwmaProduct (network.work hashGenesisBlock) c % 2 ^ 256) := by
    rw [heq]
    exact min_mod_eq_iff network.limit_lt
  constructor
  · intro h
    refine ⟨hexact.mp h.exact, hproduct.mp fun hzero => h.nonzero ?_⟩
    rw [lwma3_eq hlength, h.exact, hzero, Nat.min_zero]
    decide +kernel
  · rintro ⟨hfits, hsome⟩
    have htarget := hexact.mpr hfits
    have hnonzero : lwmaTarget (network.work hashGenesisBlock) c fProofOfStake ≠ 0 := by
      rw [htarget]
      exact (Nat.lt_min.mpr ⟨network.limit_pos, Nat.pos_of_ne_zero (hproduct.mpr hsome)⟩).ne'
    have hlt : lwmaTarget (network.work hashGenesisBlock) c fProofOfStake < 2 ^ 256 := by
      rw [htarget]
      exact Nat.lt_of_le_of_lt (Nat.min_le_left _ _) network.limit_lt
    have hproductLe : target (getCompact (lwmaTarget (network.work hashGenesisBlock) c fProofOfStake)) ≤
        lwmaProduct (network.work hashGenesisBlock) c := by
      refine Nat.le_trans (setCompact_getCompact_le hlt) ?_
      rw [htarget]
      exact Nat.min_le_right _ _
    refine ⟨lwma3_eq hlength fProofOfStake, htarget, ?_, target_lwma3_le c fProofOfStake, ?_⟩
    · rw [lwma3_eq hlength]
      exact setCompact_getCompact_ne_zero hlt hnonzero
    · rw [lwma3_eq hlength]
      exact exists_target_ge hlength hproductLe

theorem Produced.lwmaProduct_lt (hproduced : Produced network hashGenesisBlock c) (hlength : 8 < c.length)
    (hnetwork : network ≠ .test) : lwmaProduct (network.work hashGenesisBlock) c < 2 ^ 256 := by
  have hproduct := @lwmaProduct_le network hashGenesisBlock c hlength network.limit fun h hmem =>
    hproduced.target_le h (List.mem_of_mem_take hmem)
  have hlimit : network.limit = 2 ^ 236 - 1 := by
    cases network with
    | main => rfl
    | test => exact absurd rfl hnetwork
    | regtest => rfl
  omega

end Lwma

/-! ### The next target from the last one -/

/-- What `CalculateNextWorkRequired` changes the target to before it caps it. -/
def changedTarget (last : IndexHeader) (nFirstBlockTime : Int) : Nat :=
  if keepsBits W last then target last.nBits.toNat else retarget W last nFirstBlockTime

/-- The target changes by a factor between `(interval - 1) / (interval + 1)` and
`(interval + 19) / (interval + 1)`, rounded down, and is capped. -/
structure RetargetBounded (network : Network) (hashGenesisBlock : Nat) (last : IndexHeader) (first : Int) : Prop where
  result : calculateNextWorkRequired (network.work hashGenesisBlock) last first =
    if keepsBits (network.work hashGenesisBlock) last then last.nBits.toNat
    else getCompact
      (if changedTarget (network.work hashGenesisBlock) last first = 0 ||
          network.limit < changedTarget (network.work hashGenesisBlock) last first
      then network.limit else changedTarget (network.work hashGenesisBlock) last first)
  low : (network.interval - 1) * target last.nBits.toNat <
    (network.interval + 1) * (changedTarget (network.work hashGenesisBlock) last first + 1)
  high : (network.interval + 1) * changedTarget (network.work hashGenesisBlock) last first ≤
    (network.interval + 19) * target last.nBits.toNat

section Retarget

variable {network : Network} {hashGenesisBlock : Nat} {last : IndexHeader} {first : Int}

theorem actualSpacing_bounds {W : WorkParams} (hspacing : 0 < W.nTargetSpacing) :
    0 ≤ actualSpacing W last first ∧ actualSpacing W last first ≤ W.nTargetSpacing * 10 := by
  simp only [actualSpacing]
  split <;> split <;> omega

theorem retargetFactor_bounds :
    (network.interval - 1) * network.spacing ≤ (retargetFactor (network.work hashGenesisBlock) last first).toNat ∧
      (retargetFactor (network.work hashGenesisBlock) last first).toNat ≤
        (network.interval + 19) * network.spacing ∧
      retargetFactor (network.work hashGenesisBlock) last first % 2 ^ 32 =
        retargetFactor (network.work hashGenesisBlock) last first := by
  have hspacing : 0 < (network.work hashGenesisBlock).nTargetSpacing := by
    cases network <;> simp [Network.work, mainWork, testWork, regtestWork]
  obtain ⟨hlow, hhigh⟩ := @actualSpacing_bounds last first (network.work hashGenesisBlock) hspacing
  have hfactor : retargetFactor (network.work hashGenesisBlock) last first =
      ((network.interval - 1) * network.spacing : Nat) + actualSpacing (network.work hashGenesisBlock) last first +
        actualSpacing (network.work hashGenesisBlock) last first := by
    rw [retargetFactor]
    cases network <;> rfl
  have hten : (network.work hashGenesisBlock).nTargetSpacing * 10 = (10 * network.spacing : Nat) := by
    cases network <;> rfl
  have hnetwork : (network.interval + 19) * network.spacing =
      (network.interval - 1) * network.spacing + 20 * network.spacing ∧
      (network.interval + 19) * network.spacing < 2 ^ 32 := by
    cases network <;> decide
  rw [hten] at hhigh
  omega

theorem changedTarget_eq (hkeep : keepsBits (network.work hashGenesisBlock) last = false) :
    changedTarget (network.work hashGenesisBlock) last first =
      target last.nBits.toNat * (retargetFactor (network.work hashGenesisBlock) last first).toNat % 2 ^ 256 /
        ((network.interval + 1) * network.spacing) := by
  have hdivisor : (retargetDivisor (network.work hashGenesisBlock)).toNat =
      (network.interval + 1) * network.spacing := by
    cases network <;> rfl
  rw [changedTarget, hkeep, retarget, hdivisor, (@retargetFactor_bounds network hashGenesisBlock last first).2.2]
  rfl

theorem bounds_of_fits {old factor : Nat} (hlow : (network.interval - 1) * network.spacing ≤ factor)
    (hhigh : factor ≤ (network.interval + 19) * network.spacing) :
    (network.interval - 1) * old <
        (network.interval + 1) * (old * factor / ((network.interval + 1) * network.spacing) + 1) ∧
      (network.interval + 1) * (old * factor / ((network.interval + 1) * network.spacing)) ≤
        (network.interval + 19) * old := by
  have hleast := Nat.mul_le_mul_left old hlow
  have hmost := Nat.mul_le_mul_left old hhigh
  generalize old * factor = product at hleast hmost
  cases network <;> simp only [Network.interval, Network.spacing] at hleast hmost ⊢ <;> omega

theorem target_dvd {nBits : Nat} (h : 2 ^ 247 ≤ target nBits) : 2 ^ 224 ∣ target nBits := by
  have hmantissa : nBits % 2 ^ 23 < 2 ^ 23 := Nat.mod_lt _ (by decide)
  simp only [target, setCompact] at h ⊢
  generalize nBits / 2 ^ 24 % 256 = size at h ⊢
  by_cases hsmall : size ≤ 3
  · rw [if_pos hsmall, if_pos hsmall] at h
    have hle := Nat.div_le_self (nBits % 2 ^ 23) (2 ^ (8 * (3 - size)))
    omega
  · rw [if_neg hsmall, if_neg hsmall] at h ⊢
    by_cases hlarge : 31 ≤ size
    · have hword : 2 ^ 224 ∣ nBits % 2 ^ 23 * 2 ^ (8 * (size - 3)) :=
        Dvd.dvd.mul_left (Nat.pow_dvd_pow 2 (by omega)) _
      exact (Nat.dvd_mod_iff (Nat.pow_dvd_pow 2 (by decide))).mpr hword
    · have hpow : 2 ^ (8 * (size - 3)) ≤ 2 ^ 216 := Nat.pow_le_pow_right (by decide) (by omega)
      have hmul := Nat.mul_le_mul (Nat.le_of_lt hmantissa) hpow
      omega

/-- On the test network a product that does not fit gives a target that is too small. -/
theorem small_of_overflow {old factor : Nat} (hdvd : 2 ^ 247 ≤ old → 2 ^ 224 ∣ old) (hlow : 174 ≤ factor)
    (hhigh : factor ≤ 294) (hover : 2 ^ 256 ≤ old * factor) :
    31 * (old * factor % 2 ^ 256 / 186 + 1) ≤ 29 * old := by
  have hlarge : 2 ^ 247 ≤ old := by
    have hmost := Nat.mul_le_mul_left old hhigh
    omega
  obtain ⟨k, rfl⟩ := hdvd hlarge
  have hleast := Nat.mul_le_mul_left k hlow
  have hmost := Nat.mul_le_mul_left k hhigh
  -- in units of `2 ^ 224` the product is cut at `2 ^ 32`
  rw [Nat.mul_assoc] at hover ⊢
  generalize k * factor = product at hleast hmost hover ⊢
  have hcut : 2 ^ 224 * product % 2 ^ 256 = 2 ^ 224 * (product % 2 ^ 32) := by omega
  rw [hcut]
  omega

/-- **The change is within its bounds**, if the product fits where it may not. -/
theorem retargetBounded_iff (hlast : target last.nBits.toNat ≤ network.limit) :
    RetargetBounded network hashGenesisBlock last first ↔
      (network = .test → last.fProofOfStake = true →
        target last.nBits.toNat * (retargetFactor (network.work hashGenesisBlock) last first).toNat < 2 ^ 256) := by
  obtain ⟨hlow, hhigh, -⟩ := @retargetFactor_bounds network hashGenesisBlock last first
  by_cases hkeep : keepsBits (network.work hashGenesisBlock) last = true
  · have hchanged : changedTarget (network.work hashGenesisBlock) last first = target last.nBits.toNat :=
      if_pos hkeep
    have hwork : last.fProofOfStake = false := by
      simp only [keepsBits, Bool.and_eq_true, Bool.not_eq_true'] at hkeep
      exact hkeep.1
    refine ⟨fun _ _ hstake => absurd hstake (by simp [hwork]), fun _ => ⟨?_, ?_, ?_⟩⟩
    · rw [calculateNextWorkRequired_eq, if_pos hkeep, if_pos hkeep]
    · rw [hchanged]
      cases network <;> simp only [Network.interval] <;> omega
    · rw [hchanged]
      cases network <;> simp only [Network.interval] <;> omega
  · have hchanged := @changedTarget_eq network hashGenesisBlock last first (by simpa using hkeep)
    constructor
    · intro h htest _
      subst htest
      by_contra hover
      have hsmall := small_of_overflow (@target_dvd last.nBits.toNat) hlow hhigh (Nat.le_of_not_lt hover)
      have hbound := h.low
      rw [hchanged] at hbound
      simp only [Network.interval, Network.spacing] at hbound
      omega
    · intro h
      have hfits : target last.nBits.toNat *
          (retargetFactor (network.work hashGenesisBlock) last first).toNat < 2 ^ 256 := by
        have hmost := Nat.mul_le_mul hlast hhigh
        cases network with
        | main => exact Nat.lt_of_le_of_lt hmost (by decide)
        | test => exact h rfl (by simpa [keepsBits, Network.work, testWork] using hkeep)
        | regtest => exact Nat.lt_of_le_of_lt hmost (by decide)
      obtain ⟨hbelow, habove⟩ := @bounds_of_fits network (target last.nBits.toNat) _ hlow hhigh
      rw [Nat.mod_eq_of_lt hfits] at hchanged
      refine ⟨?_, by rw [hchanged]; exact hbelow, by rw [hchanged]; exact habove⟩
      rw [calculateNextWorkRequired_eq, if_neg hkeep, if_neg hkeep]
      simp only [Network.work_powLimit, Network.work_posLimit, ite_self]
      rw [changedTarget, if_neg hkeep]

end Retarget

/-! ### Produced chains -/

/-- **The difficulty of the chains that the rules produce.** The adjustment over the last eight blocks is
exact, not zero and within its bounds if and only if one of their targets is at least 1728 and, on the test
network, the product fits into 256 bits or is cut to something above the limit. The change of the last
target is within its bounds if and only if, for a proof-of-stake block on the test network, its product
fits. -/
theorem difficulty_exact_iff {network : Network} {hashGenesisBlock : Nat} {c : Branch}
    (hproduced : Produced network hashGenesisBlock c) :
    (c.length ≤ 8 → ∀ fProofOfStake,
      lwma3CalculateNextWorkRequired (network.work hashGenesisBlock) c fProofOfStake = getCompact network.limit) ∧
    (8 < c.length → ∀ fProofOfStake, LwmaExact network hashGenesisBlock c fProofOfStake ↔
      (network = .test → lwmaProduct (network.work hashGenesisBlock) c < 2 ^ 256 ∨
          network.limit ≤ lwmaProduct (network.work hashGenesisBlock) c % 2 ^ 256) ∧
        ∃ h ∈ c.take 8, 1728 ≤ target h.nBits.toNat) ∧
    ∀ last ∈ c, ∀ first, RetargetBounded network hashGenesisBlock last first ↔
      (network = .test → last.fProofOfStake = true →
        target last.nBits.toNat * (retargetFactor (network.work hashGenesisBlock) last first).toNat < 2 ^ 256) := by
  refine ⟨fun hlength fProofOfStake => ?_, fun hlength fProofOfStake => ?_, fun last hmem first => ?_⟩
  · rw [lwma3_short hlength, Network.work_powLimit, Network.work_posLimit, ite_self]
  · rw [lwmaExact_iff hlength]
    refine and_congr_left fun _ => ?_
    constructor
    · intro h _
      exact h
    · intro h
      by_cases htest : network = .test
      · exact h htest
      · exact .inl (hproduced.lwmaProduct_lt hlength htest)
  · exact retargetBounded_iff (hproduced.target_le last hmem)

/-- Blocks of the test network, twelve seconds apart, with one more second before the last eight but one. -/
def slowChain : Branch :=
  (List.range 150).reverse.map fun i =>
    ⟨i, UInt32.ofNat (1665871306 + 12 * i + if 142 ≤ i then 1 else 0), 0x207fffff, false⟩

theorem difficulty_exact_slowChain :
    (slowChain.length ≤ 8 → ∀ fProofOfStake,
      lwma3CalculateNextWorkRequired (Network.test.work 0) slowChain fProofOfStake =
        getCompact Network.test.limit) ∧
    (8 < slowChain.length → ∀ fProofOfStake, LwmaExact .test 0 slowChain fProofOfStake ↔
      (Network.test = .test → lwmaProduct (Network.test.work 0) slowChain < 2 ^ 256 ∨
          Network.test.limit ≤ lwmaProduct (Network.test.work 0) slowChain % 2 ^ 256) ∧
        ∃ h ∈ slowChain.take 8, 1728 ≤ target h.nBits.toNat) ∧
    ∀ last ∈ slowChain, ∀ first, RetargetBounded .test 0 last first ↔
      (Network.test = .test → last.fProofOfStake = true →
        target last.nBits.toNat * (retargetFactor (Network.test.work 0) last first).toNat < 2 ^ 256) :=
  difficulty_exact_iff (by decide +kernel)

/-- The first block that the adjustment over eight blocks decides on the test network, after blocks that are
slower than they should be: it must have a target more than two hundred times smaller. -/
theorem difficulty_wraps :
    Produced .test 0 slowChain ∧
    ¬ LwmaExact .test 0 slowChain false ∧
    getNextWorkRequired (Network.test.work 0) slowChain = 0x200097b2 := by
  refine ⟨by decide +kernel, fun h => ?_, by decide +kernel⟩
  have hexact := h.exact
  revert hexact
  decide +kernel

end Rapids.Chain
