import Rapids.Chain.Work

/-!
# Rapids.Chain.Difficulty

**The compact form of targets, and the chains whose targets the rules choose.**

`getCompact` keeps the three highest bytes of a number, so that what `setCompact` reads back is at most
the number, and not zero unless the number is (`setCompact_getCompact_le`,
`setCompact_getCompact_ne_zero`).

In a chain that is `Produced` every header has the `nBits` that `GetNextWorkRequired` says over the
headers below it. No target in it is above the network's limit (`Produced.target_le`).
-/

namespace Rapids.Chain

open Rapids.Lib

/-! ### The compact form -/

/-- The target that `nBits` stand for, as it is used where the flags are not looked at. -/
def target (nBits : Nat) : Nat := (setCompact nBits).1

theorem target_lt (nBits : Nat) : target nBits < 2 ^ 256 := by
  have hmantissa : nBits % 2 ^ 23 < 2 ^ 23 := Nat.mod_lt _ (by decide)
  simp only [target, setCompact]
  by_cases hsize : nBits / 2 ^ 24 % 256 ≤ 3
  · rw [if_pos hsize, if_pos hsize]
    exact Nat.lt_of_le_of_lt (Nat.div_le_self _ _) (Nat.lt_trans hmantissa (by decide))
  · rw [if_neg hsize]
    exact Nat.mod_lt _ (by decide)

theorem target_mk {m size : Nat} (hm : m < 2 ^ 23) (hsize : size < 256) :
    target (m + size * 2 ^ 24) =
      if size ≤ 3 then m / 2 ^ (8 * (3 - size)) else m * 2 ^ (8 * (size - 3)) % 2 ^ 256 := by
  have hexponent : (m + size * 2 ^ 24) / 2 ^ 24 % 256 = size := by omega
  have hmantissa : (m + size * 2 ^ 24) % 2 ^ 23 = m := by omega
  simp only [target, setCompact, hexponent, hmantissa]
  by_cases hsmall : size ≤ 3
  · rw [if_pos hsmall, if_pos hsmall, if_pos hsmall]
  · rw [if_neg hsmall, if_neg hsmall, if_neg hsmall]

theorem lt_two_pow_numBits (v : Nat) : v < 2 ^ numBits v := by
  rw [numBits]
  by_cases hv : v = 0
  · simp [hv]
  · rw [if_neg hv]
    exact Nat.lt_log2_self

theorem two_pow_le_of_lt_numBits {v n : Nat} (h : n < numBits v) : 2 ^ n ≤ v := by
  rw [numBits] at h
  by_cases hv : v = 0
  · simp [hv] at h
  · rw [if_neg hv] at h
    exact Nat.le_trans (Nat.pow_le_pow_right (by decide) (by omega)) (Nat.log2_self_le hv)

theorem numBits_le {v n : Nat} (hv : v < 2 ^ n) : numBits v ≤ n :=
  Nat.le_of_not_lt fun hmore => absurd (two_pow_le_of_lt_numBits hmore) (Nat.not_le_of_lt hv)

/-- The mantissa for an exponent: the number without its lowest bytes, or with bytes of zeros. -/
def mantissa (v size : Nat) : Nat := if size ≤ 3 then v * 2 ^ (8 * (3 - size)) else v / 2 ^ (8 * (size - 3))

theorem mantissa_succ (v size : Nat) : mantissa v (size + 1) = mantissa v size / 2 ^ 8 := by
  rw [mantissa, mantissa]
  by_cases hless : size + 1 ≤ 3
  · have hpow : 8 * (3 - size) = 8 * (3 - (size + 1)) + 8 := by omega
    rw [if_pos hless, if_pos (by omega), hpow, Nat.pow_add, ← Nat.mul_assoc, Nat.mul_div_cancel _ (by decide)]
  · rw [if_neg hless]
    by_cases hthree : size ≤ 3
    · have hsize : size = 3 := by omega
      subst hsize
      simp
    · have hpow : 8 * (size + 1 - 3) = 8 * (size - 3) + 8 := by omega
      rw [if_neg hthree, hpow, Nat.pow_add, Nat.div_div_eq_div_mul]

theorem getCompact_mk {v : Nat} (hv : v < 2 ^ 256) :
    ∃ size, size ≤ 33 ∧ mantissa v size < 2 ^ 23 ∧ (v ≠ 0 → 2 ^ 15 ≤ mantissa v size) ∧
      getCompact v = mantissa v size + size * 2 ^ 24 := by
  obtain ⟨size, hsize⟩ : ∃ size, size = (numBits v + 7) / 8 := ⟨_, rfl⟩
  have hbits := numBits_le hv
  have hlt : v < 2 ^ (8 * size) :=
    Nat.lt_of_lt_of_le (lt_two_pow_numBits v) (Nat.pow_le_pow_right (by decide) (by omega))
  -- the mantissa has three bytes
  have hbytes : mantissa v size < 2 ^ 24 := by
    rw [mantissa]
    by_cases hthree : size ≤ 3
    · have hpow : 24 = 8 * size + 8 * (3 - size) := by omega
      rw [if_pos hthree, hpow, Nat.pow_add]
      exact Nat.mul_lt_mul_of_pos_right hlt (Nat.two_pow_pos _)
    · have hpow : 8 * size = 8 * (size - 3) + 24 := by omega
      rw [if_neg hthree]
      refine Nat.div_lt_of_lt_mul ?_
      rwa [← Nat.pow_add, ← hpow]
  -- and the highest of them is not zero
  have hhigh : v ≠ 0 → 2 ^ 16 ≤ mantissa v size := by
    intro hne
    have hbit : numBits v ≠ 0 := by
      rw [numBits, if_neg hne]
      omega
    have hle : 2 ^ (8 * (size - 1)) ≤ v := two_pow_le_of_lt_numBits (by omega)
    rw [mantissa]
    by_cases hthree : size ≤ 3
    · have hpow : 16 = 8 * (size - 1) + 8 * (3 - size) := by omega
      rw [if_pos hthree, hpow, Nat.pow_add]
      exact Nat.mul_le_mul_right _ hle
    · have hpow : 8 * (size - 1) = 16 + 8 * (size - 3) := by omega
      rw [hpow, Nat.pow_add] at hle
      rw [if_neg hthree]
      exact (Nat.le_div_iff_mul_le (Nat.two_pow_pos _)).mpr hle
  have hcompact : getCompact v =
      if mantissa v size / 2 ^ 23 % 2 = 1 then mantissa v size / 2 ^ 8 + (size + 1) * 2 ^ 24
      else mantissa v size + size * 2 ^ 24 := by
    have hword : (if size ≤ 3 then v * 2 ^ (8 * (3 - size)) else v / 2 ^ (8 * (size - 3)) % 2 ^ 32) =
        mantissa v size := by
      rw [mantissa]
      by_cases hthree : size ≤ 3
      · rw [if_pos hthree, if_pos hthree]
      · rw [mantissa, if_neg hthree] at hbytes
        rw [if_neg hthree, if_neg hthree]
        exact Nat.mod_eq_of_lt (by omega)
    simp only [getCompact, ← hsize, hword]
  by_cases hsign : mantissa v size / 2 ^ 23 % 2 = 1
  · -- the highest bit is set, so the mantissa gives up a byte
    refine ⟨size + 1, by omega, ?_, ?_, ?_⟩
    · rw [mantissa_succ]
      omega
    · intro hne
      have := hhigh hne
      rw [mantissa_succ]
      omega
    · rw [mantissa_succ, hcompact, if_pos hsign]
  · refine ⟨size, by omega, by omega, fun hne => by have := hhigh hne; omega, ?_⟩
    rw [hcompact, if_neg hsign]

theorem mantissa_eq (v size : Nat) :
    mantissa v size = v / 2 ^ (8 * (size - 3)) * 2 ^ (8 * (3 - size)) := by
  rw [mantissa]
  by_cases hthree : size ≤ 3
  · simp [if_pos hthree, Nat.sub_eq_zero_of_le hthree]
  · simp [if_neg hthree, Nat.sub_eq_zero_of_le (Nat.le_of_not_le hthree)]

theorem target_mantissa {v size : Nat} (hv : v < 2 ^ 256) (hsize : size < 256) (hm : mantissa v size < 2 ^ 23) :
    target (mantissa v size + size * 2 ^ 24) = v / 2 ^ (8 * (size - 3)) * 2 ^ (8 * (size - 3)) := by
  rw [target_mk hm hsize, mantissa_eq]
  by_cases hthree : size ≤ 3
  · rw [if_pos hthree, Nat.mul_div_cancel _ (Nat.two_pow_pos _), Nat.sub_eq_zero_of_le hthree, Nat.mul_zero,
      Nat.pow_zero, Nat.mul_one]
  · rw [if_neg hthree, Nat.sub_eq_zero_of_le (Nat.le_of_not_le hthree), Nat.mul_zero, Nat.pow_zero, Nat.mul_one]
    exact Nat.mod_eq_of_lt (Nat.lt_of_le_of_lt (Nat.div_mul_le_self _ _) hv)

/-- **The compact form rounds down.** -/
theorem setCompact_getCompact_le {v : Nat} (hv : v < 2 ^ 256) : target (getCompact v) ≤ v := by
  obtain ⟨size, hsize, hm, -, heq⟩ := getCompact_mk hv
  rw [heq, target_mantissa hv (by omega) hm]
  exact Nat.div_mul_le_self _ _

/-- **The compact form of a number other than zero** stands for one. -/
theorem setCompact_getCompact_ne_zero {v : Nat} (hv : v < 2 ^ 256) (hne : v ≠ 0) : target (getCompact v) ≠ 0 := by
  obtain ⟨size, hsize, hm, hhigh, heq⟩ := getCompact_mk hv
  have hnonzero := hhigh hne
  rw [heq, target_mantissa hv (by omega) hm]
  refine Nat.mul_ne_zero (fun hzero => ?_) (Nat.two_pow_pos _).ne'
  rw [mantissa_eq, hzero, Nat.zero_mul] at hnonzero
  omega

/-! ### The networks -/

/-- `CTestNetParams`. The hash of its genesis block is computed when the program starts. -/
def testWork (hashGenesisBlock : Nat) : WorkParams where
  hashGenesisBlock := hashGenesisBlock
  powLimit := 2 ^ 255 - 1
  posLimit := 2 ^ 255 - 1
  fPowAllowMinDifficultyBlocks := true
  nTargetTimespan := 30 * 6
  nTargetSpacing := 6
  nPosTargetSpacing := 6
  nRpdProtocolHeight := 150
  regTest := false

/-- `CRegTestParams`, which leaves the rest as it is on the test network. -/
def regtestWork (hashGenesisBlock : Nat) : WorkParams :=
  { testWork hashGenesisBlock with
    powLimit := 2 ^ 236 - 1
    posLimit := 2 ^ 236 - 1
    nTargetTimespan := 30 * 60
    nTargetSpacing := 1 * 60
    regTest := true }

namespace Network

/-- The parameters of a network. -/
def work (hashGenesisBlock : Nat) : Network → WorkParams
  | .main => mainWork
  | .test => testWork hashGenesisBlock
  | .regtest => regtestWork hashGenesisBlock

/-- The `nBits` of the genesis block. -/
def genesisBits : Network → UInt32
  | .main => 0x1e0ffff0
  | .test => 0x207fffff
  | .regtest => 0x1e0ffff0

/-- `powLimit` and `posLimit`, which no network has different. -/
def limit : Network → Nat
  | .main => 2 ^ 236 - 1
  | .test => 2 ^ 255 - 1
  | .regtest => 2 ^ 236 - 1

/-- `nTargetSpacing` -/
def spacing : Network → Nat
  | .main => 120
  | .test => 6
  | .regtest => 60

/-- `nTargetTimespan / nTargetSpacing` -/
def interval : Network → Nat
  | .main => 15
  | .test => 30
  | .regtest => 30

variable (network : Network) (hashGenesisBlock : Nat)

@[simp] theorem work_powLimit : (network.work hashGenesisBlock).powLimit = network.limit := by
  cases network <;> rfl

@[simp] theorem work_posLimit : (network.work hashGenesisBlock).posLimit = network.limit := by
  cases network <;> rfl

theorem limit_lt : network.limit < 2 ^ 256 := by
  cases network <;> decide

theorem limit_pos : 0 < network.limit := by
  cases network <;> decide

theorem genesisBits_le : target network.genesisBits.toNat ≤ network.limit := by
  cases network <;> decide +kernel

end Network

/-! ### Chains that the rules produce -/

/-- Every header has the `nBits` required of it. -/
def Produced (network : Network) (hashGenesisBlock : Nat) : Branch → Prop
  | [] => True
  | [genesis] => genesis.nBits = network.genesisBits
  | h :: p :: rest =>
    h.nBits.toNat = getNextWorkRequired (network.work hashGenesisBlock) (p :: rest) ∧
      Produced network hashGenesisBlock (p :: rest)

/-- A chain can be checked header by header. -/
instance decidableProduced (network : Network) (hashGenesisBlock : Nat) :
    (c : Branch) → Decidable (Produced network hashGenesisBlock c)
  | [] => .isTrue trivial
  | [genesis] => inferInstanceAs (Decidable (genesis.nBits = network.genesisBits))
  | h :: p :: rest =>
    @instDecidableAnd (h.nBits.toNat = getNextWorkRequired (network.work hashGenesisBlock) (p :: rest)) _
      inferInstance (decidableProduced network hashGenesisBlock (p :: rest))

theorem getLastBlockIndex_suffix (fProofOfStake : Bool) (c : Branch) : getLastBlockIndex fProofOfStake c <:+ c := by
  induction c with
  | nil => exact List.suffix_rfl
  | cons h rest ih =>
    cases rest with
    | nil => exact List.suffix_rfl
    | cons p rest =>
      rw [getLastBlockIndex]
      by_cases hkind : h.fProofOfStake ≠ fProofOfStake
      · rw [if_pos hkind]
        exact ih.trans (List.suffix_cons h (p :: rest))
      · simp [if_neg hkind]

/-! ### The retarget -/

variable (W : WorkParams) (last : IndexHeader)

variable (nFirstBlockTime : Int)

/-- The time that the last block took, between nothing and ten times what it should take. -/
def actualSpacing : Int :=
  let spacing := (last.nTime.toNat : Int) - nFirstBlockTime
  let spacing := if spacing < 0 then W.nTargetSpacing else spacing
  if W.nTargetSpacing * 10 < spacing then W.nTargetSpacing * 10 else spacing

/-- What the last target is multiplied with. -/
def retargetFactor : Int :=
  (W.nTargetTimespan.tdiv W.nTargetSpacing - 1) * W.nTargetSpacing +
    actualSpacing W last nFirstBlockTime + actualSpacing W last nFirstBlockTime

/-- What it is divided by. -/
def retargetDivisor : Int := (W.nTargetTimespan.tdiv W.nTargetSpacing + 1) * W.nTargetSpacing

/-- `bnNew` before it is capped. -/
def retarget : Nat :=
  target last.nBits.toNat * (retargetFactor W last nFirstBlockTime % 2 ^ 32).toNat % 2 ^ 256 /
    (retargetDivisor W).toNat

/-- A proof-of-work block on a network that lets the difficulty be. -/
def keepsBits : Bool := !last.fProofOfStake && W.fPowAllowMinDifficultyBlocks

theorem calculateNextWorkRequired_eq (first : Int) :
    calculateNextWorkRequired W last first =
      if keepsBits W last then last.nBits.toNat
      else getCompact
        (if retarget W last first = 0 || (if last.fProofOfStake then W.posLimit else W.powLimit) < retarget W last first
        then (if last.fProofOfStake then W.posLimit else W.powLimit) else retarget W last first) :=
  rfl

section Limit

variable {network : Network} {hashGenesisBlock : Nat}

theorem target_capped_le {v : Nat} (h : v ≤ network.limit) : target (getCompact v) ≤ network.limit :=
  Nat.le_trans (setCompact_getCompact_le (Nat.lt_of_le_of_lt h network.limit_lt)) h

theorem target_lwma3_le (c : Branch) (fProofOfStake : Bool) :
    target (lwma3CalculateNextWorkRequired (network.work hashGenesisBlock) c fProofOfStake) ≤ network.limit := by
  simp only [lwma3CalculateNextWorkRequired, Network.work_powLimit, Network.work_posLimit, ite_self]
  cases c.drop 8 with
  | nil => exact target_capped_le (Nat.le_refl _)
  | cons before rest =>
    refine target_capped_le ?_
    split <;> omega

theorem target_calculate_le {last : IndexHeader} (hlast : target last.nBits.toNat ≤ network.limit) (first : Int) :
    target (calculateNextWorkRequired (network.work hashGenesisBlock) last first) ≤ network.limit := by
  rw [calculateNextWorkRequired_eq]
  by_cases hkeep : keepsBits (network.work hashGenesisBlock) last = true
  · rw [if_pos hkeep]
    exact hlast
  · rw [if_neg hkeep]
    simp only [Network.work_powLimit, Network.work_posLimit, ite_self]
    refine target_capped_le ?_
    by_cases hcap : (retarget (network.work hashGenesisBlock) last first = 0 ||
        network.limit < retarget (network.work hashGenesisBlock) last first) = true
    · rw [if_pos hcap]
    · rw [if_neg hcap]
      simp only [Bool.or_eq_true, decide_eq_true_eq, not_or] at hcap
      omega

theorem target_required_le {c : Branch} (hc : ∀ h ∈ c, target h.nBits.toNat ≤ network.limit) :
    target (getNextWorkRequired (network.work hashGenesisBlock) c) ≤ network.limit := by
  simp only [getNextWorkRequired, Network.work_powLimit, Network.work_posLimit, ite_self]
  have hlimit : target (getCompact network.limit) ≤ network.limit := target_capped_le (Nat.le_refl _)
  by_cases hheight : (network.work hashGenesisBlock).nRpdProtocolHeight ≤ c.height + 1
  · rw [if_pos hheight]
    exact target_lwma3_le c _
  · rw [if_neg hheight]
    have hsuffix := getLastBlockIndex_suffix ((c.head?.map IndexHeader.fProofOfStake).getD false) c
    split
    · rename_i prev p rest hprev
      have hmem : prev ∈ c := hsuffix.subset (by rw [hprev]; exact .head _)
      split
      · exact target_calculate_le (hc prev hmem) _
      · exact hlimit
    · exact hlimit

/-- **No target of a produced chain is above the limit.** -/
theorem Produced.target_le {c : Branch} (h : Produced network hashGenesisBlock c) :
    ∀ b ∈ c, target b.nBits.toNat ≤ network.limit := by
  induction c with
  | nil => simp
  | cons b rest ih =>
    intro x hx
    cases rest with
    | nil =>
      rw [List.mem_singleton.mp hx]
      rw [Produced] at h
      rw [h]
      exact network.genesisBits_le
    | cons p rest =>
      obtain ⟨hbits, hrest⟩ := h
      rcases List.mem_cons.mp hx with rfl | hx
      · rw [hbits]
        exact target_required_le (ih hrest)
      · exact ih hrest x hx

end Limit

end Rapids.Chain
