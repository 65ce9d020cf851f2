import Rapids.Chain.Kernel

/-!
# Rapids.Chain.StakeTime

**The staker and the validator** (`Stake` and `CheckProofOfStake` in `kernel.cpp`,
`CheckBlockTime` in `main.cpp`, `timedata.cpp`). Both build the kernel from the entry of the
parent and from the output that is staked, so there they cannot differ. The time is another
matter: the staker rounds the clock down to a slot of the length at the height of the tip,
the validator takes the length at the height of the new block; and the time that the staker
goes by has 64 bits, that of the block 32.

`stake_accepted` says that what is staked passes, for every parent and clock, as long as the
time fits the header and, on the main network, the tip is below the height where the length
of a slot changes.
-/

namespace Rapids.Chain

open Rapids.Lib

/-! ### Parameters -/

/-- `nRpdProtocolHeight`. On the main network it is the largest `int`. -/
def Network.nRpdProtocolHeight : Network → Nat
  | .main => 2147483647
  | .test => 150
  | .regtest => 150

/-- `height_last_PoW` -/
def Network.heightLastPoW : Network → Nat
  | .main => 200
  | .test => 150
  | .regtest => 250

/-- `GetTimeSlotLength` -/
def Network.getTimeSlotLength (network : Network) (nHeight : Nat) : Int :=
  if network.nRpdProtocolHeight ≤ nHeight then 1 else 15

/-- `FutureBlockTimeDrift`: `nTimeSlotLength - 1` at every height. -/
def futureBlockTimeDrift (_ : Nat) : Int := 15 - 1

/-! ### The node -/

/-- What the node looks up for a stake. -/
structure StakeWorld where
  /-- `GetTransaction`, with the time of the block of the active chain that it is in. -/
  getTransaction : Nat → Option (Transaction × Option UInt32)
  /-- `GetOldStakeModifier` -/
  getOldStakeModifier : OutPoint → Nat
  hash : List UInt8 → UInt256
  /-- `GetAdjustedTime` -/
  adjustedTime : Int
  /-- `chainActive.Height()` -/
  tipHeight : Nat

/-- `CPivStake` -/
structure CPivStake where
  txFrom : Transaction
  nPosition : Nat

/-- A block, as far as the two checks read it. -/
structure StakedBlock where
  hashPrevBlock : UInt256
  nTime : UInt32
  nBits : UInt32
  vtx : List Transaction

/-- The time of a branch's first entry. -/
def StakeBranch.nTime (c : StakeBranch) : Int := (c.head?.map fun e => (e.block.nTime : Int)).getD 0

variable (network : Network) (w : StakeWorld)

namespace CPivStake

/-- `GetIndexFrom`, for its time. -/
def getIndexFrom (s : CPivStake) : Option UInt32 := (w.getTransaction s.txFrom.hash).bind Prod.snd

/-- `GetUniqueness` -/
def getUniqueness (s : CPivStake) : List UInt8 := leBytes 4 s.nPosition ++ leBytes 32 s.txFrom.hash

/-- `InitFromTxIn` -/
def initFromTxIn (i : TxIn) : Option CPivStake :=
  if i.isZerocoinSpend then none
  else
    match w.getTransaction i.prevout.hash with
    | some (txPrev, some _) => some ⟨txPrev, i.prevout.n⟩
    | _ => none

end CPivStake

/-- The constructor of `CStakeKernel`. `none` is a read outside the transaction. -/
def stakeKernel (prev : StakeBranch) (s : CPivStake) (nBits : UInt32) (nTimeTx : Int) :
    Option CStakeKernel := do
  let nTimeBlockFrom ← s.getIndexFrom w
  let out ← s.txFrom.vout[s.nPosition]?
  let stakeModifier := kernelModifier network prev (w.getOldStakeModifier ⟨s.txFrom.hash, s.nPosition⟩)
  some ⟨stakeModifier, nTimeBlockFrom, s.getUniqueness, UInt32.ofInt nTimeTx, nBits, out.nValue⟩

/-! ### The staker -/

/-- `GetCurrentTimeSlot` -/
def getCurrentTimeSlot : Int :=
  let slotLen := network.getTimeSlotLength w.tipHeight
  w.adjustedTime.tdiv slotLen * slotLen

/-- `Stake`: the time of the new block, if the stake succeeds. -/
def stake (prev : StakeBranch) (s : CPivStake) (nBits : UInt32) : Option Int :=
  if (s.getIndexFrom w).isNone then none
  else
    let nTimeTx := if network = .regtest then w.adjustedTime else getCurrentTimeSlot network w
    if nTimeTx ≤ prev.nTime ∧ network ≠ .regtest then none
    else if (stakeKernel network w prev s nBits nTimeTx).any (CStakeKernel.checkKernelHash w.hash) then
      some nTimeTx
    else none

/-! ### The validator -/

/-- `LoadStakeInput` -/
def loadStakeInput (prev : StakeBranch) (b : StakedBlock) : Option CPivStake :=
  if prev.head?.map (fun e => e.block.hash) ≠ some b.hashPrevBlock then none
  else if !(b.vtx[1]?).any Transaction.isCoinStake then none
  else ((b.vtx[1]?).bind fun tx => tx.vin[0]?).bind (CPivStake.initFromTxIn w)

/-- `CheckProofOfStake`, up to the signature. -/
def checkKernel (prev : StakeBranch) (b : StakedBlock) : Bool :=
  (loadStakeInput w prev b).any fun s =>
    (s.getIndexFrom w).isSome &&
      (stakeKernel network w prev s b.nBits b.nTime.toNat).any (CStakeKernel.checkKernelHash w.hash)

/-- `MaxFutureBlockTime` -/
def maxFutureBlockTime (prev : StakeBranch) : Int :=
  w.adjustedTime + futureBlockTimeDrift (prev.nHeight + 1)

/-- `MinPastBlockTime` -/
def minPastBlockTime (prev : StakeBranch) : Int :=
  if prev.nHeight + 1 = network.heightV4_0 then
    prev.nTime - futureBlockTimeDrift prev.nHeight + futureBlockTimeDrift (prev.nHeight + 1)
  else prev.nTime

/-- `IsValidBlockTimeStamp` -/
def isValidBlockTimeStamp (nTime : Int) (nHeight : Nat) : Bool :=
  nHeight ≤ network.heightLastPoW || nTime.tmod (network.getTimeSlotLength nHeight) = 0

/-- `CheckBlockTime` -/
def checkBlockTime (prev : StakeBranch) (b : StakedBlock) : Bool :=
  network = .regtest ||
    (b.nTime.toNat ≤ maxFutureBlockTime w prev && minPastBlockTime network prev < b.nTime.toNat &&
      isValidBlockTimeStamp network b.nTime.toNat (prev.nHeight + 1))

/-! ### What is staked is accepted -/

/-- The block is built on the parent, with the input first in its coinstake. -/
structure BuiltOn (prev : StakeBranch) (s : CPivStake) (nBits : UInt32) (nTimeTx : Int) (b : StakedBlock) :
    Prop where
  parent : prev.head?.map (fun e => e.block.hash) = some b.hashPrevBlock
  coinstake : ∃ tx i rest, b.vtx[1]? = some tx ∧ tx.isCoinStake = true ∧ tx.vin = i :: rest ∧
    i.prevout = ⟨s.txFrom.hash, s.nPosition⟩ ∧ i.isZerocoinSpend = false
  nBits_eq : b.nBits = nBits
  /-- The header holds 32 bits. -/
  nTime_eq : b.nTime = UInt32.ofInt nTimeTx

variable {network w} {prev : StakeBranch} {s : CPivStake} {nBits : UInt32} {nTimeTx : Int} {b : StakedBlock}

theorem ofInt_toNat_ofInt (x : Int) : UInt32.ofInt ((UInt32.ofInt x).toNat : Int) = UInt32.ofInt x := by
  rw [← UInt32.toNat_inj]
  simp only [UInt32.ofInt, UInt32.toNat_ofNat']
  omega

/-- What a stake that succeeds has passed. -/
theorem stake_cases (h : stake network w prev s nBits = some nTimeTx) :
    nTimeTx = (if network = .regtest then w.adjustedTime else getCurrentTimeSlot network w) ∧
      (network ≠ .regtest → prev.nTime < nTimeTx) ∧
        (stakeKernel network w prev s nBits nTimeTx).any (CStakeKernel.checkKernelHash w.hash) = true := by
  unfold stake at h
  generalize (if network = .regtest then w.adjustedTime else getCurrentTimeSlot network w) = slot at h ⊢
  by_cases hindex : (s.getIndexFrom w).isNone = true
  · rw [if_pos hindex] at h
    cases h
  · rw [if_neg hindex] at h
    by_cases hold : slot ≤ prev.nTime ∧ network ≠ .regtest
    · rw [if_pos hold] at h
      cases h
    · rw [if_neg hold] at h
      by_cases hpass :
          (stakeKernel network w prev s nBits slot).any (CStakeKernel.checkKernelHash w.hash) = true
      · rw [if_pos hpass] at h
        cases h
        exact ⟨rfl, fun hnet => Int.not_le.mp fun hle => hold ⟨hle, hnet⟩, hpass⟩
      · rw [if_neg hpass] at h
        cases h

/-- **The kernel of the validator is that of the staker**, at every clock. -/
theorem checkKernel_of_stake (hinput : ∃ t, w.getTransaction s.txFrom.hash = some (s.txFrom, some t))
    (hstake : stake network w prev s nBits = some nTimeTx) (hbuilt : BuiltOn prev s nBits nTimeTx b) :
    checkKernel network w prev b = true := by
  obtain ⟨t, ht⟩ := hinput
  obtain ⟨tx, i, rest, htx, hcs, hvin, hprevout, hzc⟩ := hbuilt.coinstake
  have hload : loadStakeInput w prev b = some s := by
    rw [loadStakeInput, if_neg (not_not.mpr hbuilt.parent), htx, Option.any_some, hcs, Option.bind_some, hvin]
    simp [CPivStake.initFromTxIn, hzc, hprevout, ht]
  have hkernel : stakeKernel network w prev s b.nBits b.nTime.toNat =
      stakeKernel network w prev s nBits nTimeTx := by
    rw [stakeKernel, stakeKernel, hbuilt.nBits_eq, hbuilt.nTime_eq, ofInt_toNat_ofInt]
  have hindex : (s.getIndexFrom w).isSome = true := by
    rw [CPivStake.getIndexFrom, ht]
    rfl
  rw [checkKernel, hload, Option.any_some, hindex, hkernel, Bool.true_and]
  exact (stake_cases hstake).2.2

theorem minPastBlockTime_eq (prev : StakeBranch) : minPastBlockTime network prev = prev.nTime := by
  unfold minPastBlockTime futureBlockTimeDrift
  split_ifs <;> omega

/-- The time of a slot passes the mask: on the main network all slots below the last height
are alike, on the test network every time passes behind the last block of work. -/
theorem isValidBlockTimeStamp_slot (hnet : network ≠ .regtest)
    (htip : network = .main → w.tipHeight < 2147483647) (nHeight : Nat) :
    isValidBlockTimeStamp network (getCurrentTimeSlot network w) nHeight = true := by
  rw [isValidBlockTimeStamp, Bool.or_eq_true, decide_eq_true_eq, decide_eq_true_eq]
  by_cases hlate : network.nRpdProtocolHeight ≤ nHeight
  · rw [Network.getTimeSlotLength, if_pos hlate, Int.tmod_one]
    exact .inr rfl
  · cases network with
    | main =>
      have hslot : ¬ Network.nRpdProtocolHeight .main ≤ w.tipHeight := Nat.not_le.mpr (htip rfl)
      rw [getCurrentTimeSlot, Network.getTimeSlotLength, Network.getTimeSlotLength, if_neg hlate, if_neg hslot]
      exact .inr (Int.mul_tmod_left _ _)
    | test => exact .inl (Nat.le_of_lt (Nat.not_le.mp hlate))
    | regtest => exact absurd rfl hnet

theorem StakeBranch.nTime_nonneg (c : StakeBranch) : 0 ≤ c.nTime := by
  unfold StakeBranch.nTime
  cases c with
  | nil => exact le_refl 0
  | cons e rest => exact Int.natCast_nonneg _

/-- A slot behind a time that is not negative does not end after the clock. -/
theorem getCurrentTimeSlot_le (h : 0 < getCurrentTimeSlot network w) :
    getCurrentTimeSlot network w ≤ w.adjustedTime := by
  have hlen : 0 < network.getTimeSlotLength w.tipHeight := by
    unfold Network.getTimeSlotLength
    split_ifs <;> decide
  unfold getCurrentTimeSlot at h ⊢
  dsimp only at h ⊢
  generalize network.getTimeSlotLength w.tipHeight = slotLen at h hlen ⊢
  have hnow : 0 ≤ w.adjustedTime := by
    by_contra hneg
    -- towards zero, so that a negative clock has no positive slot
    have hdiv : 0 ≤ (-w.adjustedTime).tdiv slotLen := Int.tdiv_nonneg (by omega) (Int.le_of_lt hlen)
    rw [Int.neg_tdiv] at hdiv
    have hmul := Int.mul_nonpos_of_nonpos_of_nonneg (show w.adjustedTime.tdiv slotLen ≤ 0 by omega)
      (Int.le_of_lt hlen)
    omega
  have hmod := Int.tmod_nonneg slotLen hnow
  have hsplit := Int.tdiv_mul_add_tmod w.adjustedTime slotLen
  omega

/-- **What is staked is accepted.** The block passes the kernel part of `CheckProofOfStake` and
`CheckBlockTime`, if its time fits the header and the tip is below the last height. -/
theorem stake_accepted (hnet : network ≠ .regtest)
    (hinput : ∃ t, w.getTransaction s.txFrom.hash = some (s.txFrom, some t))
    (hstake : stake network w prev s nBits = some nTimeTx) (hbuilt : BuiltOn prev s nBits nTimeTx b)
    (hclock : nTimeTx < 4294967296) (htip : network = .main → w.tipHeight < 2147483647) :
    checkKernel network w prev b = true ∧ checkBlockTime network w prev b = true := by
  refine ⟨checkKernel_of_stake hinput hstake hbuilt, ?_⟩
  obtain ⟨hslot, hnew, -⟩ := stake_cases hstake
  rw [if_neg hnet] at hslot
  have hpast := hnew hnet
  have hprev := prev.nTime_nonneg
  have htime : ((b.nTime.toNat : Nat) : Int) = nTimeTx := by
    rw [hbuilt.nTime_eq, UInt32.ofInt, UInt32.toNat_ofNat']
    omega
  have hfuture : nTimeTx ≤ w.adjustedTime := by
    rw [hslot]
    exact getCurrentTimeSlot_le (hslot ▸ by omega)
  have hmask := isValidBlockTimeStamp_slot hnet htip (prev.nHeight + 1)
  rw [checkBlockTime, htime, minPastBlockTime_eq, hslot, hmask, Bool.and_true, Bool.or_eq_true,
    Bool.and_eq_true, decide_eq_true_eq, ← hslot]
  refine .inr ⟨decide_eq_true ?_, decide_eq_true hpast⟩
  unfold maxFutureBlockTime futureBlockTimeDrift
  omega

/-! ### One stake -/

/-- A transaction with one output of 100 coins. -/
def stakedTx : Transaction := ⟨7, [], [⟨100 * coin, []⟩]⟩

/-- A node that has it in a block of its chain; every kernel hashes to 0. -/
def oneStakeWorld (adjustedTime : Int) (tipHeight : Nat) : StakeWorld where
  getTransaction hash := if hash = 7 then some (stakedTx, some 5) else none
  getOldStakeModifier _ := 0
  hash _ := 0
  adjustedTime := adjustedTime
  tipHeight := tipHeight

/-- The parent, at height 300 and time 20. -/
def stakeParent : StakeBranch := [⟨⟨3, 2, 20, false, none⟩, 300, false, []⟩]

/-- The block with the coinstake. -/
def stakedBlock (nTime : UInt32) : StakedBlock where
  hashPrevBlock := 3
  nTime := nTime
  nBits := 0x1e0fffff
  vtx := [⟨8, [], []⟩, ⟨9, [⟨⟨7, 0⟩, []⟩], [⟨0, []⟩, ⟨100 * coin, []⟩]⟩]

theorem stakedBlock_builtOn (nTimeTx : Int) :
    BuiltOn stakeParent ⟨stakedTx, 0⟩ 0x1e0fffff nTimeTx (stakedBlock (UInt32.ofInt nTimeTx)) :=
  ⟨rfl, ⟨_, _, _, rfl, by decide, rfl, rfl, by decide⟩, rfl, rfl⟩

theorem oneStake_accepted :
    checkKernel .main (oneStakeWorld 1000 300) stakeParent (stakedBlock 990) = true ∧
      checkBlockTime .main (oneStakeWorld 1000 300) stakeParent (stakedBlock 990) = true :=
  stake_accepted nofun ⟨5, rfl⟩ (show stake .main (oneStakeWorld 1000 300) stakeParent ⟨stakedTx, 0⟩
    0x1e0fffff = some 990 by decide +kernel) (stakedBlock_builtOn 990) (by decide) fun _ => by decide

/-- **A time that does not fit the header**, and a tip at the last height: the staker succeeds,
and its block is rejected. -/
theorem stake_rejected :
    (stake .main (oneStakeWorld 4294967310 300) stakeParent ⟨stakedTx, 0⟩ 0x1e0fffff = some 4294967310 ∧
      BuiltOn stakeParent ⟨stakedTx, 0⟩ 0x1e0fffff 4294967310 (stakedBlock (UInt32.ofInt 4294967310)) ∧
      checkBlockTime .main (oneStakeWorld 4294967310 300) stakeParent
        (stakedBlock (UInt32.ofInt 4294967310)) = false) ∧
    stake .main (oneStakeWorld 1000 2147483647) stakeParent ⟨stakedTx, 0⟩ 0x1e0fffff = some 1000 ∧
      BuiltOn stakeParent ⟨stakedTx, 0⟩ 0x1e0fffff 1000 (stakedBlock (UInt32.ofInt 1000)) ∧
      checkBlockTime .main (oneStakeWorld 1000 2147483647) stakeParent
        (stakedBlock (UInt32.ofInt 1000)) = false :=
  ⟨⟨by decide +kernel, stakedBlock_builtOn _, by decide +kernel⟩, by decide +kernel, stakedBlock_builtOn _,
    by decide +kernel⟩

end Rapids.Chain
