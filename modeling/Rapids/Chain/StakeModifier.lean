import Rapids.Chain.Connect
import Rapids.Lib.Bytes
import Rapids.Lib.Run

/-!
# Rapids.Chain.StakeModifier

**Stake modifiers** (`main.cpp`, `chain.cpp`, `kernel.cpp`, `legacy/stakemodifier.cpp`).

Every entry of the block index has a buffer with its stake modifier: 8 bytes of the
first version, which collects bits of earlier blocks, or 32 bytes of the second one,
the hash of the coinstake's first prevout and the parent's modifier. The entry is
written once, by `AddToBlockIndex`, and the kernel of a block reads its parent's.

Three conditions on the height decide: `AddToBlockIndex` compares it with a
constant, the buffer is read under `UPGRADE_V3_4`, and the kernel reads it from
`UPGRADE_V4_0` on. `stake_modifiers_chain_iff` says where they agree.

An entry is held with its ancestors. The hash function is a parameter, as is the
address of the string literal that the first block gets for a modifier.
-/

namespace Rapids.Chain

open Rapids.Lib

/-! ### Blocks and index entries -/

/-- `uint256` -/
abbrev UInt256 := BitVec 256

/-- The bytes of a number in memory. -/
def UInt256.bytes (n : UInt256) : List UInt8 := leBytes 32 n.toNat

/-- A block, as far as its index entry and its modifier depend on it. -/
structure IndexedBlock where
  hash : UInt256
  hashPrevBlock : UInt256
  nTime : Nat
  /-- `IsProofOfStake` -/
  proofOfStake : Bool
  /-- `vtx[1].vin[0].prevout.hash`, unless it is read outside the block. -/
  prevout : Option UInt256
  deriving DecidableEq

/-- `CBlockIndex`, with the block it was made from. -/
structure StakeIndex where
  block : IndexedBlock
  nHeight : Nat
  /-- `BLOCK_STAKE_MODIFIER` -/
  generated : Bool
  vStakeModifier : List UInt8
  deriving DecidableEq

/-- An index entry with its ancestors, itself first. -/
abbrev StakeBranch := List StakeIndex

/-- `nHeight` of a branch's first entry. -/
def StakeBranch.nHeight (c : StakeBranch) : Nat := (c.head?.map StakeIndex.nHeight).getD 0

/-- What lies outside: `Hash`, and the address of `"stakemodifier"`. -/
structure ModifierEnv where
  hash : List UInt8 → UInt256
  literal : Nat

/-- The height of `UPGRADE_V3_4`. -/
def Network.heightV3_4 : Network → Nat
  | .main => 915000
  | .test => 22
  | .regtest => 251

/-- The height of `UPGRADE_V4_0`. -/
def Network.heightV4_0 : Network → Nat
  | .main => 915000
  | .test => 23
  | .regtest => 0

/-- The height of `UPGRADE_POS_V2`. -/
def Network.heightPosV2 : Network → Nat
  | .main => 1
  | .test => 21
  | .regtest => 251

variable (network : Network) (M : ModifierEnv)

/-- `NetworkUpgradeActive(nHeight, UPGRADE_V3_4)` -/
def activeV3_4 (nHeight : Nat) : Bool := networkUpgradeActive (some network.heightV3_4) nHeight

/-- `GetStakeModifierV1` -/
def StakeIndex.getStakeModifierV1 (e : StakeIndex) : Nat :=
  if e.vStakeModifier = [] || activeV3_4 network e.nHeight then 0 else ofLeBytes e.vStakeModifier

/-- `GetStakeModifierV2`. A buffer of 8 bytes fills the low end. -/
def StakeIndex.getStakeModifierV2 (e : StakeIndex) : UInt256 :=
  if e.vStakeModifier = [] || !activeV3_4 network e.nHeight then 0
  else BitVec.ofNat 256 (ofLeBytes e.vStakeModifier)

/-- `GetStakeModifierV2` of a branch's first entry. -/
def StakeBranch.getStakeModifierV2 (c : StakeBranch) : UInt256 :=
  (c.head?.map (StakeIndex.getStakeModifierV2 network)).getD 0

/-! ### The first version -/

/-- `GetStakeModifierSelectionIntervalSection` -/
def selectionIntervalSection (nSection : Nat) : Nat := 60 * 63 / (63 + (63 - nSection) * (3 - 1))

/-- `GetStakeEntropyBit` -/
def StakeIndex.entropyBit (e : StakeIndex) : Nat := e.block.hash.toNat % 2

/-- The last entry of a branch that generated a modifier, or the first one at all. -/
def lastGenerated : StakeBranch → Option StakeIndex
  | [] => none
  | [e] => if e.generated then some e else none
  | e :: rest => if e.generated then some e else lastGenerated rest

/-- The selection hash of a candidate. -/
def hashSelection (fModifierV2 : Bool) (nStakeModifierPrev : Nat) (e : StakeIndex) : Nat :=
  let hashProof : UInt256 := if fModifierV2 || !e.block.proofOfStake then e.block.hash else 0
  let h := (M.hash (hashProof.bytes ++ leBytes 8 nStakeModifierPrev)).toNat
  if e.block.proofOfStake then h / 2 ^ 32 else h

/-- The loop of `SelectBlockFromCandidates`, with the best candidate so far. -/
def selectBlock (fModifierV2 : Bool) (nStakeModifierPrev : Nat) (nSelectionIntervalStop : Int)
    (selected : List UInt256) : List StakeIndex → Option StakeIndex → Option StakeIndex
  | [], best => best
  | e :: rest, best =>
    if best.isSome && decide (nSelectionIntervalStop < e.block.nTime) then best
    else if e.block.hash ∈ selected then
      selectBlock fModifierV2 nStakeModifierPrev nSelectionIntervalStop selected rest best
    else
      let better := best.all fun b =>
        hashSelection M fModifierV2 nStakeModifierPrev e < hashSelection M fModifierV2 nStakeModifierPrev b
      selectBlock fModifierV2 nStakeModifierPrev nSelectionIntervalStop selected rest
        (if better then some e else best)

/-- The rounds of `ComputeNextStakeModifier`, of which some are left. -/
def selectRounds (fModifierV2 : Bool) (nStakeModifierPrev : Nat) (candidates : List StakeIndex) :
    Nat → Nat → Int → List UInt256 → Nat → Option Nat
  | 0, _, _, _, new => some new
  | k + 1, nRound, stop, selected, new =>
    match selectBlock M fModifierV2 nStakeModifierPrev (stop + selectionIntervalSection nRound)
        selected candidates none with
    | none => none
    | some e =>
      selectRounds fModifierV2 nStakeModifierPrev candidates k (nRound + 1)
        (stop + selectionIntervalSection nRound) (e.block.hash :: selected)
        (new ||| e.entropyBit <<< nRound)

/-- Candidates by time, then by hash. -/
def earlier (a b : StakeIndex) : Prop :=
  a.block.nTime < b.block.nTime ∨ a.block.nTime = b.block.nTime ∧ a.block.hash.toNat ≤ b.block.hash.toNat

instance : DecidableRel earlier := fun _ _ => inferInstanceAs (Decidable (_ ∨ _))

/-- `ComputeNextStakeModifier` with `OLD_MODIFIER_INTERVAL`: the modifier, and whether it
is a new one. Where the function fails, what it has written so far is used. -/
def computeNextStakeModifier : StakeBranch → Nat × Bool
  | [] => (0, true)
  | prev :: ancestors =>
    if prev.nHeight = 0 then (M.literal % 2 ^ 64, true)
    else
      match lastGenerated (prev :: ancestors) with
      | none => (0, false)
      | some p =>
        if prev.block.nTime / 60 ≤ p.block.nTime / 60 then (p.getStakeModifierV1 network, false)
        else
          let start : Int := prev.block.nTime / 60 * 60 - 2087
          let candidates := ((prev :: ancestors).takeWhile fun e => start ≤ e.block.nTime).insertionSort earlier
          let fModifierV2 := (candidates.head?.map fun e => decide (network.heightPosV2 ≤ e.nHeight)).getD false
          match selectRounds M fModifierV2 (p.getStakeModifierV1 network) candidates
              (min 64 candidates.length) 0 start [] 0 with
          | none => (p.getStakeModifierV1 network, false)
          | some new => (new, true)

/-! ### The index -/

/-- The hash of a prevout and a modifier (`CHashWriter`). -/
def modifierHash (prevoutId prevModifier : UInt256) : UInt256 := M.hash (prevoutId.bytes ++ prevModifier.bytes)

/-- The entry for a block with a parent. `none` is a read outside the block. -/
def newStakeIndex (prev : StakeBranch) (b : IndexedBlock) : Option StakeIndex :=
  let nHeight := prev.nHeight + 1
  if nHeight ≤ 915000 then
    -- compute and set new V1 stake modifier (entropy bits)
    let modifier := computeNextStakeModifier network M prev
    some ⟨b, nHeight, modifier.2, leBytes 8 modifier.1⟩
  else
    -- compute and set new V2 stake modifier (hash of prevout and prevModifier)
    b.prevout.map fun prevoutId =>
      ⟨b, nHeight, false,
        if activeV3_4 network nHeight then
          (modifierHash M prevoutId (prev.getStakeModifierV2 network)).bytes
        else []⟩

/-- Is it the entry of the block with this hash? -/
def StakeBranch.isOf (hash : UInt256) (c : StakeBranch) : Bool :=
  c.head?.any fun e => e.block.hash = hash

/-- `AddToBlockIndex`, on `mapBlockIndex` with the ancestors of each entry. -/
def addStakeIndex (index : List StakeBranch) (b : IndexedBlock) : Option (List StakeBranch) :=
  if index.any (StakeBranch.isOf b.hash) then some index
  else
    match index.find? (StakeBranch.isOf b.hashPrevBlock) with
    | none => some ([⟨b, 0, false, []⟩] :: index)
    | some prev => (newStakeIndex network M prev b).map fun e => (e :: prev) :: index

/-- The modifier in a `CStakeKernel` on top of a branch. What `GetOldStakeModifier` finds in
the active chain is given. -/
def kernelModifier (prev : StakeBranch) (oldStakeModifier : Nat) : List UInt8 :=
  if prev.nHeight + 1 < network.heightV4_0 then leBytes 8 oldStakeModifier
  else (prev.getStakeModifierV2 network).bytes

/-! ### What the modifier should be -/

/-- The stored modifier: from the upgrade on the hash, which a kernel on top takes; below it
the 8 bytes of the first version. -/
def HasModifier (e : StakeIndex) (prev : StakeBranch) : Prop :=
  if activeV3_4 network e.nHeight then
    (∃ prevoutId, e.block.prevout = some prevoutId ∧
      e.vStakeModifier = (modifierHash M prevoutId (prev.getStakeModifierV2 network)).bytes) ∧
    ∀ oldStakeModifier, kernelModifier network (e :: prev) oldStakeModifier = e.vStakeModifier
  else e.vStakeModifier = leBytes 8 (computeNextStakeModifier network M prev).1

/-- The hash of all coinstakes of a branch since the upgrade. -/
def chainModifier : StakeBranch → UInt256
  | [] => 0
  | e :: prev =>
    if activeV3_4 network e.nHeight then modifierHash M (e.block.prevout.getD 0) (chainModifier prev)
    else 0

/-- From the upgrade on a kernel depends on every coinstake since. -/
def KernelChained (c : StakeBranch) : Prop :=
  activeV3_4 network c.nHeight = true →
    ∀ oldStakeModifier, kernelModifier network c oldStakeModifier = (chainModifier network M c).bytes

variable {network M}

/-! ### Entries -/

theorem activeV3_4_iff {nHeight : Nat} : activeV3_4 network nHeight = true ↔ network.heightV3_4 ≤ nHeight :=
  decide_eq_true_iff

/-- The upgrades come in the order in which they are asked for, and after the genesis block. -/
theorem Network.upgrades_ordered :
    0 < network.heightV3_4 ∧ network.heightV3_4 ≤ 915000 ∧ network.heightV4_0 ≤ network.heightV3_4 + 1 := by
  cases network with
  | main => decide
  | test => decide
  | regtest => decide

@[simp] theorem UInt256.bytes_length (n : UInt256) : n.bytes.length = 32 := leBytes_length 32 n.toNat

theorem UInt256.ofBytes_bytes (n : UInt256) : BitVec.ofNat 256 (ofLeBytes n.bytes) = n := by
  have hlt : n.toNat < 256 ^ 32 := n.isLt
  rw [UInt256.bytes, ofLeBytes_leBytes hlt, BitVec.ofNat_toNat, BitVec.setWidth_eq]

variable {prev : StakeBranch} {b : IndexedBlock} {e : StakeIndex} {index : List StakeBranch}

theorem newStakeIndex_spec
    (h : newStakeIndex network M prev b = some e) :
    e.nHeight = prev.nHeight + 1 ∧
      (e.nHeight ≤ 915000 → e.vStakeModifier = leBytes 8 (computeNextStakeModifier network M prev).1) ∧
      (915000 < e.nHeight → ∃ prevoutId, e.block.prevout = some prevoutId ∧
        e.vStakeModifier = (modifierHash M prevoutId (prev.getStakeModifierV2 network)).bytes) := by
  simp only [newStakeIndex] at h
  by_cases hlow : prev.nHeight + 1 ≤ 915000
  · rw [if_pos hlow] at h
    cases h
    exact ⟨rfl, fun _ => rfl, fun habove => absurd hlow (Nat.not_le.mpr habove)⟩
  · rw [if_neg hlow] at h
    obtain ⟨prevoutId, hprevout, rfl⟩ := Option.map_eq_some_iff.mp h
    refine ⟨rfl, fun hbelow => absurd hbelow hlow, fun habove => ⟨prevoutId, hprevout, ?_⟩⟩
    have hupgrade := network.upgrades_ordered
    exact if_pos (activeV3_4_iff.mpr (by omega))

theorem newStakeIndex_block
    (h : newStakeIndex network M prev b = some e) : e.block = b := by
  simp only [newStakeIndex] at h
  by_cases hlow : prev.nHeight + 1 ≤ 915000
  · rw [if_pos hlow] at h
    exact (congrArg StakeIndex.block (Option.some.inj h)).symm
  · rw [if_neg hlow] at h
    obtain ⟨prevoutId, -, rfl⟩ := Option.map_eq_some_iff.mp h
    rfl

theorem hasModifier_iff (h : newStakeIndex network M prev e.block = some e) :
    HasModifier network M e prev ↔ e.nHeight < network.heightV3_4 ∨ 915000 < e.nHeight := by
  obtain ⟨-, hfirst, hsecond⟩ := newStakeIndex_spec h
  have hupgrade := network.upgrades_ordered
  by_cases hactive : network.heightV3_4 ≤ e.nHeight
  · rw [HasModifier, if_pos (activeV3_4_iff.mpr hactive)]
    by_cases hlow : e.nHeight ≤ 915000
    · -- eight bytes are no hash
      refine iff_of_false ?_ (by omega)
      rintro ⟨⟨prevoutId, -, hbytes⟩, -⟩
      have hlen := congrArg List.length ((hfirst hlow).symm.trans hbytes)
      rw [leBytes_length, UInt256.bytes_length] at hlen
      omega
    · refine iff_of_true ?_ (by omega)
      obtain ⟨prevoutId, hprevout, hbytes⟩ := hsecond (by omega)
      refine ⟨⟨prevoutId, hprevout, hbytes⟩, fun oldStakeModifier => ?_⟩
      have hlater : ¬ StakeBranch.nHeight (e :: prev) + 1 < network.heightV4_0 := by
        show ¬ e.nHeight + 1 < network.heightV4_0
        omega
      have hne : e.vStakeModifier ≠ [] := by
        intro hnil
        rw [hnil] at hbytes
        have hlen := congrArg List.length hbytes
        rw [UInt256.bytes_length, List.length_nil] at hlen
        omega
      have hread : StakeBranch.getStakeModifierV2 network (e :: prev) =
          modifierHash M prevoutId (prev.getStakeModifierV2 network) := by
        show e.getStakeModifierV2 network = _
        rw [StakeIndex.getStakeModifierV2, activeV3_4_iff.mpr hactive, hbytes, UInt256.ofBytes_bytes]
        simp [hbytes ▸ hne]
      rw [kernelModifier, if_neg hlater, hread, hbytes]
  · have hoff : ¬ activeV3_4 network e.nHeight = true := fun h => hactive (activeV3_4_iff.mp h)
    rw [HasModifier, if_neg hoff]
    exact iff_of_true (hfirst (by omega)) (by omega)

/-! ### The tree -/

/-- How a branch came into the index: as a root, or behind a branch that is there. -/
def Built (network : Network) (M : ModifierEnv) (index : List StakeBranch) (c : StakeBranch) : Prop :=
  ∃ e prev, c = e :: prev ∧
    (prev = [] ∧ e.nHeight = 0 ∨ prev ∈ index ∧ newStakeIndex network M prev e.block = some e)

theorem Built.mono {index' : List StakeBranch} {c : StakeBranch} (h : Built network M index c)
    (hsub : index ⊆ index') : Built network M index' c := by
  obtain ⟨e, prev, hc, hroot | ⟨hmem, hnew⟩⟩ := h
  · exact ⟨e, prev, hc, .inl hroot⟩
  · exact ⟨e, prev, hc, .inr ⟨hsub hmem, hnew⟩⟩

/-- **One block** more. -/
theorem built_addStakeIndex {index' : List StakeBranch}
    (hbuilt : ∀ c ∈ index, Built network M index c) (h : addStakeIndex network M index b = some index') :
    ∀ c ∈ index', Built network M index' c := by
  unfold addStakeIndex at h
  split_ifs at h with hknown
  · exact Option.some.inj h ▸ hbuilt
  · cases hprev : index.find? (StakeBranch.isOf b.hashPrevBlock) with
    | none =>
      rw [hprev] at h
      cases h
      intro c hc
      rcases List.mem_cons.mp hc with rfl | hc
      · exact ⟨_, [], rfl, .inl ⟨rfl, rfl⟩⟩
      · exact (hbuilt c hc).mono (List.subset_cons_self _ _)
    | some prev =>
      rw [hprev] at h
      obtain ⟨e, hnew, rfl⟩ := Option.map_eq_some_iff.mp h
      have hblock : e.block = b := newStakeIndex_block hnew
      intro c hc
      rcases List.mem_cons.mp hc with rfl | hc
      · exact ⟨e, prev, rfl, .inr ⟨.tail _ (List.mem_of_find?_eq_some hprev), hblock ▸ hnew⟩⟩
      · exact (hbuilt c hc).mono (List.subset_cons_self _ _)

theorem exists_height (hbuilt : ∀ c ∈ index, Built network M index c)
    {c : StakeBranch} (hc : c ∈ index) {nHeight : Nat} (hle : nHeight ≤ c.nHeight) :
    ∃ c' ∈ index, c'.nHeight = nHeight := by
  induction c with
  | nil =>
    obtain ⟨e, prev, hcons, -⟩ := hbuilt [] hc
    cases hcons
  | cons e prev ih =>
    by_cases heq : nHeight = StakeBranch.nHeight (e :: prev)
    · exact ⟨_, hc, heq.symm⟩
    · obtain ⟨e', prev', hcons, hroot | ⟨hmem, hnew⟩⟩ := hbuilt _ hc
      · obtain ⟨rfl, rfl⟩ := List.cons.inj hcons
        have hzero : StakeBranch.nHeight [e] = 0 := hroot.1 ▸ hroot.2
        rw [hroot.1, hzero] at hle heq
        omega
      · obtain ⟨rfl, rfl⟩ := List.cons.inj hcons
        have hheight : StakeBranch.nHeight (e :: prev) = StakeBranch.nHeight prev + 1 :=
          (newStakeIndex_spec hnew).1
        exact ih hmem (by omega)

/-- **Where stake modifiers chain.** In every tree that `AddToBlockIndex` builds, the blocks
with the right modifier are those below the upgrade and those above the constant; and all is
right in the trees that have no block from the upgrade on. -/
theorem stake_modifiers_chain_iff {blocks : List IndexedBlock} {index : List StakeBranch}
    (h : run (addStakeIndex network M) [] blocks = some index) :
    (∀ e prev ancestors, e :: prev :: ancestors ∈ index →
      (HasModifier network M e (prev :: ancestors) ↔
        e.nHeight < network.heightV3_4 ∨ 915000 < e.nHeight)) ∧
    ((∀ e prev ancestors, e :: prev :: ancestors ∈ index →
      HasModifier network M e (prev :: ancestors) ∧ KernelChained network M (e :: prev :: ancestors)) ↔
        ∀ c ∈ index, StakeBranch.nHeight c < network.heightV3_4) := by
  have hbuilt : ∀ c ∈ index, Built network M index c :=
    run_invariant (I := fun index => ∀ c ∈ index, Built network M index c)
      (fun _ _ _ hbuilt hadd => built_addStakeIndex hbuilt hadd)
      (fun c hc => absurd hc List.not_mem_nil) h
  have hupgrade := network.upgrades_ordered
  have hblock : ∀ e prev ancestors, e :: prev :: ancestors ∈ index →
      (HasModifier network M e (prev :: ancestors) ↔
        e.nHeight < network.heightV3_4 ∨ 915000 < e.nHeight) := by
    intro e prev ancestors hmem
    obtain ⟨e', prev', hcons, hroot | ⟨-, hnew⟩⟩ := hbuilt _ hmem
    · obtain ⟨rfl, rfl⟩ := List.cons.inj hcons
      cases hroot.1
    · obtain ⟨rfl, rfl⟩ := List.cons.inj hcons
      exact hasModifier_iff hnew
  refine ⟨hblock, fun hall c hc => ?_, fun hlow e prev ancestors hmem => ?_⟩
  · -- a block at the height of the upgrade would have eight bytes
    by_contra hhigh
    obtain ⟨c', hc', hheight⟩ := exists_height hbuilt hc (Nat.not_lt.mp hhigh)
    obtain ⟨e, prev, rfl, hroot | ⟨hmem, hnew⟩⟩ := hbuilt c' hc'
    · have hzero : StakeBranch.nHeight [e] = 0 := hroot.2
      rw [hroot.1, hzero] at hheight
      omega
    · have hheight : e.nHeight = network.heightV3_4 := hheight
      obtain ⟨p, ancestors, rfl, -⟩ := hbuilt prev hmem
      have hright := (hblock e p ancestors hc').mp (hall e p ancestors hc').1
      omega
  · have hbelow : e.nHeight < network.heightV3_4 := hlow _ hmem
    refine ⟨(hblock e prev ancestors hmem).mpr (.inl hbelow), fun hactive => ?_⟩
    exact absurd (activeV3_4_iff.mp hactive) (Nat.not_le.mpr hbelow)

/-- A hash function for examples. -/
def sampleEnv : ModifierEnv := ⟨fun bytes => BitVec.ofNat 256 (ofLeBytes bytes + 1), 7⟩

/-- A block of a chain in which all blocks have one time. -/
def sampleBlock (n : Nat) : IndexedBlock :=
  ⟨BitVec.ofNat 256 (n + 1), BitVec.ofNat 256 n, 1000, 0 < n, some (BitVec.ofNat 256 (n + 100))⟩

def sampleIndex (count : Nat) : Option (List StakeBranch) :=
  run (addStakeIndex .test sampleEnv) [] ((List.range count).map sampleBlock)

theorem first_block_has_modifier :
    HasModifier .test sampleEnv ⟨sampleBlock 1, 1, true, leBytes 8 7⟩ [⟨sampleBlock 0, 0, false, []⟩] := by
  have hrun : run (addStakeIndex .test sampleEnv) [] ((List.range 2).map sampleBlock) =
      some [[⟨sampleBlock 1, 1, true, leBytes 8 7⟩, ⟨sampleBlock 0, 0, false, []⟩],
        [⟨sampleBlock 0, 0, false, []⟩]] := by decide +kernel
  exact ((stake_modifiers_chain_iff hrun).1 _ _ _ (.head _)).mpr (.inl (by decide))

/-- On the test network the block of the upgrade, at height 22, has the 8 bytes of the first
version. -/
theorem upgrade_block_keeps_first_version :
    (sampleIndex 23).map (fun index => index.head?.map fun c =>
        (c.nHeight, activeV3_4 .test c.nHeight, (c.head?.map StakeIndex.vStakeModifier))) =
      some (some (22, true, some (leBytes 8 7))) := by
  decide +kernel

end Rapids.Chain
