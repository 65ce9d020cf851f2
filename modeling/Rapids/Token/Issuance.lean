import Rapids.Chain.GovernanceSound
import Rapids.Token.Conservation

/-!
# Rapids.Token.Issuance

**What an issuance costs when old blocks are scanned again** (`parseTransaction` in
`tokencore.cpp`, the handlers that create properties in `tx.cpp`).

The donation of a packet is what its transaction pays to the fee script, and the
handlers that create properties compare it with a cost. Both are asked of the
governance database without a height, so a block that is scanned again is judged by
the values in force at the tip. They are those of the block if the chain above it
leaves them, or sets them back in the end (`SettlesOn`).
-/

namespace Rapids.Token

open Rapids.Lib Rapids.Chain

/-! ### Packets judged by a database -/

/-- The donation of a transaction: what its outputs pay to the fee script. -/
def donation (feeScript : Script) (vout : List TxOut) : Int :=
  vout.foldl (fun acc o => if o.scriptPubKey = feeScript then toI64 (acc + o.nValue) else acc) 0

/-- The number of a cost in the database. -/
def GovernanceCost.type : GovernanceCost → Nat
  | .fixed => governanceCostFixed
  | .managed => governanceCostManaged
  | .variable => governanceCostVariable
  | .username => governanceCostUsername
  | .sub => governanceCostSub

/-- The cost of an issuance. -/
def issuanceCost (g : Governance) (c : GovernanceCost) : Int := getCost g c.type

/-- A packet with the outputs of its transaction, interpreted with a database. -/
def interpretWith (g : Governance) (s : State) (tx : CMPTransaction) (vout : List TxOut) (env : TxEnv) :
    Option (Int × State) :=
  interpretPacket s { tx with nDonation := donation (getFeeScript g) vout }
    { env with cost := issuanceCost g }

/-- The blocks of `upTo` are scanned again when the chain has grown by those of
`later`: costs and fee script are those of the first time, and every packet is
judged as it was then. -/
structure ReplaysAlike (P : ChainParams) (M : GovernanceParams) (later upTo : List CBlock) : Prop where
  cost : ∀ c, issuanceCost (governanceOf P M (later ++ upTo)) c = issuanceCost (governanceOf P M upTo) c
  fee : getFeeScript (governanceOf P M (later ++ upTo)) = getFeeScript (governanceOf P M upTo)
  packet : ∀ s tx vout env, interpretWith (governanceOf P M (later ++ upTo)) s tx vout env =
    interpretWith (governanceOf P M upTo) s tx vout env

/-! ### What the blocks above set -/

section
variable {P : ChainParams} {M : GovernanceParams} {α : Type}

/-- What the first output for a value sets in the highest block above a chain that has
one. -/
def lastSet (P : ChainParams) (M : GovernanceParams) (sets : GovernanceAction → Option α)
    (upTo : List CBlock) : List CBlock → Option α
  | [] => none
  | b :: rest => ((blockActions P M (rest ++ upTo) b).findSome? sets).or (lastSet P M sets upTo rest)

/-- The blocks above leave a value, or set it to what it was in the end. -/
def SettlesOn (P : ChainParams) (M : GovernanceParams) (sets : GovernanceAction → Option α) (initial : α)
    (later upTo : List CBlock) : Prop :=
  ∀ v, lastSet P M sets upTo later = some v → v = inForce P M sets initial upTo

section
variable (sets : GovernanceAction → Option α) (initial : α) (later upTo : List CBlock)

theorem inForce_append :
    inForce P M sets initial (later ++ upTo) =
      (lastSet P M sets upTo later).getD (inForce P M sets initial upTo) := by
  induction later with
  | nil => rfl
  | cons b rest ih =>
    rw [List.cons_append, inForce, lastSet, ih]
    cases (blockActions P M (rest ++ upTo) b).findSome? sets with
    | none => rfl
    | some v => rfl

theorem settlesOn_iff :
    SettlesOn P M sets initial later upTo ↔
      inForce P M sets initial (later ++ upTo) = inForce P M sets initial upTo := by
  rw [inForce_append, SettlesOn]
  cases lastSet P M sets upTo later with
  | none => simp
  | some v => simp

end

theorem inForce_unwritten {type : Nat} (h : 3 < type) (initial : Int) (chain : List CBlock) :
    inForce P M (GovernanceAction.writtenCost? type) initial chain = initial := by
  have hnone : ∀ a : GovernanceAction, a.writtenCost? type = none := by
    intro a
    rw [GovernanceAction.writtenCost?]
    split_ifs with hw
    · cases a with
      | cost t amount =>
        have ht := isWritten_cost.mp hw
        simp only [governanceCostFixed, governanceCostManaged, governanceCostVariable] at ht
        rw [GovernanceAction.cost?_cost, if_neg (by omega)]
      | fee script => rfl
      | dev script => rfl
    · rfl
  induction chain with
  | nil => rfl
  | cons b rest ih =>
    rw [inForce, List.findSome?_eq_none_iff.mpr fun a _ => hnone a]
    exact ih

theorem writtenCost?_eq {type : Nat} (h1 : 1 ≤ type) (h3 : type ≤ 3) :
    GovernanceAction.writtenCost? type = GovernanceAction.cost? type := by
  funext a
  rw [GovernanceAction.writtenCost?]
  split_ifs with hw
  · rfl
  · cases a with
    | cost t amount =>
      rw [GovernanceAction.cost?_cost, if_neg fun ht => hw (isWritten_cost.mpr ?_)]
      simp only [governanceCostFixed, governanceCostManaged, governanceCostVariable]
      omega
    | fee script => rfl
    | dev script => rfl

/-- The cost of an issuance is the same at two chains if it can be set and is in force
alike, or cannot be set. -/
theorem issuanceCost_eq_iff (later upTo : List CBlock) :
    (∀ c, issuanceCost (governanceOf P M (later ++ upTo)) c = issuanceCost (governanceOf P M upTo) c) ↔
      ∀ type, 1 ≤ type → type ≤ 3 →
        SettlesOn P M (GovernanceAction.cost? type) (M.cost type) later upTo := by
  have hcost : ∀ (c : GovernanceCost) chain, issuanceCost (governanceOf P M chain) c =
      inForce P M (GovernanceAction.writtenCost? c.type) (M.cost c.type) chain := by
    intro c chain
    exact getCost_governanceOf (by cases c <;> decide) (by cases c <;> decide) chain
  have hset : ∀ type, 1 ≤ type → type ≤ 3 →
      (SettlesOn P M (GovernanceAction.cost? type) (M.cost type) later upTo ↔
        inForce P M (GovernanceAction.writtenCost? type) (M.cost type) (later ++ upTo) =
          inForce P M (GovernanceAction.writtenCost? type) (M.cost type) upTo) := by
    intro type h1 h3
    rw [settlesOn_iff, writtenCost?_eq h1 h3]
  constructor
  · intro h type h1 h3
    rw [hset type h1 h3]
    obtain ⟨c, rfl⟩ : ∃ c : GovernanceCost, c.type = type := by
      have hcases : type = 1 ∨ type = 2 ∨ type = 3 := by omega
      rcases hcases with rfl | rfl | rfl
      · exact ⟨.fixed, rfl⟩
      · exact ⟨.managed, rfl⟩
      · exact ⟨.variable, rfl⟩
    rw [← hcost, ← hcost]
    exact h c
  · intro h c
    rw [hcost, hcost]
    by_cases h3 : c.type ≤ 3
    · exact (hset _ (by cases c <;> decide) h3).mp (h _ (by cases c <;> decide) h3)
    · rw [inForce_unwritten (not_le.mp h3), inForce_unwritten (not_le.mp h3)]

/-- **Replay.** A block is scanned again as it was scanned first if and only if the
blocks above it leave the three costs that can be set and the fee script, or set them
to what they were. -/
theorem replaysAlike_iff (later upTo : List CBlock) :
    ReplaysAlike P M later upTo ↔
      (∀ type, 1 ≤ type → type ≤ 3 →
        SettlesOn P M (GovernanceAction.cost? type) (M.cost type) later upTo) ∧
      SettlesOn P M GovernanceAction.fee? M.feeScript later upTo := by
  have hfee : getFeeScript (governanceOf P M (later ++ upTo)) = getFeeScript (governanceOf P M upTo) ↔
      SettlesOn P M GovernanceAction.fee? M.feeScript later upTo := by
    rw [settlesOn_iff, getFeeScript_governanceOf, getFeeScript_governanceOf]
  rw [← issuanceCost_eq_iff, ← hfee]
  constructor
  · intro h
    exact ⟨h.cost, h.fee⟩
  · rintro ⟨hcost, hfee⟩
    refine ⟨hcost, hfee, fun s tx vout env => ?_⟩
    rw [interpretWith, interpretWith, hfee, funext hcost]

end

/-! ### A cost that is lowered later -/

/-- Ten blocks, the last one first; the first one pays the governance's key. -/
def governedBlocks : List CBlock :=
  (List.range 9).reverse.map (fun k => ⟨k + 2, [coinbaseOf (102 + k) 1000]⟩) ++
    [⟨1, [⟨101, [⟨⟨0, 4294967295⟩, [1, 1]⟩], [⟨1000, [0x52]⟩]⟩]⟩]

/-- A fixed property, created in block 10. -/
def issuanceTx : CMPTransaction where
  txid := 1
  block := 10
  blockTime := 1500000000
  txIdx := 1
  sender := "issuer"
  type := 50
  nValue := 1000
  ecosystem := 1
  propType := 1
  name := "Coin"
  ticker := "COIN"

/-- Block 11 lowers the cost from 100 to 5. An issuance in block 10 that donates 50 is
rejected, and accepted when the block is scanned again. -/
theorem replay_accepts_rejected :
    ¬ ∀ (P : ChainParams) (M : GovernanceParams) (later upTo : List CBlock),
      ReplaysAlike P M later upTo := by
  intro hall
  have hpacket := (hall mainParams testGovernance [costBlock] governedBlocks).packet
    (.initial regtestCfg) issuanceTx [⟨50, [0x53]⟩] issuanceEnv
  have hcodes := congrArg (fun r => r.map Prod.fst) hpacket
  revert hcodes
  decide +kernel

end Rapids.Token
