import Rapids.Chain.Indexes

/-!
# Rapids.Chain.VerifyDB

**Checking the block database** (`CVerifyDB::VerifyDB`, `main.cpp`).

The function walks down from the tip and, from level 3 on, disconnects blocks from a
scratch view of the coins; at level 4 it connects them again. The view is thrown away,
but `DisconnectBlock` and `ConnectBlock` write the money supply, the indexes and the
governance database of the node itself. So the walk carries a whole `IndexedNode`,
whose chain ends at the block the scratch view is at, and at its end only coins and
chain are put back.

What the function finds outside the node's state (files, memory, a shutdown) is given
with the call (`VerifyWorld`), for each index entry it comes to.
-/

namespace Rapids.Chain

open Rapids.Lib

/-- What a call meets. An index entry is given by the chain that ends there. -/
structure VerifyWorld where
  node : NodeState
  /-- Checks of `ConnectBlock` that are left out. -/
  checks : LeftOutChecks
  /-- Checks of `CheckBlock` that are left out. -/
  checksBlock : CBlock → Bool
  zerocoins : Zerocoins
  /-- `ReadBlockFromDisk` on the way down. -/
  readable : List CBlock → Bool
  /-- `UndoReadFromDisk` -/
  undoReadable : List CBlock → Bool
  /-- Both caches are within `nCoinCacheUsage`. -/
  fits : List CBlock → Bool
  /-- `ShutdownRequested` -/
  shutdown : List CBlock → Bool
  /-- `ReadBlockFromDisk` on the way up. -/
  readableAgain : List CBlock → Bool

/-- The governance as `ConnectBlock` sees it for a block of a height while the active
chain ends at `tip`: `AreGovernanceDeployed` asks for the height of the chain, not of
the block. -/
def GovernanceParams.atTip (M : GovernanceParams) (tip nHeight : Nat) : GovernanceParams :=
  { M with heightGovernance := if M.heightGovernance ≤ tip + 1 then 0 else nHeight + 1 }

/-- The scratch node, and whether an unclean block was met (`pindexFailure`). -/
structure Verification where
  scratch : IndexedNode
  failure : Bool

section
variable (P : ChainParams) (M : GovernanceParams) (keys : PubKeys) (I : IndexParams) (W : VerifyWorld)

variable (nCheckLevel nCheckDepth : Int)

/-- `nCheckDepth`, for a chain of the height. -/
def checkDepth (chainHeight : Nat) : Int :=
  let nCheckDepth := if nCheckDepth ≤ 0 then 1000000000 else nCheckDepth
  if (chainHeight : Int) < nCheckDepth then chainHeight else nCheckDepth

/-- `nCheckLevel` -/
def checkLevel : Int := max 0 (min 4 nCheckLevel)

/-- The checks of the levels 0 to 2 for an index entry. An entry without undo records
has none to read. -/
def checkEntry (level : Int) (undo : List CBlock → Option BlockUndo) (b : CBlock)
    (rest : List CBlock) : Bool :=
  W.readable (b :: rest) &&
    (level < 1 || checkBlock P W.node (rest.length + 1) b && W.checksBlock b) &&
    (level < 2 ||
      match undo (b :: rest) with
      | none => true
      | some u => W.undoReadable (b :: rest) && (readBlockUndo keys u).isSome)

/-- The loop down the chain, to the height `lo`. The result is given where the function
returns from the loop. -/
def verifyDown (level lo : Int) : List CBlock → Verification → Option Bool × Verification
  | [], v => (none, v)
  | b :: rest, v =>
    if ((rest.length + 1 : Nat) : Int) < lo then (none, v)
    else if !checkEntry P keys W level v.scratch.core.node.undo b rest then (some false, v)
    else if 3 ≤ level ∧ v.scratch.core.node.chain = b :: rest ∧ W.fits (b :: rest) = true then
      match disconnectCall P M keys I W.zerocoins v.scratch with
      | (.failed, s) => (some false, ⟨s, v.failure⟩)
      | (r, s) =>
        if W.shutdown (b :: rest) then (some true, ⟨s, v.failure || r = .unclean⟩)
        else verifyDown level lo rest ⟨s, v.failure || r = .unclean⟩
    else if W.shutdown (b :: rest) then (some true, v)
    else verifyDown level lo rest v

/-- The loop up the active chain, which ends at `tip`, over the blocks above the scratch
view. -/
def verifyUp (tip : Nat) : List CBlock → IndexedNode → Bool × IndexedNode
  | [], s => (true, s)
  | b :: bs, s =>
    if W.readableAgain (b :: s.core.node.chain) then
      match connectCall P (M.atTip tip (s.core.node.chain.length + 1)) keys I W.node W.checks b s with
      | (false, s) => (false, s)
      | (true, s) => verifyUp tip bs s
    else (false, s)

/-- The blocks of a chain above another one, the lowest first. -/
def blocksAbove (chain below : List CBlock) : List CBlock :=
  (chain.take (chain.length - below.length)).reverse

/-- Both loops. -/
def verifyScratch (s : IndexedNode) : Bool × IndexedNode :=
  let chain := s.core.node.chain
  let level := checkLevel nCheckLevel
  match verifyDown P M keys I W level (chain.length - checkDepth nCheckDepth chain.length) chain
      ⟨s, false⟩ with
  | (some result, v) => (result, v.scratch)
  | (none, v) =>
    if v.failure then (false, v.scratch)
    else if 4 ≤ level then
      verifyUp P M keys I W chain.length (blocksAbove chain v.scratch.core.node.chain) v.scratch
    else (true, v.scratch)

/-- `VerifyDB`: its result, and the node afterwards. The coins and the chain are those
before, the scratch view being dropped. -/
def verifyDB (s : IndexedNode) : Bool × IndexedNode :=
  if s.core.node.chain = [] then (true, s)
  else
    let r := verifyScratch P M keys I W nCheckLevel nCheckDepth s
    (r.1,
      { core :=
          { node :=
              { chain := s.core.node.chain
                tip := { s.core.node.tip with nMoneySupply := r.2.core.node.tip.nMoneySupply }
                undo := r.2.core.node.undo }
            governance := r.2.core.governance }
        indexes := r.2.indexes })

end

end Rapids.Chain
