import Rapids.Chain.BlockStore
import Rapids.Chain.Staking
import Rapids.Lib.Check

/-!
# Rapids.Chain.Reads

**Where a block is read by index**, from its arrival to its being connected and
disconnected.

The other modules model what is computed from blocks. Here every access by an
index is written as one (`xs[i]?`), also where a check before it makes it safe, and
an access outside what is there is `none`. Checks that go over lists from one end
to the other cannot fail in this way; those are either the ones modelled
elsewhere or given with the node (`BlockChecks`, `ConnectChecks`), whatever they say.

Arrival is `ProcessNewBlock` (`main.cpp`): `CheckBlock`, with the cold stake's
free output and the payee, then the block signature, which is looked at whether
`CheckBlock` accepted or not, then `AcceptBlock`, with the kernel of the coinstake
and the new index entry.
-/

namespace Rapids.Chain

open Rapids.Lib

/-! ### Scripts -/

/-- The bytes from an index on, which may be the end. -/
def bytesFrom (s : Script) (k : Nat) : Option (List UInt8) :=
  if k ≤ s.length then some (s.drop k) else none

/-- `CPubKey`, of the bytes from an index on; an invalid key is empty. The first
byte is read unless the range is empty. -/
def pubKeyFrom (s : Script) (k : Nat) : Option (List UInt8) :=
  if k = s.length then some []
  else do
    let header ← s[k]?
    return if pubKeyLen header = s.length - k then s.drop k else []

/-- `ScriptSigToSerializedSpend` -/
def scriptSigToSerializedSpend (s : Script) : Option (List UInt8) := do
  let len ← s[1]?
  bytesFrom s ((len.toNat + 2) % 256)

/-- `TxOutToPublicCoin`: the bytes of the coin. -/
def txOutToPublicCoin (o : TxOut) : Option (List UInt8) := bytesFrom o.scriptPubKey 6

/-- What an output of the governance's key asks for. -/
inductive GovernanceAction
  | cost (type : UInt8) (amount : List UInt8)
  | fee (script : Script)
  | dev (script : Script)
  deriving DecidableEq

/-- The script behind a length byte, if that is the right length. -/
def governanceScript (s : Script) : Option (Option Script) := do
  let length ← s[5]?
  return if s.length = 6 + length.toNat then some (s.drop 6) else none

/-- The action behind the marker. -/
def governanceKind (masterKey s : Script) : Option (Option GovernanceAction) := do
  let kind ← s[4]?
  if kind = 67 ∧ s.length = 14 then do
    let type ← s[5]?
    some (if 0 < type ∧ type < 6 then some (.cost type (s.drop 6)) else none)
  else if kind = 102 ∧ 6 ≤ s.length then do
    let script ← governanceScript s
    some ((script.filter fun script => script ≠ masterKey).map .fee)
  else if kind = 100 ∧ 6 ≤ s.length then do
    let script ← governanceScript s
    some ((script.filter fun script => script ≠ masterKey).map .dev)
  else some none

/-- What `ConnectBlock` and `DisconnectBlock` read in an output of a transaction that
the governance's key signed. The first byte is read before the length is looked at. -/
def governanceAction (masterKey s : Script) : Option (Option GovernanceAction) := do
  let op ← s[0]?
  if op = opReturn ∧ 5 ≤ s.length then do
    let marker ← s[2]?
    if marker = 71 then do
      let action ← s[3]?
      if action = 65 then governanceKind masterKey s else some none
    else some none
  else some none

/-- The actions of a transaction. -/
def governanceActions (masterKey : Script) (outs : List TxOut) : Option (List (Option GovernanceAction)) :=
  outs.mapM fun o => governanceAction masterKey o.scriptPubKey

/-! ### Nodes -/

/-- The checks of an arriving block that go over it from one end to the other, and
those of its header, its signatures and its hashes. -/
structure BlockChecks where
  /-- The merkle root is right, and no transaction is repeated. -/
  merkleRoot : WireBlock → Bool
  /-- No input is locked by another transaction. -/
  swiftTx : WireBlock → Bool
  /-- `GetLegacySigOpCount`, and the sizes of the transactions. -/
  sigOps : WireBlock → Bool
  /-- The key of a zerocoin spend; `none` is an exception. -/
  spendKey : List UInt8 → Option (List UInt8)
  /-- `IsValid` and `Verify`, of the block's signature. -/
  verify : WireBlock → List UInt8 → Bool
  /-- The hash of the kernel and the script of the coinstake, for the output staked. -/
  kernel : WireBlock → TxOut → Bool
  /-- `ContextualCheckBlockHeader` -/
  header : WireBlock → Bool
  /-- `ContextualCheckBlock` -/
  final : WireBlock → Bool
  /-- The inputs of the coinstake are not spent twice. -/
  stakeInputs : WireBlock → Bool
  /-- There is space, and the file can be opened. -/
  disk : Bool

/-- What a node knows when it looks at a block. -/
structure PeerNode where
  params : ChainParams
  work : WorkParams
  /-- `UPGRADE_V5_DUMMY` -/
  upgradeV5 : Option Nat
  /-- `UPGRADE_ZC_PUBLIC` -/
  upgradeZCPublic : Option Nat
  heightGovernance : Nat
  /-- The script of `GovernanceMasterAddress`. -/
  masterKey : Script
  store : BlockStore
  /-- `chainActive`, the tip first. -/
  active : Branch
  payments : Payments
  initialBlockDownload : Bool
  /-- `SPORK_17_COLDSTAKING_ENFORCEMENT` -/
  coldStaking : Bool
  /-- `GetTransaction`, with the hash of its block. -/
  getTransaction : Nat → Option (Transaction × Nat)
  checks : BlockChecks

namespace PeerNode

variable (N : PeerNode) (b : WireBlock)

/-- The node as the checks of values see it. -/
def nodeState : NodeState :=
  N.payments.nodeState N.initialBlockDownload N.coldStaking fun hash => (N.getTransaction hash).map Prod.fst

/-! ### `CheckBlock` -/

/-- The first transaction must be the coinbase, empty for proof of stake, and a
second one the only coinstake. -/
def checkFirst : Option Bool := do
  if b.vtx = [] then some false
  else do
    let first ← b.vtx[0]?
    if !first.isCoinBase || (b.vtx.drop 1).any Transaction.isCoinBase then some false
    else if !b.isProofOfStake then some true
    else if first.vout.length ≠ 1 then some false
    else do
      let o ← first.vout[0]?
      if !o.isEmpty then some false
      else do
        let second ← b.vtx[1]?
        some (second.isCoinStake && !(b.vtx.drop 2).any Transaction.isCoinStake)

/-- The value of the stake, looked up by the input's own index. -/
def checkStakeKept (tx : Transaction) (nHeight : Nat) : Option Bool := do
  let i ← tx.vin[0]?
  match N.getTransaction i.prevout.hash with
  | none => some false
  | some (txPrev, _) => do
    let o ← txPrev.vout[i.prevout.n]?
    some (((tx.vout.dropLast.drop 1).foldl (fun acc o => toI64 (acc + o.nValue)) 0) =
      toI64 (o.nValue + getBlockValue (nHeight - 1)))

/-- `CheckColdStakeFreeOutput` -/
def checkColdStakeFreeOutput (tx : Transaction) (nHeight : Nat) : Option Bool :=
  if !tx.hasP2CSOutputs then some true
  else do
    let lastOut ← tx.vout[tx.vout.length - 1]?
    if tx.vout.length < 4 then some true
    else do
      let before ← tx.vout[tx.vout.length - 2]?
      if lastOut.scriptPubKey = before.scriptPubKey then some true
      else if lastOut.nValue = getBlockMasternodeSubsidy nHeight then some true
      else if N.params.regTest then some false
      else if !N.payments.synced then N.checkStakeKept tx nHeight
      else some (N.payments.isBudgetPaymentBlock nHeight && N.payments.superblocks)

/-- The height `CheckBlock` takes the block for, 0 if the one before is not known. -/
def checkHeight : Nat :=
  match N.active with
  | [] => 0
  | tip :: _ =>
    if tip.hash = b.hashPrevBlock then N.active.length
    else
      match N.store.index.find? b.hashPrevBlock with
      | none => 0
      | some e => e.branch.length

/-- The checks of what the block pays, skipped while the chain is downloaded. -/
def checkPayments : Option Bool :=
  let nHeight := N.checkHeight b
  if nHeight = 0 || N.initialBlockDownload then some true
  else
    andThen
      (if b.isProofOfStake then do
        let tx ← b.vtx[1]?
        N.checkColdStakeFreeOutput tx nHeight
      else some true)
      ((N.payments.isBlockPayeeValid N.params nHeight b.toCBlock).map Prod.fst)

/-- The checks of the single transactions. -/
def checkTransactions : Bool :=
  b.vtx.all fun tx =>
    checkTransaction N.params (N.checkHeight b = 0 || N.initialBlockDownload || N.coldStaking) tx &&
      !tx.hasZerocoinSpendInputs

/-- The checks before those of payments. -/
def checkContents : Option Bool :=
  andThen (some (N.checks.merkleRoot b))
    (andThen (some (b.vtx ≠ [] && b.vtx.length ≤ 200000 && b.nSize ≤ 200000))
      (andThen (checkFirst b) (some (N.checks.swiftTx b))))

/-- `CheckBlock` -/
def checkBlock : Option Bool :=
  andThen (N.checkContents b)
    (andThen (N.checkPayments b) (some (N.checkTransactions b && N.checks.sigOps b)))

/-! ### `CheckBlockSignature` -/

/-- The key that an output is paid to, or that its kind of input shows behind the
signature. -/
def outputKey (type : Option StakeType) (scriptSig : Script) : Option (Option (List UInt8)) :=
  match type with
  | none => some none
  | some (.pubKey key) => some (some key)
  | some (.pubKeyHash _) =>
    if !networkUpgradeActive N.upgradeV5 N.active.length then some none
    else if scriptSig.length = 73 then some none
    else do
      let sig ← scriptSig[0]?
      (pubKeyFrom scriptSig (1 + sig.toNat + 1)).map some
  | some (.coldStake _) => do
    let sig ← scriptSig[0]?
    let flag ← scriptSig[1 + sig.toNat]?
    (pubKeyFrom scriptSig (1 + sig.toNat + (1 + flag.toNat) + 1)).map some

/-- The key of a coinstake: from the zerocoin spent, or by the third output. -/
def stakeKey (tx : Transaction) (i : TxIn) : Option (Option (List UInt8)) :=
  if i.isZerocoinSpend then
    (scriptSigToSerializedSpend i.scriptSig).map N.checks.spendKey
  else if tx.vout.length < 3 then some none
  else do
    let o ← tx.vout[2]?
    N.outputKey (solver o.scriptPubKey) i.scriptSig

/-- `CheckBlockSignature` -/
def checkBlockSignature : Option Bool :=
  if !b.isProofOfStake then some b.vchBlockSig.isEmpty
  else if b.vchBlockSig.isEmpty then some false
  else do
    let tx ← b.vtx[1]?
    let i ← tx.vin[0]?
    let key ← N.stakeKey tx i
    some (key.any (N.checks.verify b))

/-! ### `AcceptBlock` -/

/-- Is the block with this hash in the active chain? -/
def isInActiveChain (hash : Nat) : Bool :=
  match N.store.index.find? hash with
  | none => false
  | some e => e.branch.isSuffixOf N.active

/-- `CheckProofOfStake`: the value of the kernel is read before it is asked whether
there is one. -/
def checkProofOfStake : Option Bool :=
  if !b.isProofOfStake then some false
  else do
    let tx ← b.vtx[1]?
    let i ← tx.vin[0]?
    if i.isZerocoinSpend then some false
    else
      match N.getTransaction i.prevout.hash with
      | none => some false
      | some (txFrom, hashBlock) =>
        if !N.isInActiveChain hashBlock then some false
        else do
          let o ← txFrom.vout[i.prevout.n]?
          some (N.checks.kernel b o)

/-- The checks of `AcceptBlock` up to the stake. -/
def checkStake : Option Bool :=
  match prevBranch N.work N.store b with
  | none => some false
  | some c =>
    if b.hash ≠ N.work.hashGenesisBlock && !checkWork N.work c b.nBits b.isProofOfStake then some false
    else if b.isProofOfStake then N.checkProofOfStake b
    else some true

/-- `AcceptBlock`, of a block that `CheckBlock` accepted. -/
def acceptBlock (dbp : Option CDiskBlockPos) : Option (Bool × BlockStore) := do
  let stake ← N.checkStake b
  Chain.acceptBlock N.work N.store
    { block := b
      dbp := dbp
      proofOfStake := stake
      header := N.checks.header b
      contents := if N.checks.final b then .ok else .invalid
      stakeInputs := N.checks.stakeInputs b
      disk := N.checks.disk }

/-- `ProcessNewBlock`, up to the call of `ActivateBestChain`. -/
def processNewBlock (dbp : Option CDiskBlockPos) : Option (Bool × BlockStore) := do
  let checked ← N.checkBlock b
  let signed ← N.checkBlockSignature b
  if signed && checked then N.acceptBlock b dbp else some (false, N.store)

/-! ### `ConnectBlock` -/

/-- `AreGovernanceDeployed` -/
def areGovernanceDeployed : Bool := N.heightGovernance ≤ N.active.length

/-- The loop over the zerocoin mints of a transaction. -/
def readMints (isCoin : TxOut → List UInt8 → Bool) : List TxOut → Option Bool
  | [] => some true
  | o :: rest =>
    if startsWithOpcode opZerocoinMint o.scriptPubKey then do
      let bytes ← txOutToPublicCoin o
      if isCoin o bytes then readMints isCoin rest else some false
    else readMints isCoin rest

/-- The checks of a block that is connected that go over it from one end to the
other. They are given with the transactions that follow. -/
structure ConnectChecks where
  /-- Signature operations, and the maintenance of zerocoins. -/
  early : List Transaction → Transaction → Bool
  /-- The value of a mint is a denomination. -/
  isCoin : TxOut → List UInt8 → Bool
  /-- The inputs are valid, with their signature operations and scripts. -/
  inputs : List Transaction → Coins → Transaction → Bool

variable (C : ConnectChecks)

/-- Did the governance's key sign one of the inputs? -/
def isGoverned (v : Coins) (tx : Transaction) : Bool :=
  !tx.isCoinBase && !tx.isCoinStake && N.areGovernanceDeployed &&
    tx.vin.any fun i => (Coins.accessCoin v i.prevout).out.scriptPubKey = N.masterKey

/-- The checks of a transaction before its outputs are read for the governance. -/
def checkConnectInputs (nHeight : Nat) (t : Tally) (rest : List Transaction) (tx : Transaction) : Bool :=
  tx.getValueOut.isSome && (tx.isCoinBase || checkTxInputs N.params t.coins nHeight tx && C.inputs rest t.coins tx)

/-- One round of the loop of `ConnectBlock`; a transaction that is refused is
`some none`. -/
def connectTx (nHeight : Nat) (t : Tally) (rest : List Transaction) (tx : Transaction) :
    Option (Option Tally) :=
  if !C.early rest tx || (tx.hasZerocoinMintOutputs && networkUpgradeActive N.upgradeZCPublic nHeight) then
    some none
  else do
    let minted ← readMints C.isCoin tx.vout
    if !minted || !N.checkConnectInputs C nHeight t rest tx then some none
    else do
      let _ ← if N.isGoverned t.coins tx then governanceActions N.masterKey tx.vout else some []
      some ((Chain.connectTx N.params nHeight t tx).map Prod.snd)

/-- The loop over the transactions. -/
def connectTxs (nHeight : Nat) : List Transaction → Tally → Option (Option Tally)
  | [], t => some (some t)
  | tx :: rest, t => do
    match ← N.connectTx C nHeight t rest tx with
    | none => some none
    | some t => connectTxs nHeight rest t

/-- The check of the dev fund output. -/
def checkDevFund (nHeight : Nat) (b : WireBlock) : Option Bool := do
  let tx ← b.vtx[1]?
  let o ← tx.vout[1]?
  some (o.scriptPubKey = getScriptForDestination N.params.devFund && getBlockDevSubsidy nHeight ≤ o.nValue)

/-- What is left of `ConnectBlock` after `CheckBlock`. -/
def connectCore (nHeight hashPrev : Nat) (b : WireBlock) (s : ChainTip) : Option Bool :=
  if hashPrev ≠ s.bestBlock then some false
  else if b.hash = N.params.hashGenesisBlock then some true
  else if networkUpgradeActive N.params.upgradePos nHeight && !b.isProofOfStake then some false
  else do
    match ← N.connectTxs C nHeight b.vtx ⟨s.coins, 0, 0, 0⟩ with
    | none => some false
    | some t =>
      andThen (some (checkReward (nHeight - 1) t))
        (if networkUpgradeActive N.params.upgradePos nHeight then N.checkDevFund (nHeight - 1) b
        else some true)

/-- `ConnectBlock` -/
def connectBlock (fAlreadyChecked : Bool) (nHeight hashPrev : Nat) (b : WireBlock) (s : ChainTip) :
    Option Bool :=
  andThen (if fAlreadyChecked then some true else N.checkBlock b) (N.connectCore C nHeight hashPrev b s)

/-! ### `DisconnectBlock` -/

/-- What the zerocoin databases say when a block is disconnected. -/
structure DisconnectChecks where
  /-- The value of a mint is a denomination. -/
  isCoin : TxOut → List UInt8 → Bool
  /-- The mint can be erased. -/
  isErased : TxOut → List UInt8 → Bool
  /-- The output is not known as invalid. -/
  isValid : OutPoint → Bool
  /-- The supply of no denomination falls below zero. -/
  supplied : Bool

variable (D : DisconnectChecks)

/-- Does the loop over the inputs, the last one first, restore a coin of the
governance's key? -/
def restoresMasterKey : List TxIn → List Coin → Coins → Bool
  | i :: is, c :: cs, v =>
    restoresMasterKey is cs v ||
      match Coins.restoreInputs is cs v with
      | none => false
      | some (_, v) =>
        match Coins.applyTxInUndo c v i.prevout with
        | none => false
        | some (_, v) => (Coins.accessCoin v i.prevout).out.scriptPubKey = N.masterKey
  | _, _, _ => false

/-- One round of the loop of `DisconnectBlock`; a failure is `some none`. That
governance is deployed is not asked here. -/
def disconnectTx (t : Untally) (tx : Transaction) (undo : List Coin) : Option (Option Untally) := do
  let minted ← readMints (fun o bytes => D.isCoin o bytes && D.isErased o bytes) tx.vout
  if !minted then some none
  else
    match Chain.disconnectTx t tx undo with
    | none => some none
    | some t' => do
      let _ ←
        if !tx.isCoinBase &&
            N.restoresMasterKey tx.vin undo (Coins.spendOutputs tx.hash 0 tx.vout t.coins).2 then
          governanceActions N.masterKey tx.vout
        else some []
      some (some t')

/-- The loop over the transactions, the last one first. -/
def disconnectTxs : List Transaction → List (List Coin) → Untally → Option (Option Untally)
  | [], [], t => some (some t)
  | tx :: rest, undo :: undos, t => do
    match ← disconnectTxs rest undos t with
    | none => some none
    | some t => N.disconnectTx D t tx undo
  | _, _, _ => some none

/-- `BlockToZerocoinMintList`, of transactions and outputs that are not known as
invalid. -/
def blockToZerocoinMintList (b : WireBlock) : Option Bool :=
  readMints D.isCoin ((b.vtx.filter fun tx => tx.vin.all fun i => D.isValid i.prevout).flatMap fun tx =>
    (tx.vout.zipIdx.takeWhile fun o => D.isValid ⟨tx.hash, o.2⟩).map Prod.fst)

/-- `UpdateZPIVSupplyDisconnect`: below the last checkpoint the mints are read. -/
def updateZPIVSupplyDisconnect (nHeight : Nat) (b : WireBlock) : Option Bool :=
  if networkUpgradeActive N.params.upgradeZC nHeight && nHeight < N.params.heightLastZCAccumCheckpoint then
    (blockToZerocoinMintList D b).map fun _ => D.supplied
  else some true

/-- `DisconnectBlock`, with the undo records that were read. -/
def disconnectBlock (nHeight : Nat) (undo : Option BlockUndo) (b : WireBlock) (s : ChainTip) : Option Bool :=
  if b.hash ≠ s.bestBlock then some false
  else
    match undo with
    | none => some false
    | some undo =>
      if undo.length + 1 ≠ b.vtx.length then some false
      else
        andThen (N.updateZPIVSupplyDisconnect D nHeight b)
          ((N.disconnectTxs D b.vtx ([] :: undo) ⟨s.coins, true, 0, 0⟩).map Option.isSome)

end PeerNode

end Rapids.Chain
