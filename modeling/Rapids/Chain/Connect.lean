import Rapids.Chain.Undo

/-!
# Rapids.Chain.Connect

**Connecting and disconnecting a block** (`ConnectBlock`, `DisconnectBlock` and
what they check, `main.cpp` and `consensus/tx_verify.cpp`).

What is modelled is everything that moves value: the coins, the sums of inputs,
outputs and fees as wrapping 64-bit numbers, the reward and the dev fund, the
undo record and the money supply. Checks that can only refuse a block and read
none of this (scripts and signatures, sizes, payees, locks, the header) are left
out, so the model connects every block the code connects. What the node
knows at the time, `NodeState`, is an input of `CheckBlock` only.

Connecting is split accordingly: `connectCore` does not depend on the node, and
`connectBlock` guards it by `checkBlock`.
-/

namespace Rapids.Chain

open Rapids.Lib

/-! ### Networks and rewards -/

/-- `COIN` -/
def coin : Int := 100000000

/-- The chain parameters that are read here. -/
structure ChainParams where
  hashGenesisBlock : Nat
  nMaxMoneyOut : Int
  nCoinbaseMaturity : Int
  /-- Activation heights; `none` for `NO_ACTIVATION_HEIGHT`. -/
  upgradePos : Option Nat
  upgradeZC : Option Nat
  heightLastZCAccumCheckpoint : Nat
  devFund : Destination
  regTest : Bool

/-- `CMainParams` -/
def mainParams : ChainParams where
  hashGenesisBlock := 0x00000d628fa6a8e91fe47554fa6ba00c7aa535fccd430b22214a71f9b7b344a7
  nMaxMoneyOut := 35000000000 * coin
  nCoinbaseMaturity := 10
  upgradePos := some 201
  upgradeZC := some 2147483647
  heightLastZCAccumCheckpoint := 2147483647
  devFund := .keyID #v[36, 15, 103, 20, 95, 140, 16, 184, 201, 187, 70, 223, 165, 159, 48, 91, 191,
    55, 161, 56]
  regTest := false

/-- The networks with parameters of their own. -/
inductive Network
  | main
  | test
  | regtest
  deriving DecidableEq

/-- `nMaxMoneyOut`. On the test network it is the largest amount there is. -/
def Network.maxMoneyOut : Network → Int
  | .main => 35000000000 * coin
  | .test => i64Max
  | .regtest => 35000000000 * coin

theorem Network.maxMoneyOut_le (network : Network) : network.maxMoneyOut ≤ i64Max := by
  cases network with
  | main => decide
  | test => decide
  | regtest => decide

/-- `NetworkUpgradeActive` -/
def networkUpgradeActive (activation : Option Nat) (nHeight : Nat) : Bool :=
  match activation with
  | none => false
  | some a => a ≤ nHeight

variable (P : ChainParams) (N : NodeState) (nHeight : Nat)

/-- `MoneyRange` -/
def moneyRange (v : Int) : Bool := 0 ≤ v && v ≤ P.nMaxMoneyOut

/-- `GetBlockValue` -/
def getBlockValue : Int := if nHeight = 1 then 10000000 * coin else 17835000

/-- `GetBlockDevSubsidy`: a tenth. -/
def getBlockDevSubsidy : Int := if nHeight = 1 then 0 else 1783500

/-- `GetBlockMasternodeSubsidy`: seven tenths. -/
def getBlockMasternodeSubsidy : Int := if nHeight = 1 then 0 else 12484500

/-! ### Context-free checks -/

/-- A block with its hash. -/
structure CBlock where
  hash : Nat
  vtx : List Transaction
  deriving DecidableEq

/-- `IsProofOfStake` -/
def CBlock.isProofOfStake (b : CBlock) : Bool :=
  match b.vtx[1]? with
  | some tx => tx.isCoinStake
  | none => false

/-- What the node knows when it checks a block. -/
structure NodeState where
  initialBlockDownload : Bool
  /-- `SPORK_17_COLDSTAKING_ENFORCEMENT` -/
  coldStaking : Bool
  /-- `SPORK_13_ENABLE_SUPERBLOCKS` -/
  superblocks : Bool
  /-- `masternodeSync.IsSynced` -/
  synced : Bool
  isBudgetPaymentBlock : Nat → Bool
  getTransaction : Nat → Option Transaction

/-- The loop of `CheckTransaction` over the outputs. -/
def checkOutputs (P : ChainParams) (fColdStakingActive : Bool) (tx : Transaction) :
    List TxOut → Int → Bool
  | [], _ => true
  | o :: rest, acc =>
    !(o.isEmpty && !tx.isCoinBase && !tx.isCoinStake) && 0 ≤ o.nValue &&
      o.nValue ≤ P.nMaxMoneyOut && moneyRange P (toI64 (acc + o.nValue)) &&
      (!isPayToColdStaking o.scriptPubKey || fColdStakingActive && coin ≤ o.nValue) &&
      checkOutputs P fColdStakingActive tx rest (toI64 (acc + o.nValue))

/-- `CheckTransaction` -/
def checkTransaction (fColdStakingActive : Bool) (tx : Transaction) : Bool :=
  tx.vin ≠ [] && tx.vout ≠ [] && checkOutputs P fColdStakingActive tx tx.vout 0 &&
    (tx.vin.map TxIn.prevout).Nodup &&
    (!tx.isCoinBase ||
      tx.vin.all fun i => 2 ≤ i.scriptSig.length && i.scriptSig.length ≤ 150)

/-- The check a node makes that has not synced its masternodes: the outputs
between the marker and the last must carry the stake and the reward. -/
def checkStakeKept (tx : Transaction) (nHeight : Nat) : Bool :=
  match tx.vin with
  | [] => false
  | i :: _ =>
    match N.getTransaction i.prevout.hash with
    | none => false
    | some txPrev =>
      match txPrev.vout[i.prevout.n]? with
      | none => false
      | some o =>
        ((tx.vout.dropLast.drop 1).foldl (fun acc o => toI64 (acc + o.nValue)) 0) =
          toI64 (o.nValue + getBlockValue (nHeight - 1))

/-- `CheckColdStakeFreeOutput` -/
def checkColdStakeFreeOutput (tx : Transaction)
    (nHeight : Nat) : Bool :=
  if !tx.hasP2CSOutputs then true
  else
    match tx.vout.reverse with
    | lastOut :: before :: _ =>
      if 4 ≤ tx.vout.length && lastOut.scriptPubKey ≠ before.scriptPubKey then
        if lastOut.nValue = getBlockMasternodeSubsidy nHeight then true
        else if P.regTest then false
        else if !N.synced then checkStakeKept N tx nHeight
        else if N.isBudgetPaymentBlock nHeight then N.superblocks
        else false
      else true
    | _ => true

/-- `CheckBlock`, for a block at the height. -/
def checkBlock (b : CBlock) : Bool :=
  (match b.vtx with
    | [] => false
    | tx :: rest =>
      tx.isCoinBase && rest.all (fun tx => !tx.isCoinBase) &&
        (!b.isProofOfStake ||
          ((match tx.vout with
              | [o] => o.isEmpty
              | _ => false) &&
            rest.tail.all fun tx => !tx.isCoinStake))) &&
    (nHeight = 0 || N.initialBlockDownload || !b.isProofOfStake ||
      match b.vtx[1]? with
      | some tx => checkColdStakeFreeOutput P N tx nHeight
      | none => true) &&
    b.vtx.all fun tx =>
      checkTransaction P (nHeight = 0 || N.initialBlockDownload || N.coldStaking) tx &&
        !tx.hasZerocoinSpendInputs

/-! ### Connecting -/

/-- The loop of `CheckTxInputs`: the sum of the inputs, if they are mature and in
range. -/
def checkInputsLoop (P : ChainParams) (v : Coins) (nSpendHeight : Nat) :
    List TxIn → Int → Option Int
  | [], acc => some acc
  | i :: rest, acc =>
    let c := Coins.accessCoin v i.prevout
    if (c.fCoinBase || c.fCoinStake) && (nSpendHeight : Int) - c.nHeight < P.nCoinbaseMaturity then
      none
    else
      let acc := toI64 (acc + c.out.nValue)
      if moneyRange P c.out.nValue && moneyRange P acc then
        checkInputsLoop P v nSpendHeight rest acc
      else none

/-- `CheckTxInputs` -/
def checkTxInputs (v : Coins) (nSpendHeight : Nat) (tx : Transaction) : Bool :=
  Coins.haveInputs v tx &&
    match checkInputsLoop P v nSpendHeight tx.vin 0 with
    | none => false
    | some nValueIn =>
      tx.isCoinStake ||
        match tx.getValueOut with
        | none => false
        | some out => out ≤ nValueIn && 0 ≤ toI64 (nValueIn - out) &&
            moneyRange P (toI64 (nValueIn - out))

/-- The running values of the loop over the transactions. -/
structure Tally where
  coins : Coins
  nFees : Int
  nValueIn : Int
  nValueOut : Int

/-- One round of that loop, with the undo record of the transaction. -/
def connectTx (t : Tally) (tx : Transaction) :
    Option (List Coin × Tally) := do
  let out ← tx.getValueOut
  let (undo, coins) ← Coins.updateCoins t.coins tx nHeight
  if tx.isCoinBase then
    some (undo, { t with coins := coins, nValueOut := toI64 (t.nValueOut + out) })
  else if checkTxInputs P t.coins nHeight tx then
    let nValueIn := Coins.getValueIn t.coins tx
    some (undo,
      { coins := coins
        nFees := if tx.isCoinStake then t.nFees else toI64 (t.nFees + toI64 (nValueIn - out))
        nValueIn := toI64 (t.nValueIn + nValueIn)
        nValueOut := toI64 (t.nValueOut + out) })
  else none

/-- The loop over the transactions. -/
def connectTxs (P : ChainParams) (nHeight : Nat) :
    List Transaction → Tally → Option (List (List Coin) × Tally)
  | [], t => some ([], t)
  | tx :: rest, t => do
    let (undo, t) ← connectTx P nHeight t tx
    let (undos, t) ← connectTxs P nHeight rest t
    some (undo :: undos, t)

/-- The check of the reward. -/
def checkReward (t : Tally) : Bool :=
  toI64 (toI64 (t.nValueOut - t.nValueIn) + t.nFees) ≤ toI64 (t.nFees + getBlockValue nHeight)

/-- The check of the dev fund output. -/
def checkDevFund (b : CBlock) : Bool :=
  match b.vtx[1]? with
  | none => false
  | some tx =>
    match tx.vout[1]? with
    | none => false
    | some o =>
      o.scriptPubKey = getScriptForDestination P.devFund &&
        getBlockDevSubsidy nHeight ≤ o.nValue

/-- The coins database and the money supply. -/
structure ChainTip where
  coins : Coins
  bestBlock : Nat
  nMoneySupply : Int
  deriving DecidableEq

/-- The undo records of a block, for all but the coinbase. -/
abbrev BlockUndo := List (List Coin)

/-- `ConnectBlock` behind `CheckBlock`, for an index entry of the height over the
block `hashPrev`: the undo records written, none for the genesis block, and the
new tip. -/
def connectCore (hashPrev : Nat) (b : CBlock) (s : ChainTip) :
    Option (Option BlockUndo × ChainTip) :=
  if hashPrev ≠ s.bestBlock then none
  else if b.hash = P.hashGenesisBlock then some (none, { s with bestBlock := b.hash })
  else if networkUpgradeActive P.upgradePos nHeight && !b.isProofOfStake then none
  else do
    let (undos, t) ← connectTxs P nHeight b.vtx ⟨s.coins, 0, 0, 0⟩
    if checkReward (nHeight - 1) t &&
        (!networkUpgradeActive P.upgradePos nHeight || checkDevFund P (nHeight - 1) b) then
      some (some undos.tail,
        { coins := t.coins
          bestBlock := b.hash
          nMoneySupply := toI64 (s.nMoneySupply + toI64 (t.nValueOut - t.nValueIn)) })
    else none

/-- `ConnectBlock` -/
def connectBlock (hashPrev : Nat) (b : CBlock)
    (s : ChainTip) : Option (Option BlockUndo × ChainTip) :=
  if checkBlock P N nHeight b then connectCore P nHeight hashPrev b s else none

/-! ### Disconnecting -/

/-- `DisconnectResult` -/
inductive DisconnectResult
  | ok
  | unclean
  | failed
  deriving DecidableEq

/-- The running values of the loop of `DisconnectBlock`. -/
structure Untally where
  coins : Coins
  fClean : Bool
  nValueIn : Int
  nValueOut : Int

/-- One round of that loop; `none` is a failure or an exception. -/
def disconnectTx (t : Untally) (tx : Transaction) (undo : List Coin) : Option Untally := do
  let out ← tx.getValueOut
  let (clean, coins) := Coins.spendOutputs tx.hash 0 tx.vout t.coins
  let t := { t with coins := coins, fClean := t.fClean && clean,
                    nValueOut := toI64 (t.nValueOut + out) }
  if tx.isCoinBase then some t
  else
    let (clean, coins) ← Coins.restoreInputs tx.vin undo t.coins
    some
      { t with
        coins := coins
        fClean := t.fClean && clean
        nValueIn :=
          if Coins.haveInputs coins tx then toI64 (t.nValueIn + Coins.getValueIn coins tx)
          else t.nValueIn }

/-- The loop over the transactions, the last one first. -/
def disconnectTxs : List Transaction → List (List Coin) → Untally → Option Untally
  | [], [], t => some t
  | tx :: rest, undo :: undos, t => do
    let t ← disconnectTxs rest undos t
    disconnectTx t tx undo
  | _, _, _ => none

/-- `UpdateZPIVSupplyDisconnect`, with the denominations of the block's mints
before the last checkpoint. Connecting a block does not add them. -/
def updateZPIVSupplyDisconnect (mints : List Nat)
    (supply : Nat → Int) : Bool :=
  !networkUpgradeActive P.upgradeZC nHeight || P.heightLastZCAccumCheckpoint ≤ nHeight ||
    mints.all fun d => (mints.count d : Int) ≤ supply d

/-- What `UndoReadFromDisk` returns for records that were written. -/
def readBlockUndo (keys : PubKeys) (u : BlockUndo) : Option BlockUndo :=
  u.mapM fun cs => (cs.map (writeUndo keys)).mapM (readUndo keys)

/-- The zerocoins of a block and their supply, which only disconnecting reads. -/
structure Zerocoins where
  /-- `BlockToZerocoinMintList` -/
  mints : CBlock → List Nat
  /-- `mapZerocoinSupply` -/
  supply : Nat → Int

/-- `DisconnectBlock`, with the undo records found for the index entry. -/
def disconnectBlock (keys : PubKeys) (Z : Zerocoins) (nHeight hashPrev : Nat)
    (undo : Option BlockUndo) (b : CBlock) (s : ChainTip) : DisconnectResult × ChainTip :=
  if b.hash ≠ s.bestBlock then (.failed, s)
  else
    match undo.bind (readBlockUndo keys) with
    | none => (.failed, s)
    | some undo =>
      if undo.length + 1 ≠ b.vtx.length then (.failed, s)
      else if !updateZPIVSupplyDisconnect P nHeight (Z.mints b) Z.supply then (.failed, s)
      else
        match disconnectTxs b.vtx ([] :: undo) ⟨s.coins, true, 0, 0⟩ with
        | none => (.failed, s)
        | some t =>
          (if t.fClean then .ok else .unclean,
            { coins := t.coins
              bestBlock := hashPrev
              nMoneySupply := toI64 (s.nMoneySupply - toI64 (t.nValueOut - t.nValueIn)) })

end Rapids.Chain
