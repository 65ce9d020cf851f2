import Rapids.Chain.GovernanceSound
import Rapids.Lib.Batch

/-!
# Rapids.Chain.Indexes

**The address, unspent and spent indexes** (`addressindex.h`, `spentindex.h`,
`txdb.cpp`) and what connecting and disconnecting blocks does to them (`main.cpp`).

`ConnectBlock` collects the operations of a block while it goes over the transactions
and writes them at its end. They depend on the transactions and on the coins these
spend, a `TxView` each. `DisconnectBlock` meets the same views in the opposite order.

It takes back less than was written: spent outputs stay in the spent index (the
operations are collected and never written), and the activity of an input that spends
a coin of a bare public key is looked for under the key of an output.
-/

namespace Rapids.Chain

open Rapids.Lib

/-! ### Addresses -/

/-- `IsPayToPublicKeyHash` -/
def isPayToPublicKeyHash (s : Script) : Bool :=
  s.length = 25 && s[0]? = some opDup && s[1]? = some opHash160 && s[2]? = some 0x14 &&
    s[23]? = some opEqualVerify && s[24]? = some opCheckSig

/-- `IsPayToPublicKey`. The byte that pushes the key is not looked at. -/
def isPayToPublicKey (s : Script) : Bool :=
  if s.length = 35 then (s[1]? = some 0x02 || s[1]? = some 0x03) && s[34]? = some opCheckSig
  else if s.length = 67 then s[1]? = some 0x04 && s[66]? = some opCheckSig
  else false

/-- The type and the hash an address is indexed by. -/
structure Address where
  type : Nat
  hashBytes : List UInt8
  deriving DecidableEq

/-- The options of the indexes, and the hash of public keys. -/
structure IndexParams where
  fAddressIndex : Bool
  fSpentIndex : Bool
  hash160 : List UInt8 → List UInt8

/-- The address of a script. The three forms differ in length, so their order does
not matter. -/
def addressOf (I : IndexParams) (s : Script) : Option Address :=
  if isPayToScriptHash s then some ⟨2, (s.drop 2).take 20⟩
  else if isPayToPublicKeyHash s then some ⟨1, (s.drop 3).take 20⟩
  else if isPayToPublicKey s then some ⟨1, I.hash160 (s.drop 1).dropLast⟩
  else none

/-! ### Keys and values -/

/-- `CAddressIndexKey` -/
structure AddressIndexKey where
  address : Address
  blockHeight : Nat
  txindex : Nat
  txhash : Nat
  index : Nat
  spending : Bool
  deriving DecidableEq

/-- `CAddressUnspentKey` -/
structure AddressUnspentKey where
  address : Address
  out : OutPoint
  deriving DecidableEq

/-- `CAddressUnspentValue` -/
structure AddressUnspentValue where
  satoshis : Int
  script : Script
  blockHeight : Nat
  deriving DecidableEq

/-- `CSpentIndexValue` -/
structure SpentIndexValue where
  txid : Nat
  inputIndex : Nat
  blockHeight : Nat
  satoshis : Int
  addressType : Nat
  addressHash : List UInt8
  deriving DecidableEq

/-- An unspent output of a height; one with the value of `CAddressUnspentValue()` is
null. -/
def unspentValue (o : TxOut) (nHeight : Nat) : Option AddressUnspentValue :=
  if o.nValue = -1 then none else some ⟨o.nValue, o.scriptPubKey, nHeight⟩

/-- The input that spends a coin; one of the null transaction is null. The address of
other scripts has type 0 and a null hash. -/
def spentValue (I : IndexParams) (txhash j nHeight : Nat) (o : TxOut) : Option SpentIndexValue :=
  let a := (addressOf I o.scriptPubKey).getD ⟨0, List.replicate 20 0⟩
  if txhash = 0 then none else some ⟨txhash, j, nHeight, o.nValue, a.type, a.hashBytes⟩

/-- The three indexes. -/
structure Indexes where
  address : AddressIndexKey → Option Int
  unspent : AddressUnspentKey → Option AddressUnspentValue
  spent : OutPoint → Option SpentIndexValue

/-! ### The operations of a transaction -/

/-- A transaction at its place in a block, with the coins its inputs spend. -/
structure TxView where
  i : Nat
  tx : Transaction
  coins : List Coin
  deriving DecidableEq

namespace TxView

/-- The inputs with their coins and places. -/
def inputs (w : TxView) : List ((TxIn × Coin) × Nat) := (w.tx.vin.zip w.coins).zipIdx

/-- The outputs with their places. -/
def outputs (w : TxView) : List (TxOut × Nat) := w.tx.vout.zipIdx

variable (I : IndexParams) (nHeight : Nat) (w : TxView)

/-- The key of an input's or an output's activity. -/
def activityKey (a : Address) (index : Nat) (spending : Bool) : AddressIndexKey :=
  ⟨a, nHeight, w.i, w.tx.hash, index, spending⟩

/-- What `ConnectBlock` adds to `addressIndex`. -/
def connectAddress : List (AddressIndexKey × Option Int) :=
  (w.inputs.filterMap fun e =>
    (addressOf I e.1.2.out.scriptPubKey).map fun a =>
      (w.activityKey nHeight a e.2 true, some (-e.1.2.out.nValue))) ++
    w.outputs.filterMap fun e =>
      (addressOf I e.1.scriptPubKey).map fun a => (w.activityKey nHeight a e.2 false, some e.1.nValue)

/-- What it adds to `addressUnspentIndex`. -/
def connectUnspent : List (AddressUnspentKey × Option AddressUnspentValue) :=
  (w.inputs.filterMap fun e =>
    (addressOf I e.1.2.out.scriptPubKey).map fun a => (⟨a, e.1.1.prevout⟩, none)) ++
    w.outputs.filterMap fun e =>
      (addressOf I e.1.scriptPubKey).map fun a => (⟨a, ⟨w.tx.hash, e.2⟩⟩, unspentValue e.1 nHeight)

/-- What it adds to `spentIndex`. -/
def connectSpent : List (OutPoint × Option SpentIndexValue) :=
  w.inputs.map fun e => (e.1.1.prevout, spentValue I w.tx.hash e.2 nHeight e.1.2.out)

/-- What `DisconnectBlock` adds to `addressIndex`, the last outputs and inputs first. -/
def disconnectAddress : List (AddressIndexKey × Int) :=
  (w.outputs.reverse.filterMap fun e =>
    (addressOf I e.1.scriptPubKey).map fun a => (w.activityKey nHeight a e.2 false, e.1.nValue)) ++
    w.inputs.reverse.filterMap fun e =>
      (addressOf I e.1.2.out.scriptPubKey).map fun a =>
        -- an input of a bare public key is taken for an output
        (w.activityKey nHeight a e.2 (!isPayToPublicKey e.1.2.out.scriptPubKey), -e.1.2.out.nValue)

/-- What it adds to `addressUnspentIndex`. -/
def disconnectUnspent : List (AddressUnspentKey × Option AddressUnspentValue) :=
  (w.outputs.reverse.filterMap fun e =>
    (addressOf I e.1.scriptPubKey).map fun a => (⟨a, ⟨w.tx.hash, e.2⟩⟩, none)) ++
    w.inputs.reverse.filterMap fun e =>
      (addressOf I e.1.2.out.scriptPubKey).map fun a =>
        (⟨a, e.1.1.prevout⟩, unspentValue e.1.2.out e.1.2.nHeight)

end TxView

/-! ### The operations of a block -/

section
variable (P : ChainParams) (nHeight : Nat)

/-- The coins that the inputs of a transaction spend. -/
def inputCoins (v : Coins) (tx : Transaction) : List Coin :=
  if tx.isCoinBase then [] else tx.vin.map fun i => Coins.accessCoin v i.prevout

/-- The views of `ConnectBlock`. -/
def connectViews : List Transaction → Nat → Tally → List TxView
  | [], _, _ => []
  | tx :: rest, i, t =>
    ⟨i, tx, inputCoins t.coins tx⟩ ::
      match connectTx P nHeight t tx with
      | none => []
      | some (_, t) => connectViews rest (i + 1) t

end

/-- The coins found behind each input once it is restored, the last one first. -/
def restoredCoins : List TxIn → List Coin → Coins → List Coin
  | i :: is, c :: cs, v =>
    match Coins.restoreInputs is cs v with
    | none => []
    | some (_, v') =>
      (match Coins.applyTxInUndo c v' i.prevout with
        | none => Coin.empty
        | some (_, v') => Coins.accessCoin v' i.prevout) :: restoredCoins is cs v
  | _, _, _ => []

/-- The views of `DisconnectBlock`. -/
def disconnectViews : List Transaction → List (List Coin) → Nat → Untally → List TxView
  | tx :: rest, undo :: undos, i, t =>
    disconnectViews rest undos (i + 1) t ++
      match disconnectTxs rest undos t with
      | none => []
      | some t =>
        [⟨i, tx,
          if tx.isCoinBase then []
          else restoredCoins tx.vin undo (Coins.spendOutputs tx.hash 0 tx.vout t.coins).2⟩]
  | _, _, _, _ => []

section
variable (I : IndexParams) (nHeight : Nat) (ws : List TxView) (x : Indexes)

/-- The end of `ConnectBlock`. -/
def writeIndexes : Indexes where
  address :=
    if I.fAddressIndex then writeBatch (ws.flatMap (TxView.connectAddress I nHeight)) x.address
    else x.address
  unspent :=
    if I.fAddressIndex then writeBatch (ws.flatMap (TxView.connectUnspent I nHeight)) x.unspent
    else x.unspent
  spent :=
    if I.fSpentIndex then writeBatch (ws.flatMap (TxView.connectSpent I nHeight)) x.spent
    else x.spent

/-- The end of `DisconnectBlock`. What it collects for the spent index is not written. -/
def revertIndexes : Indexes where
  address :=
    if I.fAddressIndex then
      writeBatch (eraseBatch (ws.flatMap (TxView.disconnectAddress I nHeight))) x.address
    else x.address
  unspent :=
    if I.fAddressIndex then writeBatch (ws.flatMap (TxView.disconnectUnspent I)) x.unspent
    else x.unspent
  spent := x.spent

end

/-! ### Runs -/

/-- A node with all that connecting and disconnecting writes. -/
structure IndexedNode where
  core : GovernanceNode
  indexes : Indexes

section
variable (P : ChainParams) (M : GovernanceParams) (keys : PubKeys) (I : IndexParams)

/-- The indexes after a call of `ConnectBlock` that succeeds. -/
def connectedIndexes (s : ChainState) (b : CBlock) (x : Indexes) : Indexes :=
  writeIndexes I (s.chain.length + 1)
    (connectViews P (s.chain.length + 1) b.vtx 0 ⟨s.tip.coins, 0, 0, 0⟩) x

/-- The views of a call of `DisconnectBlock` that gets to its loop. -/
def undoneViews (s : ChainState) : List TxView :=
  match s.chain with
  | [] => []
  | b :: rest =>
    match (s.undo (b :: rest)).bind (readBlockUndo keys) with
    | none => []
    | some undo => disconnectViews b.vtx ([] :: undo) 0 ⟨s.tip.coins, true, 0, 0⟩

/-- A call of `DisconnectBlock` for the tip. One that does not fail moves the chain,
the supply and the indexes. -/
def disconnectCall (Z : Zerocoins) (s : IndexedNode) : DisconnectResult × IndexedNode :=
  match s.core.node.chain with
  | [] => (.failed, s)
  | b :: rest =>
    let governance := (revertedByCall P M keys Z s.core.node).foldl
      (applyRevert s.core.node.chain.length) s.core.governance
    match disconnectBlock P keys Z (rest.length + 1) (tipHash P rest)
        (s.core.node.undo (b :: rest)) b s.core.node.tip with
    | (.failed, _) => (.failed, ⟨⟨s.core.node, governance⟩, s.indexes⟩)
    | (r, tip) =>
      (r, ⟨⟨⟨rest, tip, s.core.node.undo⟩, governance⟩,
        revertIndexes I (rest.length + 1) (undoneViews keys s.core.node) s.indexes⟩)

/-- A call of `ConnectBlock`: did it connect the block? -/
def connectCall (N : NodeState) (C : LeftOutChecks) (b : CBlock) (s : IndexedNode) :
    Bool × IndexedNode :=
  let governance := (calledActions P M N C s.core.node b).foldl
    (applyUpdate (s.core.node.chain.length + 1)) s.core.governance
  match connects P keys N C s.core.node b with
  | none => (false, ⟨⟨s.core.node, governance⟩, s.indexes⟩)
  | some node => (true, ⟨⟨node, governance⟩, connectedIndexes P I s.core.node b s.indexes⟩)

/-- One call on the active chain. A disconnection that is not clean is an error, after
which the chain stays. -/
def indexedStep (s : IndexedNode) : GovernanceEvent → IndexedNode
  | .connect N C b => (connectCall P M keys I N C b s).2
  | .check N C b => ⟨governanceStep P M keys s.core (.check N C b), s.indexes⟩
  | .disconnect Z =>
    match disconnectCall P M keys I Z s with
    | (.ok, s') => s'
    | (_, s') =>
      ⟨⟨⟨s.core.node.chain,
          { s.core.node.tip with nMoneySupply := s'.core.node.tip.nMoneySupply }, s.core.node.undo⟩,
        s'.core.governance⟩, s'.indexes⟩

/-- A node at the genesis block. -/
def IndexedNode.genesis (supply : Int) : IndexedNode :=
  ⟨.genesis P M supply, ⟨fun _ => none, fun _ => none, fun _ => none⟩⟩

end

end Rapids.Chain
