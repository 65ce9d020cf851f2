import Rapids.Chain.MoneySupply
import Rapids.Chain.Reads

/-!
# Rapids.Chain.Governance

**The governance database** (`governance/governance.cpp`) and what connecting and
disconnecting blocks does to it (`main.cpp`).

A transaction signed by the governance's key may carry outputs that set the cost of
an issuance, the script fees go to or the dev fund's script. `ConnectBlock` writes
them down by the height of the block while it goes over the transactions, and a
height that has a value keeps it; `DisconnectBlock` reads the outputs again and
erases what stands at the height. The value in force is the one of the greatest
height.

`ConnectBlock` writes in the middle of its checks. So a call that fails, or that was
to check only, has written what the transactions it came to asked for; this is
`reachedActions`. The checks that the other modules leave out are given with the
call (`LeftOutChecks`), whatever they say.
-/

namespace Rapids.Chain

open Rapids.Lib

/-! ### The database -/

def governanceCostFixed : Nat := 1
def governanceCostManaged : Nat := 2
def governanceCostVariable : Nat := 3
def governanceCostUsername : Nat := 4
def governanceCostSub : Nat := 5

/-- The chain parameters of the governance. -/
structure GovernanceParams where
  heightGovernance : Nat
  /-- The script of `GovernanceMasterAddress`. -/
  masterKey : Script
  fixedFee : Int
  managedFee : Int
  variableFee : Int
  usernameFee : Int
  subFee : Int
  /-- The script of `GovernanceFeeAddress`. -/
  feeScript : Script
  /-- The script of `DevFundAddress`. -/
  devScript : Script

/-- `CGovernance`: costs by type and height, scripts by height. -/
structure Governance where
  costs : OrdMap (Nat ×ₗ Nat) Int
  feeScripts : OrdMap Nat Script
  devScripts : OrdMap Nat Script

/-- `Init`, with the dummy entry of type 0. -/
def Governance.init (M : GovernanceParams) : Governance where
  costs :=
    ((((((∅ : OrdMap (Nat ×ₗ Nat) Int).insert (toLex (0, 0)) 0).insert
      (toLex (governanceCostFixed, 0)) M.fixedFee).insert
      (toLex (governanceCostManaged, 0)) M.managedFee).insert
      (toLex (governanceCostVariable, 0)) M.variableFee).insert
      (toLex (governanceCostUsername, 0)) M.usernameFee).insert
      (toLex (governanceCostSub, 0)) M.subFee
  feeScripts := (∅ : OrdMap Nat Script).insert 0 M.feeScript
  devScripts := (∅ : OrdMap Nat Script).insert 0 M.devScript

/-- The loop that looks for the greatest height, with what stands there. Heights are
distinct, so the order of the entries does not matter. -/
def newest {α : Type} (entries : List (Nat × α)) (none : α) : α :=
  (entries.foldl (fun acc e => if acc.1 < (e.1 : Int) then ((e.1 : Int), e.2) else acc) (-1, none)).2

variable (g : Governance) (height : Nat)

/-- `GetCost` -/
def getCost (type : Nat) : Int :=
  newest (g.costs.entries.filterMap fun e =>
    if (ofLex e.1).1 = type then some ((ofLex e.1).2, e.2) else none) 0

/-- The default of `FeeDetails` and `DevDetails`. -/
def dummyScript : Script := [5, 0x68, 0x85, 0x77, 0x77, 0x89]

/-- `GetFeeScript` -/
def getFeeScript : Script := newest g.feeScripts.entries dummyScript

/-- `GetDevScript` -/
def getDevScript : Script := newest g.devScripts.entries dummyScript

/-- `UpdateCost`, which knows three of the five types. -/
def updateCost (cost : Int) (type height : Nat) : Governance :=
  if type = governanceCostFixed ∨ type = governanceCostManaged ∨ type = governanceCostVariable then
    { g with costs := g.costs.insertNew (toLex (type, height)) cost }
  else g

/-- `RevertUpdateCost` -/
def revertUpdateCost (type height : Nat) : Governance :=
  { g with costs := g.costs.erase (toLex (type, height)) }

/-- `UpdateFeeScript` -/
def updateFeeScript (script : Script) (height : Nat) : Governance :=
  { g with feeScripts := g.feeScripts.insertNew height script }

/-- `RevertUpdateFeeScript` -/
def revertUpdateFeeScript : Governance :=
  { g with feeScripts := g.feeScripts.erase height }

/-- `UpdateDevScript` -/
def updateDevScript (script : Script) (height : Nat) : Governance :=
  { g with devScripts := g.devScripts.insertNew height script }

/-- `RevertUpdateDevScript` -/
def revertUpdateDevScript : Governance :=
  { g with devScripts := g.devScripts.erase height }

/-- A `CAmount` read from its bytes, the least significant one first. -/
def readAmount (bytes : List UInt8) : Int :=
  toI64 (bytes.foldr (fun b acc => b.toNat + 256 * acc) 0 : Nat)

/-- What `ConnectBlock` does about an output. -/
def applyUpdate (g : Governance) : GovernanceAction → Governance
  | .cost type amount => updateCost g (readAmount amount) type.toNat height
  | .fee script => updateFeeScript g script height
  | .dev script => updateDevScript g script height

/-- What `DisconnectBlock` does about it. -/
def applyRevert (g : Governance) : GovernanceAction → Governance
  | .cost type _ => revertUpdateCost g type.toNat height
  | .fee _ => revertUpdateFeeScript g height
  | .dev _ => revertUpdateDevScript g height

/-! ### Connecting -/

/-- The actions in the outputs of a transaction. An empty script has none. -/
def outputActions (masterKey : Script) (tx : Transaction) : List GovernanceAction :=
  tx.vout.filterMap fun o => (governanceAction masterKey o.scriptPubKey).join

/-- Does a transaction spend a coin of the governance's key? -/
def spendsKey (masterKey : Script) (v : Coins) (ins : List TxIn) : Bool :=
  ins.any fun i => (Coins.accessCoin v i.prevout).out.scriptPubKey = masterKey

/-- The actions of a transaction in a block of the height, over a view. The block is
the next one of the active chain, so `AreGovernanceDeployed` asks for its height. -/
def txActions (M : GovernanceParams) (nHeight : Nat) (v : Coins) (tx : Transaction) :
    List GovernanceAction :=
  if !tx.isCoinBase && !tx.isCoinStake && M.heightGovernance ≤ nHeight && spendsKey M.masterKey v tx.vin then
    outputActions M.masterKey tx
  else []

/-- Checks of a block that is connected which the model of `ConnectBlock` leaves out. -/
structure LeftOutChecks where
  /-- Signature operations, zerocoins and scripts of a transaction, with those that
  follow. -/
  inputs : List Transaction → Coins → Transaction → Bool
  /-- The scripts that are checked in the background, at the end. -/
  control : CBlock → Bool

section
variable (P : ChainParams) (M : GovernanceParams) (C : LeftOutChecks) (nHeight : Nat)

/-- Do all transactions pass the checks that are left out? -/
def LeftOutChecks.passInputs : List Transaction → Tally → Bool
  | [], _ => true
  | tx :: rest, t =>
    C.inputs rest t.coins tx &&
      match connectTx P nHeight t tx with
      | none => true
      | some (_, t) => passInputs rest t

/-- Does the transaction pass the checks before its outputs are read? -/
def checkBeforeOutputs (t : Tally) (rest : List Transaction) (tx : Transaction) : Bool :=
  C.inputs rest t.coins tx && tx.getValueOut.isSome &&
    (tx.isCoinBase || checkTxInputs P t.coins nHeight tx)

/-- The actions of the transactions that the loop comes to. -/
def reachedActions : List Transaction → Tally → List GovernanceAction
  | [], _ => []
  | tx :: rest, t =>
    if checkBeforeOutputs P C nHeight t rest tx then
      txActions M nHeight t.coins tx ++
        match connectTx P nHeight t tx with
        | none => []
        | some (_, t) => reachedActions rest t
    else []

end

/-! ### Disconnecting -/

/-- Does the loop over the inputs, the last one first, restore a coin of the
governance's key? -/
def restoresKey (masterKey : Script) : List TxIn → List Coin → Coins → Bool
  | i :: is, c :: cs, v =>
    restoresKey masterKey is cs v ||
      match Coins.restoreInputs is cs v with
      | none => false
      | some (_, v) =>
        match Coins.applyTxInUndo c v i.prevout with
        | none => false
        | some (_, v) => (Coins.accessCoin v i.prevout).out.scriptPubKey = masterKey
  | _, _, _ => false

/-- The actions that disconnecting a transaction takes back. Neither the height of the
governance nor coinstakes are looked at. -/
def revertedTxActions (masterKey : Script) (v : Coins) (tx : Transaction) (undo : List Coin) :
    List GovernanceAction :=
  let v := (Coins.spendOutputs tx.hash 0 tx.vout v).2
  if !tx.isCoinBase && (Coins.restoreInputs tx.vin undo v).isSome && restoresKey masterKey tx.vin undo v then
    outputActions masterKey tx
  else []

/-- The actions that the loop takes back, the last transaction first. -/
def revertedActions (masterKey : Script) :
    List Transaction → List (List Coin) → Untally → List GovernanceAction
  | tx :: rest, undo :: undos, t =>
    revertedActions masterKey rest undos t ++
      match disconnectTxs rest undos t with
      | none => []
      | some t => if tx.getValueOut.isSome then revertedTxActions masterKey t.coins tx undo else []
  | _, _, _ => []

/-! ### Runs -/

/-- The chain state and the governance database. -/
structure GovernanceNode where
  node : ChainState
  governance : Governance

/-- Calls of `ConnectBlock`, `ConnectBlock` with `fJustCheck` (`TestBlockValidity`) and
`DisconnectBlock`, on the active chain. -/
inductive GovernanceEvent
  | connect (N : NodeState) (C : LeftOutChecks) (b : CBlock)
  | check (N : NodeState) (C : LeftOutChecks) (b : CBlock)
  | disconnect (Z : Zerocoins)

section
variable (P : ChainParams) (M : GovernanceParams) (keys : PubKeys)

/-- Does a call of `ConnectBlock` come to the loop over the transactions? -/
def reachesLoop (N : NodeState) (s : ChainState) (b : CBlock) : Bool :=
  checkBlock P N (s.chain.length + 1) b && tipHash P s.chain = s.tip.bestBlock &&
    b.hash ≠ P.hashGenesisBlock &&
    !(networkUpgradeActive P.upgradePos (s.chain.length + 1) && !b.isProofOfStake)

/-- The actions a call of `ConnectBlock` comes to. -/
def calledActions (N : NodeState) (C : LeftOutChecks) (s : ChainState) (b : CBlock) :
    List GovernanceAction :=
  if reachesLoop P N s b then
    reachedActions P M C (s.chain.length + 1) b.vtx ⟨s.tip.coins, 0, 0, 0⟩
  else []

/-- The chain state after a call of `ConnectBlock` that succeeds. -/
def connects (N : NodeState) (C : LeftOutChecks) (s : ChainState) (b : CBlock) : Option ChainState :=
  if C.passInputs P (s.chain.length + 1) b.vtx ⟨s.tip.coins, 0, 0, 0⟩ && C.control b then
    chainStep P keys s (.connect N b)
  else none

/-- The actions a call of `DisconnectBlock` takes back. -/
def revertedByCall (Z : Zerocoins) (s : ChainState) : List GovernanceAction :=
  match s.chain with
  | [] => []
  | b :: rest =>
    match (s.undo (b :: rest)).bind (readBlockUndo keys) with
    | none => []
    | some undo =>
      if b.hash = s.tip.bestBlock && undo.length + 1 = b.vtx.length &&
          updateZPIVSupplyDisconnect P (rest.length + 1) (Z.mints b) Z.supply then
        revertedActions M.masterKey b.vtx ([] :: undo) ⟨s.tip.coins, true, 0, 0⟩
      else []

/-- One call. A call that fails leaves the chain; what it did to the database stays. -/
def governanceStep (s : GovernanceNode) : GovernanceEvent → GovernanceNode
  | .connect N C b =>
    ⟨(connects P keys N C s.node b).getD s.node,
      (calledActions P M N C s.node b).foldl (applyUpdate (s.node.chain.length + 1)) s.governance⟩
  | .check N C b =>
    ⟨s.node, (calledActions P M N C s.node b).foldl (applyUpdate (s.node.chain.length + 1)) s.governance⟩
  | .disconnect Z =>
    ⟨(chainStep P keys s.node (.disconnect Z)).getD s.node,
      (revertedByCall P M keys Z s.node).foldl (applyRevert s.node.chain.length) s.governance⟩

/-- A node at the genesis block. -/
def GovernanceNode.genesis (supply : Int) : GovernanceNode :=
  ⟨.genesis P supply, .init M⟩

end

end Rapids.Chain
