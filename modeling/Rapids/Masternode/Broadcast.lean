import Rapids.Chain.Connect

/-!
# Rapids.Masternode.Broadcast

**The list of masternodes** (`masternode.cpp`, `masternodeman.cpp`): broadcasts and pings
from peers, the marking of spent collaterals and the removal of old entries.

A broadcast is a masternode's entry that is sent around. It is remembered under a hash of
its time and its collateral key before it is checked. Then come the checks of the message
(`CheckAndUpdate`, which also updates an enabled entry), of the collateral's transaction
and of the collateral itself (`CheckInputsAndAdd`, which also removes an entry that is not
enabled). Scores for bans are left out, as nothing here reads them.
-/

namespace Rapids.Masternode

open Rapids.Lib Rapids.Chain

/-! ### Entries and messages -/

/-- `CMasternodePing` -/
structure MasternodePing where
  vin : TxIn
  /-- of `vin` -/
  nSequence : Nat
  blockHash : Nat
  sigTime : Int
  vchSig : List UInt8
  nMessVersion : Int
  deriving DecidableEq

/-- `CMasternodePing::IsNull` -/
def MasternodePing.isNull (p : MasternodePing) : Bool := p.blockHash = 0 || p.vin.prevout.isNull

/-- `CService` -/
structure ServiceAddr where
  ip : List UInt8
  port : Nat
  deriving DecidableEq

/-- `CMasternode` -/
structure CMasternode where
  vin : TxIn
  /-- of `vin` -/
  nSequence : Nat
  addr : ServiceAddr
  pubKeyCollateralAddress : List UInt8
  pubKeyMasternode : List UInt8
  vchSig : List UInt8
  nMessVersion : Int
  sigTime : Int
  protocolVersion : Int
  lastPing : MasternodePing
  fCollateralSpent : Bool
  deriving DecidableEq

/-- `CMasternodeBroadcast` adds no fields. -/
abbrev MasternodeBroadcast := CMasternode

/-- `CMasternode::state` -/
inductive MasternodeState
  | preEnabled
  | enabled
  | expired
  | remove
  | vinSpent
  deriving DecidableEq

/-- `MASTERNODE_MIN_CONFIRMATIONS` -/
def masternodeMinConfirmations : Int := 15

/-- `MASTERNODE_MIN_MNP_SECONDS` -/
def masternodeMinMnpSeconds : Int := 10 * 60

/-- `MASTERNODE_MIN_MNB_SECONDS` -/
def masternodeMinMnbSeconds : Int := 5 * 60

/-- `MASTERNODE_REMOVAL_SECONDS` -/
def masternodeRemovalSeconds : Int := 130 * 60

/-- `Params().Collateral` -/
def masternodeCollateral (_nHeight : Int) : Int := 5000 * coin

/-- Hashes, signatures and the network. -/
structure MasternodeCode where
  mainNet : Bool
  regTest : Bool
  /-- `CPubKey::GetID` -/
  keyID : List UInt8 → Vector UInt8 20
  /-- What `CMasternodeBroadcast::GetHash` serializes and hashes. -/
  hashBroadcast : Int → List UInt8 → Nat
  /-- `CMasternodePing::GetHash` -/
  hashPing : MasternodePing → Nat
  /-- `CMasternodeBroadcast::CheckSignature` -/
  checkSignature : MasternodeBroadcast → Bool
  /-- `CSignedMessage::CheckSignature` of a ping -/
  checkPing : MasternodePing → List UInt8 → Bool

namespace MasternodeCode

variable (W : MasternodeCode)

/-- `CMasternodeBroadcast::GetHash` -/
def getHash (mnb : MasternodeBroadcast) : Nat := W.hashBroadcast mnb.sigTime mnb.pubKeyCollateralAddress

/-- The script that pays to a key. -/
def payee (pubKey : List UInt8) : Script := getScriptForDestination (.keyID (W.keyID pubKey))

/-- `MasternodeMinPingSeconds` -/
def minPingSeconds : Int := if W.regTest then 90 else masternodeMinMnpSeconds

/-- `MasternodeExpirationSeconds` -/
def expirationSeconds : Int := if W.regTest then 180 else 120 * 60

/-- `MasternodeRemovalSeconds` -/
def removalSeconds : Int := if W.regTest then 200 else masternodeRemovalSeconds

end MasternodeCode

/-- The rest of the node when a message comes. -/
structure MasternodeEnv where
  fLiteMode : Bool
  /-- `masternodeSync.IsBlockchainSynced` -/
  blockchainSynced : Bool
  /-- `GetAdjustedTime` and `GetTime` -/
  now : Int
  /-- `ActiveProtocol` -/
  activeProtocol : Int
  /-- `mnodeman.IsWithinDepth` of a block hash, for the depth of pings -/
  isWithinDepth : Nat → Bool
  /-- `GetTransaction` -/
  getTransaction : Nat → Option Transaction
  /-- The time of the block that gave a transaction the confirmations it needs, if its
  block is known. -/
  confirmationTime : Nat → Option Int
  /-- The entry is this node's own active masternode. -/
  isOurs : CMasternode → Bool
  /-- `TRY_LOCK(cs_main)` -/
  lockMain : Bool
  /-- `chainActive.Height` -/
  chainHeight : Int

namespace CMasternode

variable (W : MasternodeCode) (E : MasternodeEnv) (mn : CMasternode)

/-- `IsPingedWithin` -/
def isPingedWithin (seconds now : Int) : Bool :=
  if mn.lastPing.isNull then false
  else (if now = -1 then E.now else now) - mn.lastPing.sigTime < seconds

/-- `IsBroadcastedWithin` -/
def isBroadcastedWithin (seconds : Int) : Bool := E.now - mn.sigTime < seconds

/-- `GetActiveState` -/
def activeState : MasternodeState :=
  if mn.fCollateralSpent then .vinSpent
  else if !mn.isPingedWithin E W.removalSeconds (-1) then .remove
  else if !mn.isPingedWithin E W.expirationSeconds (-1) then .expired
  else if mn.lastPing.sigTime - mn.sigTime < W.minPingSeconds then .preEnabled
  else .enabled

/-- `IsEnabled` -/
def isEnabled : Bool := mn.activeState W E = .enabled

/-- `IsAvailableState` -/
def isAvailableState : Bool :=
  mn.activeState W E = .enabled || mn.activeState W E = .preEnabled

end CMasternode

/-! ### The manager -/

/-- `CMasternodeMan` -/
structure MasternodeMan where
  mapMasternodes : OrdMap OutPoint CMasternode
  mapSeenMasternodeBroadcast : OrdMap Nat MasternodeBroadcast
  mapSeenMasternodePing : OrdMap Nat MasternodePing

namespace MasternodeMan

variable (W : MasternodeCode) (E : MasternodeEnv) (p : MasternodePing) (coins : Coins)
  (mnb : MasternodeBroadcast) (mn : CMasternode) (m : MasternodeMan)

def empty : MasternodeMan := ⟨∅, ∅, ∅⟩

variable (collateralOut : OutPoint)

/-- `Find` -/
def find : Option CMasternode :=
  m.mapMasternodes.find? collateralOut

/-- Change an entry in place. -/
def modify (f : CMasternode → CMasternode) : MasternodeMan :=
  match m.find collateralOut with
  | none => m
  | some mn => { m with mapMasternodes := m.mapMasternodes.insert collateralOut (f mn) }

/-- `Remove` -/
def remove : MasternodeMan :=
  { m with mapMasternodes := m.mapMasternodes.erase collateralOut }

/-- `Add` -/
def add : Bool × MasternodeMan :=
  if !mn.isAvailableState W E then (false, m)
  else if (m.find mn.vin.prevout).isSome then (false, m)
  else (true, { m with mapMasternodes := m.mapMasternodes.insert mn.vin.prevout mn })

/-! ### Pings -/

/-- The time of a ping is not too far off. -/
def pingInTime : Bool :=
  !(E.now + 60 * 60 < p.sigTime) && !(p.sigTime ≤ E.now - 60 * 60)

/-- The masternode of a ping is not known, or the ping is signed with its key. -/
def pingSignedOrUnknown : Bool :=
  (m.find p.vin.prevout).all fun mn => W.checkPing p mn.pubKeyMasternode

/-- `CMasternodePing::CheckAndUpdate` with `fCheckSigTimeOnly` -/
def checkPingSigTime : Bool :=
  pingInTime E p && pingSignedOrUnknown W p m

/-- A ping that passes its checks: it becomes the last one of its masternode, and of the
broadcast that is remembered for it. -/
def acceptPing : Bool × MasternodeMan :=
  let m := m.modify p.vin.prevout fun mn => { mn with lastPing := p }
  let hash := W.getHash mn
  let seen := m.mapSeenMasternodeBroadcast
  ({ mn with lastPing := p }.isEnabled W E,
    { m with mapSeenMasternodeBroadcast :=
        ((seen.find? hash).map fun mnb => seen.insert hash { mnb with lastPing := p }).getD seen })

/-- `CMasternodePing::CheckAndUpdate` -/
def checkPing (fRequireAvailable : Bool) (p : MasternodePing) (m : MasternodeMan) :
    Bool × MasternodeMan :=
  if !pingInTime E p then (false, m)
  else
    match m.find p.vin.prevout with
    | none => (false, m)
    | some mn =>
      if mn.protocolVersion < E.activeProtocol then (false, m)
      else if fRequireAvailable && !mn.isAvailableState W E then (false, m)
      else if mn.isPingedWithin E (masternodeMinMnpSeconds - 60) p.sigTime then (false, m)
      else if !W.checkPing p mn.pubKeyMasternode then (false, m)
      else if !E.isWithinDepth p.blockHash then (false, m)
      else acceptPing W E p mn m

/-- `ProcessMessage` for a ping. -/
def processPing : MasternodeMan :=
  if E.fLiteMode || !E.blockchainSynced then m
  else if m.mapSeenMasternodePing.contains (W.hashPing p) then m
  else
    (checkPing W E true p
      { m with mapSeenMasternodePing := m.mapSeenMasternodePing.insertNew (W.hashPing p) p }).2

/-! ### Broadcasts -/

/-- `CMasternode::UpdateFromNewBroadcast`, for the entry of the broadcast's collateral;
it is only called where that is older. -/
def updateFromNewBroadcast : MasternodeMan :=
  let m := m.modify mnb.vin.prevout fun mn => { mn with
    pubKeyMasternode := mnb.pubKeyMasternode
    pubKeyCollateralAddress := mnb.pubKeyCollateralAddress
    sigTime := mnb.sigTime
    vchSig := mnb.vchSig
    protocolVersion := mnb.protocolVersion
    addr := mnb.addr }
  let r := if mnb.lastPing.isNull then (true, m) else checkPing W E false mnb.lastPing m
  if r.1 then
    { r.2.modify mnb.vin.prevout (fun mn => { mn with lastPing := mnb.lastPing }) with
      mapSeenMasternodePing := r.2.mapSeenMasternodePing.insertNew (W.hashPing mnb.lastPing) mnb.lastPing }
  else r.2

/-- The checks of `CheckAndUpdate` before it looks for the entry. -/
def checkMessage : Bool :=
  !(E.now + 60 * 60 < mnb.sigTime) &&
    !mnb.lastPing.isNull && checkPingSigTime W E mnb.lastPing m &&
    !(mnb.protocolVersion < E.activeProtocol) &&
    (W.payee mnb.pubKeyCollateralAddress).length = 25 &&
    (W.payee mnb.pubKeyMasternode).length = 25 &&
    mnb.vin.scriptSig.isEmpty &&
    W.checkSignature mnb &&
    (if W.mainNet then mnb.addr.port = 28732 else mnb.addr.port ≠ 28732)

/-- The broadcast updates the entry: that is enabled, has the same collateral key and was
not broadcast just now. -/
def updates : Bool :=
  mn.isEnabled W E && mn.pubKeyCollateralAddress = mnb.pubKeyCollateralAddress &&
    !mn.isBroadcastedWithin E masternodeMinMnbSeconds

/-- `CMasternodeBroadcast::CheckAndUpdate` -/
def checkAndUpdate : Bool × MasternodeMan :=
  if !checkMessage W E mnb m then (false, m)
  else
    match m.find mnb.vin.prevout with
    | none => (true, m)
    | some mn =>
      if mnb.sigTime ≤ mn.sigTime then (false, m)
      else if updates W E mnb mn then (true, updateFromNewBroadcast W E mnb m)
      else (true, m)

/-- `CMasternode::IsInputAssociatedWithPubkey`: any output of the transaction will do. -/
def isInputAssociatedWithPubkey : Bool :=
  (E.getTransaction mnb.vin.prevout.hash).any fun tx =>
    tx.vout.any fun out =>
      out.nValue = masternodeCollateral E.chainHeight && out.scriptPubKey = W.payee mnb.pubKeyCollateralAddress

/-- `GetCoinDepthAtHeight` -/
def coinDepth (o : OutPoint) (nHeight : Int) : Int :=
  if (coins.accessCoin o).isSpent then -1 else nHeight - (coins.accessCoin o).nHeight + 1

/-- What becomes of a broadcast: whether it is accepted, the entry that is added, and the
manager. -/
structure BroadcastResult where
  accepted : Bool
  added : Option CMasternode
  man : MasternodeMan

/-- The collateral has too few confirmations, or the chain is locked: the broadcast is
forgotten and may come again. -/
def comesAgain : Bool :=
  !E.lockMain || coinDepth coins mnb.vin.prevout E.chainHeight < masternodeMinConfirmations

/-- The end of `CheckInputsAndAdd`, where there is no entry for the collateral. -/
def addBroadcast : BroadcastResult :=
  if (coins.accessCoin mnb.vin.prevout).isSpent then ⟨false, none, m⟩
  else if comesAgain E coins mnb then
    ⟨false, none, { m with
      mapSeenMasternodeBroadcast := m.mapSeenMasternodeBroadcast.erase (W.getHash mnb) }⟩
  else if (E.confirmationTime mnb.vin.prevout.hash).any fun time => mnb.sigTime < time then ⟨false, none, m⟩
  else
    let r := m.add W E { mnb with fCollateralSpent := false }
    ⟨true, if r.1 then some { mnb with fCollateralSpent := false } else none, r.2⟩

/-- `CMasternodeBroadcast::CheckInputsAndAdd` -/
def checkInputsAndAdd : BroadcastResult :=
  if E.isOurs mnb then ⟨true, none, m⟩
  else if mnb.lastPing.isNull || !checkPingSigTime W E mnb.lastPing m then ⟨false, none, m⟩
  else
    match m.find mnb.vin.prevout with
    | none => addBroadcast W E coins mnb m
    | some mn =>
      if mn.isEnabled W E then ⟨true, none, m⟩
      else addBroadcast W E coins mnb (m.remove mnb.vin.prevout)

/-- The checks of `ProcessMessage` for a broadcast that is remembered. -/
def checkBroadcast : BroadcastResult :=
  if !(checkAndUpdate W E mnb m).1 then ⟨false, none, (checkAndUpdate W E mnb m).2⟩
  else if !isInputAssociatedWithPubkey W E mnb then ⟨false, none, (checkAndUpdate W E mnb m).2⟩
  else checkInputsAndAdd W E coins mnb (checkAndUpdate W E mnb m).2

/-- A broadcast is remembered. -/
def remember (mnb : MasternodeBroadcast) (m : MasternodeMan) : MasternodeMan :=
  { m with mapSeenMasternodeBroadcast := m.mapSeenMasternodeBroadcast.insertNew (W.getHash mnb) mnb }

/-- The node takes part and does not remember the broadcast. -/
def takesUp : Bool :=
  !(E.fLiteMode || !E.blockchainSynced) && !m.mapSeenMasternodeBroadcast.contains (W.getHash mnb)

/-- `CMasternodeMan::ProcessMessage` for a broadcast. -/
def processBroadcast : BroadcastResult :=
  if takesUp W E mnb m then checkBroadcast W E coins mnb (m.remember W mnb) else ⟨false, none, m⟩

/-! ### Blocks and removal -/

/-- `CheckSpentCollaterals` -/
def checkSpentCollaterals (vtx : List Transaction) (m : MasternodeMan) : MasternodeMan :=
  (vtx.flatMap Transaction.vin).foldl
    (fun m i => m.modify i.prevout fun mn => { mn with fCollateralSpent := true }) m

/-- An entry that `CheckAndRemove` removes. -/
def isRemoved (forceExpiredRemoval : Bool) (mn : CMasternode) : Bool :=
  mn.activeState W E = .remove || mn.activeState W E = .vinSpent ||
    (forceExpiredRemoval && mn.activeState W E = .expired) || mn.protocolVersion < E.activeProtocol

/-- `CheckAndRemove`: with an entry go the broadcasts of its collateral; old broadcasts
and pings are forgotten too. -/
def checkAndRemove (forceExpiredRemoval : Bool) (m : MasternodeMan) : MasternodeMan where
  mapMasternodes := m.mapMasternodes.filter fun e => !isRemoved W E forceExpiredRemoval e.2
  mapSeenMasternodeBroadcast := m.mapSeenMasternodeBroadcast.filter fun e =>
    !(m.mapMasternodes.entries.any fun x => isRemoved W E forceExpiredRemoval x.2 &&
        e.2.vin = x.2.vin && e.2.nSequence = x.2.nSequence) &&
      !(e.2.lastPing.sigTime < E.now - masternodeRemovalSeconds * 2)
  mapSeenMasternodePing := m.mapSeenMasternodePing.filter fun e =>
    !(e.2.sigTime < E.now - masternodeRemovalSeconds * 2)

end MasternodeMan

end Rapids.Masternode
