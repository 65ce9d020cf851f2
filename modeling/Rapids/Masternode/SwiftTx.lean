import Rapids.Chain.Transaction
import Rapids.Lib.OrdMap
import Rapids.Lib.Run

/-!
# Rapids.Masternode.SwiftTx

**Transaction locks** (`swifttx.cpp`): the maps that lock requests, lock votes and
the cleaning of old locks update, and the scan of a block for conflicts with them
(`CheckBlock`).

What other code decides is given with each message: whether the request is valid and
accepted by the mempool, how deep coins are, the ranks of masternodes and which signatures
check. A vote of the node's own is never cast: in `DoConsensusVote` the `return` under
`activeMasternode.vin == nullopt` is outside the condition.
-/

namespace Rapids.Masternode

open Rapids.Lib Rapids.Chain

/-- `SWIFTTX_SIGNATURES_REQUIRED` -/
def swiftTxSignaturesRequired : Int := 6

/-- `SWIFTTX_SIGNATURES_TOTAL` -/
def swiftTxSignaturesTotal : Int := 10

/-- `CConsensusVote`. Of the masternode's input only the outpoint is read. -/
structure ConsensusVote where
  vinMasternode : OutPoint
  txHash : Nat
  nBlockHeight : Int
  vchSig : List UInt8
  deriving DecidableEq

variable (E : VoteEnv) (v : ConsensusVote) (s : SwiftState)

/-- `CConsensusVote::GetHash`: a sum of 256-bit numbers, without height and signature. -/
def ConsensusVote.getHash : Nat :=
  (v.vinMasternode.hash + v.vinMasternode.n + v.txHash) % 2 ^ 256

/-- `CTransactionLock` -/
structure TransactionLock where
  nBlockHeight : Int
  txHash : Nat
  vecConsensusVotes : List ConsensusVote
  nExpiration : Int
  nTimeout : Int
  deriving DecidableEq

namespace TransactionLock

variable (lock : TransactionLock)

/-- `AddSignature` -/
def addSignature (v : ConsensusVote) : TransactionLock :=
  { lock with vecConsensusVotes := lock.vecConsensusVotes ++ [v] }

/-- The votes whose height is the lock's. -/
def countedVotes : List ConsensusVote :=
  lock.vecConsensusVotes.filter fun v => v.nBlockHeight = lock.nBlockHeight

/-- `CountSignatures` -/
def countSignatures : Int :=
  if lock.nBlockHeight = 0 then -1 else lock.countedVotes.length

/-- A lock that a request or a vote creates. -/
def new (nBlockHeight : Int) (txHash : Nat) (now : Int) : TransactionLock :=
  ⟨nBlockHeight, txHash, [], now + 60 * 60, now + 60 * 5⟩

end TransactionLock

/-- The maps. -/
structure SwiftState where
  mapTxLockReq : OrdMap Nat Transaction
  mapTxLockReqRejected : OrdMap Nat Transaction
  mapTxLockVote : OrdMap Nat ConsensusVote
  mapTxLocks : OrdMap Nat TransactionLock
  mapLockedInputs : OrdMap OutPoint Nat
  mapUnknownVotes : OrdMap Nat Int

def SwiftState.empty : SwiftState := ⟨∅, ∅, ∅, ∅, ∅, ∅⟩

/-- `CTransaction()`, whose hash is null. -/
def nullTransaction : Transaction := ⟨0, [], []⟩

/-- What the rest of the node says about a request. -/
structure RequestEnv where
  /-- no lite mode, `SPORK_2_SWIFTTX`, blockchain synced -/
  enabled : Bool
  isIXTXValid : Bool
  /-- `IsNormalPaymentScript() || IsUnspendable()` -/
  allowedScript : Script → Bool
  nChainHeight : Int
  /-- `GetCoinDepthAtHeight` -/
  coinDepth : OutPoint → Int
  now : Int
  acceptToMemoryPool : Bool

/-- What it says about a vote. -/
structure VoteEnv where
  enabled : Bool
  /-- `GetMasternodeRank(vin, nBlockHeight, MIN_SWIFTTX_PROTO_VERSION)` -/
  getMasternodeRank : OutPoint → Int → Int
  checkSignature : ConsensusVote → Bool
  now : Int

namespace SwiftState

/-! ### Requests -/

/-- The age of the first input, unless an input is too new. The loop goes backwards. -/
def inputAge (E : RequestEnv) (tx : Transaction) : Option Int :=
  tx.vin.reverse.foldlM
    (fun _ i => if E.coinDepth i.prevout < 5 then none else some (E.coinDepth i.prevout)) 0

/-- `CreateNewLock` -/
def createNewLock (E : RequestEnv) (tx : Transaction) (s : SwiftState) : SwiftState :=
  match inputAge E tx with
  | none => s
  | some nTxAge =>
    let nBlockHeight := E.nChainHeight - nTxAge + 4
    match s.mapTxLocks.find? tx.hash with
    | none =>
      { s with mapTxLocks := s.mapTxLocks.insert tx.hash (.new nBlockHeight tx.hash E.now) }
    | some lock =>
      { s with mapTxLocks := s.mapTxLocks.insert tx.hash { lock with nBlockHeight := nBlockHeight } }

/-- A lock expires now, if there is one. -/
def expire (now : Int) (hash : Nat) (s : SwiftState) : SwiftState :=
  match s.mapTxLocks.find? hash with
  | none => s
  | some lock => { s with mapTxLocks := s.mapTxLocks.insert hash { lock with nExpiration := now } }

/-- The transaction that locks an input of this one, if it is another one. -/
def conflictAt (tx : Transaction) (s : SwiftState) (i : TxIn) : Option Nat :=
  (s.mapLockedInputs.find? i.prevout).bind fun h => if h = tx.hash then none else some h

/-- `CheckForConflictingLocks` -/
def checkForConflictingLocks (now : Int) (tx : Transaction) (s : SwiftState) : Bool × SwiftState :=
  match tx.vin.findSome? (conflictAt tx s) with
  | none => (false, s)
  | some other => (true, (s.expire now tx.hash).expire now other)

/-- Inputs that no transaction locks are locked by this one. -/
def lockInputs (tx : Transaction) (hash : Nat) (s : SwiftState) : SwiftState :=
  { s with mapLockedInputs := tx.vin.foldl (fun m i => m.insertNew i.prevout hash) s.mapLockedInputs }

/-- The branch of a request that the mempool rejects. -/
def rejectRequest (E : RequestEnv) (tx : Transaction) (s : SwiftState) : SwiftState :=
  let s := { s with mapTxLockReqRejected := s.mapTxLockReqRejected.insertNew tx.hash tx }
  let s := s.lockInputs tx tx.hash
  match s.mapTxLocks.find? tx.hash with
  | none => s
  | some lock =>
    if swiftTxSignaturesRequired ≤ lock.countSignatures then
      match s.checkForConflictingLocks E.now tx with
      | (true, s) => s
      | (false, s) => { s with mapTxLockReq := s.mapTxLockReq.insertNew tx.hash tx }
    else s

/-- `ProcessMessageSwiftTX` for a request. -/
def processRequest (E : RequestEnv) (tx : Transaction) (s : SwiftState) : SwiftState :=
  if !E.enabled then s
  else if s.mapTxLockReq.contains tx.hash || s.mapTxLockReqRejected.contains tx.hash then s
  else if !E.isIXTXValid then s
  else if !tx.vout.all fun o => E.allowedScript o.scriptPubKey then s
  else
    let s := s.createNewLock E tx
    if E.acceptToMemoryPool then { s with mapTxLockReq := s.mapTxLockReq.insertNew tx.hash tx }
    else s.rejectRequest E tx

/-! ### Votes -/

/-- What follows when a lock has enough votes. Looking a request up creates it. -/
def completeLock : SwiftState :=
  let tx := (s.mapTxLockReq.find? v.txHash).getD nullTransaction
  let s := { s with mapTxLockReq := s.mapTxLockReq.insertNew v.txHash nullTransaction }
  match s.checkForConflictingLocks E.now tx with
  | (true, s) => s
  | (false, s) => s.lockInputs tx v.txHash

/-- The masternode is known, among the top ranks and has signed. -/
def isVoteValid : Bool :=
  let n := E.getMasternodeRank v.vinMasternode v.nBlockHeight
  n ≠ -1 && n ≤ swiftTxSignaturesTotal && E.checkSignature v

/-- `ProcessConsensusVote` -/
def processConsensusVote : Bool × SwiftState :=
  if isVoteValid E v then
    let lock := ((s.mapTxLocks.find? v.txHash).getD (.new 0 v.txHash E.now)).addSignature v
    let s := { s with mapTxLocks := s.mapTxLocks.insert v.txHash lock }
    (true, if swiftTxSignaturesRequired ≤ lock.countSignatures then s.completeLock E v else s)
  else (false, s)

/-- `GetAverageVoteTime` -/
def getAverageVoteTime (m : OrdMap Nat Int) : Int :=
  (m.entries.map Prod.snd).sum.tdiv m.entries.length

/-- The time of the last vote of a masternode for an unknown transaction. -/
def trackUnknownVote : SwiftState :=
  if s.mapTxLockReq.contains v.txHash || s.mapTxLockReqRejected.contains v.txHash then s
  else
    let key := v.vinMasternode.hash
    let m := s.mapUnknownVotes.insertNew key (E.now + 60 * 10)
    let time := (m.find? key).getD 0
    if E.now < time && 60 * 10 < time - getAverageVoteTime m then { s with mapUnknownVotes := m }
    else { s with mapUnknownVotes := m.insert key (E.now + 60 * 10) }

/-- `ProcessMessageSwiftTX` for a vote. It is remembered before it is checked. -/
def processVote : SwiftState :=
  if !E.enabled then s
  else if s.mapTxLockVote.contains v.getHash then s
  else
    let s := { s with mapTxLockVote := s.mapTxLockVote.insert v.getHash v }
    match s.processConsensusVote E v with
    | (true, s) => s.trackUnknownVote E v
    | (false, s) => s

/-! ### Cleaning -/

/-- One round of the loop of `CleanTransactionLocksList`. -/
def cleanLock (now : Int) (s : SwiftState) (e : Nat × TransactionLock) : SwiftState :=
  if e.2.nExpiration < now then
    let s :=
      match s.mapTxLockReq.find? e.2.txHash with
      | none => s
      | some tx =>
        { s with
          mapLockedInputs := tx.vin.foldl (fun m (i : TxIn) => m.erase i.prevout) s.mapLockedInputs
          mapTxLockReq := s.mapTxLockReq.erase e.2.txHash
          mapTxLockReqRejected := s.mapTxLockReqRejected.erase e.2.txHash
          mapTxLockVote :=
            e.2.vecConsensusVotes.foldl (fun m (v : ConsensusVote) => m.erase v.getHash) s.mapTxLockVote }
    { s with mapTxLocks := s.mapTxLocks.erase e.1 }
  else s

/-- `CleanTransactionLocksList`, with a tip. -/
def cleanTransactionLocksList (now : Int) (s : SwiftState) : SwiftState :=
  s.mapTxLocks.entries.foldl (cleanLock now) s

/-! ### Blocks -/

/-- The scan of `CheckBlock`; `filtering` is `SPORK_3_SWIFTTX_BLOCK_FILTERING`. -/
def scanBlock (filtering : Bool) (vtx : List Transaction) (s : SwiftState) : Bool :=
  !filtering || vtx.all fun tx => tx.isCoinBase || tx.vin.all fun i => (s.conflictAt tx i).isNone

end SwiftState

/-! ### Runs -/

/-- A message or a call. -/
inductive SwiftEvent
  | request (E : RequestEnv) (tx : Transaction)
  | vote (E : VoteEnv) (v : ConsensusVote)
  | clean (now : Int)

/-- Process one message. -/
def swiftStep : SwiftEvent → SwiftState
  | .request E tx => s.processRequest E tx
  | .vote E v => s.processVote E v
  | .clean now => s.cleanTransactionLocksList now

/-- The state after a sequence of messages. -/
def swiftRun (es : List SwiftEvent) : SwiftState := es.foldl swiftStep .empty

end Rapids.Masternode
