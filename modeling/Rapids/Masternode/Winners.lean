import Rapids.Chain.Payments
import Rapids.Lib.Run

/-!
# Rapids.Masternode.Winners

**Votes for the masternode to pay** (`masternode-payments.h`, `masternode-payments.cpp`):
the winner messages, the votes that are stored, the tally of each height and the cleaning
of old votes.

A winner is stored under a hash of its payee, its height and its masternode. Who is
known and signs well, and the height of the chain, are given with each message.
-/

namespace Rapids.Masternode

open Rapids.Lib Rapids.Chain

/-- `CMasternodePaymentWinner`. Of the masternode's input only the outpoint is read. -/
structure PaymentWinner where
  vinMasternode : OutPoint
  nBlockHeight : Int
  payee : Script
  vchSig : List UInt8
  nMessVersion : Int
  deriving DecidableEq

/-- `MESS_VER_HASH` -/
def messVerHash : Int := 1

/-- What `GetHash` serializes and hashes. -/
abbrev WinnerHash := Script → Int → OutPoint → Nat

/-- `CMasternodePaymentWinner::GetHash` -/
def PaymentWinner.getHash (H : WinnerHash) (w : PaymentWinner) : Nat :=
  H w.payee w.nBlockHeight w.vinMasternode

/-- `CMasternodeBlockPayees` -/
structure BlockPayees where
  nBlockHeight : Int
  vecPayments : List MasternodePayee

/-- `AddPayee` -/
def addPayee (payeeIn : Script) (nIncrement : Int) : List MasternodePayee → List MasternodePayee
  | [] => [⟨payeeIn, nIncrement⟩]
  | p :: rest =>
    if p.scriptPubKey = payeeIn then ⟨p.scriptPubKey, p.nVotes + nIncrement⟩ :: rest
    else p :: addPayee payeeIn nIncrement rest

/-- The maps of `CMasternodePayments`. -/
structure WinnerState where
  mapMasternodePayeeVotes : OrdMap Nat PaymentWinner
  mapMasternodeBlocks : OrdMap Int BlockPayees
  mapMasternodesLastVote : OrdMap OutPoint Int

def WinnerState.empty : WinnerState := ⟨∅, ∅, ∅⟩

/-- What the rest of the node says about a winner message. -/
structure WinnerEnv where
  /-- the peer's version is the active protocol's -/
  peerVersion : Bool
  /-- `mnodeman.GetBestHeight` -/
  nHeight : Int
  /-- `mnodeman.CountEnabled` -/
  countEnabled : Nat
  /-- `IsValid`: the masternode is known and not below the top ranks -/
  isValid : PaymentWinner → Bool
  checkSignature : PaymentWinner → Bool

/-- The lowest height of a vote, `nHeight - (CountEnabled() * 1.25)` as an `int`. -/
def WinnerEnv.nFirstBlock (E : WinnerEnv) : Int := (4 * E.nHeight - 5 * E.countEnabled).tdiv 4

namespace WinnerState

variable (H : WinnerHash)

/-- `CanVote` -/
def canVote (outMasternode : OutPoint) (nBlockHeight : Int) (s : WinnerState) : Bool × WinnerState :=
  if s.mapMasternodesLastVote.find? outMasternode = some nBlockHeight then (false, s)
  else
    (true, { s with
      mapMasternodesLastVote := s.mapMasternodesLastVote.insert outMasternode nBlockHeight })

/-- `AddWinningMasternode` -/
def addWinningMasternode (nHeight : Int) (w : PaymentWinner) (s : WinnerState) : Bool × WinnerState :=
  if nHeight + 1 < w.nBlockHeight - 100 then (false, s)
  else if s.mapMasternodePayeeVotes.contains (w.getHash H) then (false, s)
  else
    let payees := (s.mapMasternodeBlocks.find? w.nBlockHeight).getD ⟨w.nBlockHeight, []⟩
    (true, { s with
      mapMasternodePayeeVotes := s.mapMasternodePayeeVotes.insert (w.getHash H) w
      mapMasternodeBlocks := s.mapMasternodeBlocks.insert w.nBlockHeight
        { payees with vecPayments := addPayee w.payee 1 payees.vecPayments } })

/-- The end of `ProcessMessageMasternodePayments`. `CanVote` comes before the signature. -/
def castVote (E : WinnerEnv) (w : PaymentWinner) (s : WinnerState) : WinnerState :=
  match s.canVote w.vinMasternode w.nBlockHeight with
  | (false, s) => s
  | (true, s) => if !E.checkSignature w then s else (s.addWinningMasternode H E.nHeight w).2

/-- `ProcessMessageMasternodePayments` for a winner. -/
def processWinner (E : WinnerEnv) (w : PaymentWinner) (s : WinnerState) : WinnerState :=
  if !E.peerVersion then s
  else if s.mapMasternodePayeeVotes.contains (w.getHash H) then s
  else if w.nBlockHeight < E.nFirstBlock || E.nHeight + 20 < w.nBlockHeight then s
  else if w.nMessVersion ≠ messVerHash then s
  else if !E.isValid w then s
  else s.castVote H E w

/-- How long votes are kept. -/
def nLimit (size : Nat) : Int := max (5 * size / 4 : Nat) 1000

/-- The vote is too old to be kept. -/
def isOld (nHeight : Int) (size : Nat) (w : PaymentWinner) : Bool := nLimit size < nHeight - w.nBlockHeight

/-- One round of the loop of `CleanPaymentList`: with a vote its height goes. -/
def cleanVote (nHeight : Int) (size : Nat) (s : WinnerState) (e : Nat × PaymentWinner) : WinnerState :=
  if isOld nHeight size e.2 then
    { s with
      mapMasternodePayeeVotes := s.mapMasternodePayeeVotes.erase e.1
      mapMasternodeBlocks := s.mapMasternodeBlocks.erase e.2.nBlockHeight }
  else s

/-- `CleanPaymentList`; `size` is the number of masternodes. -/
def cleanPaymentList (nHeight : Int) (size : Nat) (s : WinnerState) : WinnerState :=
  s.mapMasternodePayeeVotes.entries.foldl (cleanVote nHeight size) s

end WinnerState

/-- A message or a call. -/
inductive WinnerEvent
  | winner (E : WinnerEnv) (w : PaymentWinner)
  | add (nHeight : Int) (w : PaymentWinner)
  | clean (nHeight : Int) (size : Nat)

/-- Process one. -/
def winnerStep (H : WinnerHash) (s : WinnerState) : WinnerEvent → WinnerState
  | .winner E w => s.processWinner H E w
  | .add nHeight w => (s.addWinningMasternode H nHeight w).2
  | .clean nHeight size => s.cleanPaymentList nHeight size

/-- The state after a sequence of them. -/
def winnerRun (H : WinnerHash) (es : List WinnerEvent) : WinnerState := es.foldl (winnerStep H) .empty

end Rapids.Masternode
