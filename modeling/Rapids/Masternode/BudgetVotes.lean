import Rapids.Chain.Transaction
import Rapids.Lib.OrdMap

/-!
# Rapids.Masternode.BudgetVotes

**Votes for proposals and for finalized budgets** (`masternode-budget.cpp`): the four
messages that bring items and votes, and the maps they go into. Proposals and finalized
budgets have maps of their own, handled in the same way, so there is one set of maps with
the kind of vote as a parameter.

A vote whose item is not known is parked under the hash of the item, and the parked votes
are tried again after each new item. The loop that does so erases an entry and then steps
on from it. Reading an erased entry is undefined; `usedErased` records that it was done,
and the maps go on as they do where the memory is still intact.
-/

namespace Rapids.Masternode

open Rapids.Lib Rapids.Chain

/-! ### Votes -/

/-- `CBudgetVote` -/
structure BudgetVote where
  vin : TxIn
  /-- of `vin` -/
  nSequence : Nat
  nProposalHash : Nat
  nVote : Int
  nTime : Int
  vchSig : List UInt8
  deriving DecidableEq

/-- `CFinalizedBudgetVote` -/
structure FinalizedBudgetVote where
  vin : TxIn
  /-- of `vin` -/
  nSequence : Nat
  nBudgetHash : Nat
  nTime : Int
  vchSig : List UInt8
  deriving DecidableEq

/-- What a node reads of a kind of vote, and what it knows about the voters. -/
structure VoteKind (V : Type) where
  getHash : V → Nat
  /-- `GetProposalHash` or `GetBudgetHash` -/
  itemHash : V → Nat
  vin : V → TxIn
  getTime : V → Int
  checkSignature : V → Bool
  /-- `prevout.GetHash` -/
  outPointHash : OutPoint → Nat
  /-- `mnodeman.Find` -/
  listed : OutPoint → Bool
  /-- `masternodeSync.IsSynced` -/
  synced : Bool

namespace VoteKind

variable {V : Type} (K : VoteKind V)

/-- The key of a vote in `mapVotes`. -/
def key (v : V) : Nat := K.outPointHash (K.vin v).prevout

/-- The masternode of a vote is listed. -/
def isListed (v : V) : Bool := K.listed (K.vin v).prevout

end VoteKind

/-! ### The maps of one kind -/

/-- The maps for one kind of items and votes. -/
structure VoteMaps (V : Type) where
  /-- `mapProposals` or `mapFinalizedBudgets`: the `mapVotes` of each item. -/
  items : OrdMap Nat (OrdMap Nat V)
  /-- `mapSeenMasternodeBudgetProposals` or `mapSeenFinalizedBudgets` -/
  seenItems : OrdMap Nat Unit
  /-- `mapSeenMasternodeBudgetVotes` or `mapSeenFinalizedBudgetVotes` -/
  seenVotes : OrdMap Nat V
  /-- `mapOrphanMasternodeBudgetVotes` or `mapOrphanFinalizedBudgetVotes` -/
  orphanVotes : OrdMap Nat V
  /-- An erased entry was used. -/
  usedErased : Bool

/-- What the checks say of an item. -/
structure ItemChecks where
  /-- `IsBudgetCollateralValid` -/
  collateralValid : Bool
  /-- `UpdateValid` of the message -/
  updateValid : Bool
  /-- `UpdateValid` in `AddProposal` or `AddFinalizedBudget` -/
  addValid : Bool
  deriving DecidableEq

/-- `BUDGET_VOTE_UPDATE_MIN` -/
def budgetVoteUpdateMin : Int := 3 * 60

namespace VoteMaps

variable {V : Type} (K : VoteKind V)

def empty : VoteMaps V := ⟨∅, ∅, ∅, ∅, false⟩

variable (now : Int) (v : V) (m : VoteMaps V)

/-- There is a vote of the masternode that is newer, or not old enough. -/
def isTooSoon (mapVotes : OrdMap Nat V) : Bool :=
  (mapVotes.find? (K.key v)).any fun old =>
    K.getTime v < K.getTime old || K.getTime v - K.getTime old < budgetVoteUpdateMin

/-- `AddOrUpdateVote` -/
def addOrUpdateVote (mapVotes : OrdMap Nat V) : Bool × OrdMap Nat V :=
  if isTooSoon K v mapVotes then (false, mapVotes)
  else if now + 60 * 60 < K.getTime v then (false, mapVotes)
  else (true, mapVotes.insert (K.key v) v)

/-- `UpdateProposal` and `UpdateFinalizedBudget`, for a vote from a peer or a parked one. -/
def updateItem (fromPeer : Bool) (v : V) (m : VoteMaps V) : Bool × VoteMaps V :=
  match m.items.find? (K.itemHash v) with
  | none =>
    (false,
      if fromPeer && K.synced then { m with orphanVotes := m.orphanVotes.insert (K.itemHash v) v }
      else m)
  | some mapVotes =>
    ((addOrUpdateVote K now v mapVotes).1,
      { m with items := m.items.insert (K.itemHash v) (addOrUpdateVote K now v mapVotes).2 })

/-- One round of a loop of `CheckOrphanVotes`: where the vote is taken, its entry is
erased and the iterator is moved on from it. -/
def checkOrphan (e : Nat × V) : VoteMaps V :=
  if (m.updateItem K now false e.2).1 then
    { (m.updateItem K now false e.2).2 with
      orphanVotes := (m.updateItem K now false e.2).2.orphanVotes.erase e.1
      usedErased := true }
  else (m.updateItem K now false e.2).2

/-- A loop of `CheckOrphanVotes`. -/
def checkOrphanVotes : VoteMaps V :=
  m.orphanVotes.entries.foldl (checkOrphan K now) m

/-- `ProcessMessage` for a vote. It is seen before its signature is checked. -/
def processVote : VoteMaps V :=
  if m.seenVotes.contains (K.getHash v) then m
  else if !K.isListed v then m
  else if !K.checkSignature v then { m with seenVotes := m.seenVotes.insertNew (K.getHash v) v }
  else ({ m with seenVotes := m.seenVotes.insertNew (K.getHash v) v }.updateItem K now true v).2

/-- `ProcessMessage` for an item, up to the orphan votes, which are checked if the first
component says so. -/
def processItem (hash : Nat) (c : ItemChecks) (m : VoteMaps V) : Bool × VoteMaps V :=
  if m.seenItems.contains hash then (false, m)
  else if !c.collateralValid then (false, m)
  else if !c.updateValid then (false, { m with seenItems := m.seenItems.insertNew hash () })
  else if c.addValid && !m.items.contains hash then
    (true, { m with seenItems := m.seenItems.insertNew hash (), items := m.items.insert hash ∅ })
  else (true, { m with seenItems := m.seenItems.insertNew hash () })

end VoteMaps

/-! ### The budget manager -/

/-- `CBudgetManager` -/
structure BudgetManager where
  proposals : VoteMaps BudgetVote
  finalizedBudgets : VoteMaps FinalizedBudgetVote

/-- What the rest of the node does for the budget manager. -/
structure BudgetEnv where
  fLiteMode : Bool
  /-- `masternodeSync.IsBlockchainSynced` -/
  blockchainSynced : Bool
  /-- `masternodeSync.IsSynced` -/
  synced : Bool
  /-- `mnodeman.Find` -/
  listed : OutPoint → Bool
  checkVote : BudgetVote → Bool
  checkFinalVote : FinalizedBudgetVote → Bool
  /-- What `CBudgetVote::GetHash` serializes and hashes. -/
  hashVote : TxIn → Nat → Nat → Int → Int → Nat
  /-- What `CFinalizedBudgetVote::GetHash` serializes and hashes. -/
  hashFinalVote : TxIn → Nat → Nat → Int → Nat
  /-- `COutPoint::GetHash` -/
  hashOutPoint : OutPoint → Nat

namespace BudgetEnv

variable (E : BudgetEnv)

/-- Votes for proposals. -/
def votes : VoteKind BudgetVote where
  getHash v := E.hashVote v.vin v.nSequence v.nProposalHash v.nVote v.nTime
  itemHash := BudgetVote.nProposalHash
  vin := BudgetVote.vin
  getTime := BudgetVote.nTime
  checkSignature := E.checkVote
  outPointHash := E.hashOutPoint
  listed := E.listed
  synced := E.synced

/-- Votes for finalized budgets. -/
def finalVotes : VoteKind FinalizedBudgetVote where
  getHash v := E.hashFinalVote v.vin v.nSequence v.nBudgetHash v.nTime
  itemHash := FinalizedBudgetVote.nBudgetHash
  vin := FinalizedBudgetVote.vin
  getTime := FinalizedBudgetVote.nTime
  checkSignature := E.checkFinalVote
  outPointHash := E.hashOutPoint
  listed := E.listed
  synced := E.synced

end BudgetEnv

/-- The messages that bring items and votes. -/
inductive BudgetMessage
  | proposal (hash : Nat) (c : ItemChecks)
  | vote (v : BudgetVote)
  | finalBudget (hash : Nat) (c : ItemChecks)
  | finalVote (v : FinalizedBudgetVote)

namespace BudgetManager

variable (E : BudgetEnv)

def empty : BudgetManager := ⟨.empty, .empty⟩

variable (now : Int) (b : BudgetManager)

/-- `CBudgetManager::CheckOrphanVotes` -/
def checkOrphanVotes : BudgetManager where
  proposals := b.proposals.checkOrphanVotes E.votes now
  finalizedBudgets := b.finalizedBudgets.checkOrphanVotes E.finalVotes now

/-- The commands of `ProcessMessage`. -/
def handle : BudgetMessage → BudgetManager
  | .proposal hash c =>
    if (b.proposals.processItem hash c).1 then
      { b with proposals := (b.proposals.processItem hash c).2 }.checkOrphanVotes E now
    else { b with proposals := (b.proposals.processItem hash c).2 }
  | .vote v => { b with proposals := b.proposals.processVote E.votes now v }
  | .finalBudget hash c =>
    if (b.finalizedBudgets.processItem hash c).1 then
      { b with finalizedBudgets := (b.finalizedBudgets.processItem hash c).2 }.checkOrphanVotes E now
    else { b with finalizedBudgets := (b.finalizedBudgets.processItem hash c).2 }
  | .finalVote v => { b with finalizedBudgets := b.finalizedBudgets.processVote E.finalVotes now v }

/-- `CBudgetManager::ProcessMessage`, at a time. -/
def processMessage (msg : BudgetMessage) : BudgetManager :=
  if E.fLiteMode || !E.blockchainSynced then b else b.handle E now msg

/-- The messages of a sequence, each at its time. -/
def deliver (es : List (Int × BudgetMessage)) : BudgetManager :=
  es.foldl (fun b e => b.processMessage E e.1 e.2) .empty

end BudgetManager

end Rapids.Masternode
