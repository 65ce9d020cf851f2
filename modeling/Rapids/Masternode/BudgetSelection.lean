import Rapids.Masternode.Budget
import Rapids.Masternode.BudgetVotesSound

/-!
# Rapids.Masternode.BudgetSelection

**Which proposals a node would pay next** (`CBudgetManager::GetBudget`), and how they get there.

The proposals are sorted by their net votes, and by the hashes of their fee transactions where these
are equal. Along this order every passing proposal is taken that fits into what is left of the total
budget of the next cycle; one that does not fit is skipped.

Proposals and votes come as messages. How these are taken is said in `BudgetVotes`, with the
verdicts on an item as a parameter; here the verdicts are those of `UpdateValid`, and what a
proposal says is kept beside its votes. From time to time a block makes the node check its
proposals again.
-/

namespace Rapids.Masternode

open Rapids.Lib Rapids.Chain

/-! ### Sorting -/

/-- A strict weak order, which `std::sort` asks for. -/
structure StrictWeak {α : Type} (less : α → α → Bool) : Prop where
  asymm : ∀ a b, less a b = true → less b a = false
  split : ∀ a b c, less a c = true → less a b = true ∨ less b c = true

/-- `std::sort`. The order of elements that compare equal is left open. -/
structure StdSort (α : Type) where
  sort : (α → α → Bool) → List α → List α
  perm : ∀ less l, StrictWeak less → (sort less l).Perm l
  sorted : ∀ less l, StrictWeak less → (sort less l).Pairwise fun a b => less b a = false

/-! ### The choice -/

section Choice

variable (E : ProposalView) (now nBlockStart nBlockEnd nTotalBudget : Int)

/-- The loop of `GetBudget`: the proposals that it returns, and all proposals as it leaves them. -/
def budgetLoop : Int → List BudgetProposal → List BudgetProposal × List BudgetProposal
  | _, [] => ([], [])
  | nBudgetAllocated, p :: rest =>
    if p.isPassing E now nBlockStart nBlockEnd then
      if toI64 (p.nAmount + nBudgetAllocated) ≤ nTotalBudget then
        let r := budgetLoop (toI64 (nBudgetAllocated + p.nAmount)) rest
        ({ p with nAlloted := some p.nAmount } :: r.1, { p with nAlloted := some p.nAmount } :: r.2)
      else
        let r := budgetLoop nBudgetAllocated rest
        (r.1, { p with nAlloted := some 0 } :: r.2)
    else
      let r := budgetLoop nBudgetAllocated rest
      (r.1, p :: r.2)

end Choice

/-- The first block of the cycle after a height. -/
def nextCycleStart (P : BudgetParams) (nHeight : Int) : Int :=
  nHeight - nHeight.tmod P.nBudgetCycleBlocks + P.nBudgetCycleBlocks

/-- `GetBudget`, with the proposals in the order of `mapProposals`; `none` where an assertion fails.
The view says which votes are valid, as `CleanAndRemove` has just found out. -/
def getBudget (S : StdSort BudgetProposal) (E : ProposalView) (now nHeight : Int)
    (mapProposals : List BudgetProposal) : Option (List BudgetProposal) :=
  if nHeight ≤ 0 then some []
  else
    let vBudgetProposalsSort := S.sort (BudgetProposal.ptrHigherYes E.valid) mapProposals
    let nBlockStart := nextCycleStart E.P nHeight
    let nBlockEnd := nBlockStart + E.P.nBudgetCycleBlocks - 1
    (getTotalBudget E.P nBlockStart).map fun nTotalBudget =>
      (budgetLoop E now nBlockStart nBlockEnd nTotalBudget 0 vBudgetProposalsSort).1

/-! ### Proposals and votes -/

/-- A node, for the messages that bring proposals and votes. -/
structure BudgetNode where
  env : BudgetEnv
  P : BudgetParams
  /-- `IsValid` of the votes -/
  valid : BudgetVote → Bool
  /-- `mnodeman.CountEnabled` -/
  mnCount : Int
  /-- `GetBestHeight` -/
  nBestHeight : Int
  /-- What `CBudgetProposal::GetHash` serializes and hashes. -/
  hashProposal : String → String → Int → Int → Int → Script → Nat
  /-- `IsBudgetCollateralValid` of a fee transaction, for a hash -/
  collateral : Nat → Nat → Except String Int

namespace BudgetNode

variable (W : BudgetNode)

variable (p : BudgetProposal)

/-- `CBudgetProposal::GetHash` -/
def getHash : Nat :=
  W.hashProposal p.strProposalName p.strURL p.nBlockStart p.nBlockEnd p.nAmount p.address

/-- What `UpdateValid` reads. -/
def view : ProposalView where
  P := W.P
  valid := W.valid
  mnCount := W.mnCount
  collateral := fun p => W.collateral p.nFeeTXHash (W.getHash p)

/-- `UpdateValid` accepts. -/
def accepts : Bool := (p.updateValid W.view W.nBestHeight true).any Prod.fst

/-- A proposal as a copy has it, with the time of its collateral. -/
def copied : BudgetProposal := { p with
  nTime := (W.collateral p.nFeeTXHash (W.getHash p)).toOption.getD p.nTime
  nAlloted := none
  fValid := true
  strInvalid := "" }

/-- A proposal as it is received: the message has no votes. -/
def received : BudgetProposal := W.copied { p with mapVotes := ∅ }

/-- The checks of the message, and those of `AddProposal`. -/
def checks : ItemChecks where
  collateralValid := (W.collateral p.nFeeTXHash (W.getHash p)).toOption.isSome
  updateValid := W.accepts (W.received p)
  addValid := W.accepts (W.received p)

end BudgetNode

/-- The proposals of the budget manager: what they say, and the maps that have their votes. -/
structure ProposalStore where
  data : OrdMap Nat BudgetProposal
  votes : VoteMaps BudgetVote

/-- The messages that bring proposals and votes. -/
inductive ProposalMessage
  | proposal (p : BudgetProposal)
  | vote (v : BudgetVote)

namespace ProposalStore

variable (W : BudgetNode)

def empty : ProposalStore := ⟨∅, .empty⟩

variable (s : ProposalStore)

/-- `mapProposals`, in its order. -/
def mapProposals : List BudgetProposal :=
  s.votes.items.entries.filterMap fun e => (s.data.find? e.1).map fun p => { p with mapVotes := e.2 }

/-- A proposal is added: `AddProposal` is reached and finds none with its hash. -/
def adds (p : BudgetProposal) : Bool :=
  !s.votes.seenItems.contains (W.getHash p) && (W.checks p).collateralValid && (W.checks p).updateValid &&
    (W.checks p).addValid && !s.votes.items.contains (W.getHash p)

/-- `ProcessMessage`, for a node that takes part. -/
def receive (now : Int) (s : ProposalStore) : ProposalMessage → ProposalStore
  | .proposal p =>
    { votes := s.votes.sideStep W.env.votes now (.item (W.getHash p) (W.checks p))
      data := if s.adds W p then s.data.insert (W.getHash p) (W.received p) else s.data }
  | .vote v => { s with votes := s.votes.sideStep W.env.votes now (.vote v) }

/-- A proposal stays in `CheckAndRemove`. -/
def stays (hash : Nat) (mapVotes : OrdMap Nat BudgetVote) : Bool :=
  (s.data.find? hash).any fun p => W.accepts { p with mapVotes := mapVotes }

/-- `CheckAndRemove`, for proposals: those that stay are copied. -/
def checkAndRemove : ProposalStore where
  data := (s.data.filter fun e => (s.votes.items.find? e.1).any (s.stays W e.1)).mapVal W.copied
  votes := { s.votes with items := s.votes.items.filter fun e => s.stays W e.1 e.2 }

end ProposalStore

/-- What happens to the proposals. -/
inductive BudgetStep
  /-- A proposal or a vote comes. -/
  | message (now : Int) (msg : ProposalMessage)
  /-- A finalized budget comes, and the parked votes are tried. -/
  | orphans (now : Int)
  /-- `NewBlock` comes to the checks. -/
  | newBlock

namespace ProposalStore

def step (s : ProposalStore) (x : BudgetNode × BudgetStep) : ProposalStore :=
  match x.2 with
  | .message now msg => s.receive x.1 now msg
  | .orphans now => { s with votes := s.votes.checkOrphanVotes x.1.env.votes now }
  | .newBlock => s.checkAndRemove x.1

/-- What becomes of the proposals, where the node changes too. -/
def run (steps : List (BudgetNode × BudgetStep)) : ProposalStore := steps.foldl step .empty

/-- Messages, each at its time, to a node that does not change. -/
def receiveAll (W : BudgetNode) (l : List (Int × ProposalMessage)) : ProposalStore :=
  run (l.map fun e => (W, .message e.1 e.2))

end ProposalStore

end Rapids.Masternode
