import Rapids.Chain.Staking
import Rapids.Lib.Text
import Rapids.Masternode.BudgetVotes

/-!
# Rapids.Masternode.Budget

**Proposals, finalized budgets and the choice between proposals** (`masternode-budget.cpp`).

A proposal asks for an amount in each of several superblocks, one every budget cycle. A node
that has votes for proposals chooses those that are paid in the next cycle: the ones with the most
votes first, as far as `GetTotalBudget` goes. A finalized budget is a list of payments that
somebody has put together, and it is checked on its own.

Amounts are added in 64 bits and heights in 32 bits, as in the source. `getTotalBudget` gives
`none` where an assertion on the height stops the node.
-/

namespace Rapids.Masternode

open Rapids.Lib Rapids.Chain

/-! ### Networks -/

/-- The chain parameters that are read here. -/
structure BudgetParams where
  /-- `NetworkID() == CBaseChainParams::TESTNET` -/
  testnet : Bool
  nBudgetCycleBlocks : Int
  nProposalEstablishmentTime : Int
  nMaxProposalPayments : Nat
  /-- Activation heights. -/
  upgradePos : Option Nat
  upgradeZCV2 : Option Nat

def budgetParams : Network → BudgetParams
  | .main => ⟨false, 43200, 60 * 60 * 24, 6, some 201, some 2147483647⟩
  | .test => ⟨true, 300, 60, 6, some 150, some 2147483647⟩
  | .regtest => ⟨false, 43200, 60 * 5, 6, some 251, some 300⟩

/-- The subsidy that the budget is a tenth of. -/
def budgetSubsidy (isPoSActive isZCV2Active : Bool) (nHeight : Int) : Int :=
  if 151200 ≤ nHeight ∧ isPoSActive = false then 50 * coin
  else if isPoSActive = true ∧ nHeight ≤ 302399 then 50 * coin
  else if nHeight ≤ 345599 ∧ 302400 ≤ nHeight then 45 * coin
  else if nHeight ≤ 388799 ∧ 345600 ≤ nHeight then 40 * coin
  else if nHeight ≤ 431999 ∧ 388800 ≤ nHeight then 35 * coin
  else if nHeight ≤ 475199 ∧ 432000 ≤ nHeight then 30 * coin
  else if nHeight ≤ 518399 ∧ 475200 ≤ nHeight then 25 * coin
  else if nHeight ≤ 561599 ∧ 518400 ≤ nHeight then 20 * coin
  else if nHeight ≤ 604799 ∧ 561600 ≤ nHeight then 15 * coin
  else if nHeight ≤ 647999 ∧ 604800 ≤ nHeight then 10 * coin
  else if isZCV2Active then 10 * coin
  else 5 * coin

/-- `CBudgetManager::GetTotalBudget`; `none` where the assertion of `NetworkUpgradeActive` fails. -/
def getTotalBudget (P : BudgetParams) (nHeight : Int) : Option Int :=
  if P.testnet then some ((500 * coin).tdiv 100 * 10 * 146)
  else if nHeight < 0 then none
  else
    let isPoSActive := networkUpgradeActive P.upgradePos nHeight.toNat
    let nSubsidy := budgetSubsidy isPoSActive (networkUpgradeActive P.upgradeZCV2 nHeight.toNat) nHeight
    if nHeight ≤ 172800 then some (648000 * coin) else some (nSubsidy.tdiv 100 * 10 * 1440 * 30)

/-! ### Proposals -/

/-- `CBudgetProposal` -/
structure BudgetProposal where
  strProposalName : String
  strURL : String
  nBlockStart : Int
  nBlockEnd : Int
  address : Script
  nAmount : Int
  nTime : Int := 0
  nFeeTXHash : Nat
  mapVotes : OrdMap Nat BudgetVote := ∅
  /-- Not set before `SetAllotted`. -/
  nAlloted : Option Int := none
  fValid : Bool := true
  strInvalid : String := ""

/-- `VOTE_YES` and `VOTE_NO` -/
def voteYes : Int := 1
def voteNo : Int := 2

/-- What `UpdateValid` reads besides the proposal. -/
structure ProposalView where
  P : BudgetParams
  /-- `IsValid` of the votes, as `CleanAndRemove` sets it. -/
  valid : BudgetVote → Bool
  /-- `mnodeman.CountEnabled` -/
  mnCount : Int
  /-- `IsBudgetCollateralValid`: why not, or the time of the block. -/
  collateral : BudgetProposal → Except String Int

namespace BudgetProposal

def getVoteCount (valid : BudgetVote → Bool) (vd : Int) (p : BudgetProposal) : Int :=
  (p.mapVotes.entries.filter fun e => decide (e.2.nVote = vd) && valid e.2).length

def getYeas (valid : BudgetVote → Bool) (p : BudgetProposal) : Int := p.getVoteCount valid voteYes

def getNays (valid : BudgetVote → Bool) (p : BudgetProposal) : Int := p.getVoteCount valid voteNo

section
variable (P : BudgetParams)

/-- `GetBlockCycle` -/
def getBlockCycle (nHeight : Int) : Int := nHeight - nHeight.tmod P.nBudgetCycleBlocks

/-- `GetTotalPaymentCount`; `GetBlockEndCycle` is the end block. -/
def getTotalPaymentCount (p : BudgetProposal) : Int :=
  (toI32 (p.nBlockEnd - getBlockCycle P p.nBlockStart)).tdiv P.nBudgetCycleBlocks

/-- The last block for which the end rule of `UpdateValid` keeps a proposal. -/
def proposalEnd (p : BudgetProposal) : Int :=
  toI32 (p.nBlockStart + toI32 (P.nBudgetCycleBlocks * p.getTotalPaymentCount P))

/-- `CBudgetProposalBroadcast` -/
def broadcast (strProposalNameIn strURLIn : String) (nPaymentCount : Int) (addressIn : Script)
    (nAmountIn nBlockStartIn : Int) (nFeeTXHashIn : Nat) : BudgetProposal where
  strProposalName := strProposalNameIn
  strURL := strURLIn
  nBlockStart := nBlockStartIn
  nBlockEnd :=
    let nBlocksPerCycle := P.nBudgetCycleBlocks
    let nCycleStart := nBlockStartIn - nBlockStartIn.tmod nBlocksPerCycle
    toI32 (nCycleStart + toI32 ((nBlocksPerCycle + 1) * nPaymentCount))
  address := addressIn
  nAmount := nAmountIn
  nFeeTXHash := nFeeTXHashIn

end

/-- A check of `UpdateValid` fails. -/
def refuse (p : BudgetProposal) (strInvalid : String) : Bool × BudgetProposal :=
  (false, { p with fValid := false, strInvalid := strInvalid })

/-- The rules of `UpdateValid` after the collateral's. -/
def updateValidRest (E : ProposalView) (nCurrentHeight : Int) (p : BudgetProposal) :
    Option (Bool × BudgetProposal) :=
  if isPayToScriptHash p.address then
    some (p.refuse ("Proposal " ++ p.strProposalName ++ ": Multisig is not currently supported."))
  else
    (getTotalBudget E.P p.nBlockStart).map fun nTotalBudget =>
      if nTotalBudget < p.nAmount then p.refuse ("Proposal " ++ p.strProposalName ++ ": Payment more than max")
      else if nCurrentHeight ≤ 0 then
        (true, { p with fValid := false, strInvalid := "Proposal " ++ p.strProposalName ++ ": Tip is NULL" })
      else if p.proposalEnd E.P < nCurrentHeight then
        p.refuse ("Proposal " ++ p.strProposalName ++ ": Invalid nBlockEnd (" ++
          String.ofList (intText (p.proposalEnd E.P)) ++ ") < current height (" ++
          String.ofList (intText nCurrentHeight) ++ ")")
      else (true, { p with fValid := true, strInvalid := "" })

/-- `UpdateValid`: its answer, and the proposal; `none` where an assertion fails. -/
def updateValid (E : ProposalView) (nCurrentHeight : Int) (fCheckCollateral : Bool) (p : BudgetProposal) :
    Option (Bool × BudgetProposal) :=
  if E.mnCount.tdiv 10 < p.getNays E.valid - p.getYeas E.valid then
    some (p.refuse ("Proposal " ++ p.strProposalName ++ ": Active removal"))
  else if p.nBlockStart < 0 then some (p.refuse "Invalid Proposal")
  else if p.nBlockEnd < p.nBlockStart then
    some (p.refuse ("Proposal " ++ p.strProposalName ++ ": Invalid nBlockEnd (end before start)"))
  else if p.nAmount < 10 * coin then
    some (p.refuse ("Proposal " ++ p.strProposalName ++ ": Invalid nAmount"))
  else if p.address = [] then
    some (p.refuse ("Proposal " ++ p.strProposalName ++ ": Invalid Payment Address"))
  else if fCheckCollateral then
    match E.collateral p with
    | .error strError =>
      some (p.refuse ("Proposal " ++ p.strProposalName ++ ": Invalid collateral (" ++ strError ++ ")"))
    | .ok nTime => updateValidRest E nCurrentHeight { p with nTime := nTime }
  else updateValidRest E nCurrentHeight p

/-- `IsEstablished`, at an adjusted time. -/
def isEstablished (P : BudgetParams) (now : Int) (p : BudgetProposal) : Bool :=
  decide (p.nTime < now - P.nProposalEstablishmentTime)

/-- `IsPassing` -/
def isPassing (E : ProposalView) (now nBlockStartBudget nBlockEndBudget : Int) (p : BudgetProposal) : Bool :=
  if !p.fValid then false
  else if nBlockStartBudget < p.nBlockStart then false
  else if p.nBlockEnd < nBlockEndBudget then false
  else if p.getYeas E.valid - p.getNays E.valid ≤ E.mnCount.tdiv 10 then false
  else p.isEstablished E.P now

/-- `PtrHigherYes` -/
def ptrHigherYes (valid : BudgetVote → Bool) (a b : BudgetProposal) : Bool :=
  let netYes_a := a.getYeas valid - a.getNays valid
  let netYes_b := b.getYeas valid - b.getNays valid
  if netYes_a = netYes_b then decide (b.nFeeTXHash < a.nFeeTXHash) else decide (netYes_b < netYes_a)

end BudgetProposal

/-! ### Finalized budgets -/

/-- `CFinalizedBudget`, with what `UpdateValid` reads. -/
structure CheckedBudget extends FinalizedBudget where
  strBudgetName : String
  nFeeTXHash : Nat

namespace CheckedBudget

/-- `GetTotalPayout` -/
def getTotalPayout (f : CheckedBudget) : Int :=
  f.vecBudgetPayments.foldl (fun ret p => toI64 (ret + p.nAmount)) 0

/-- `GetProposals`: the names, or hashes, of the proposals that are paid. -/
def getProposals (findProposal : Nat → Option BudgetProposal) (f : CheckedBudget) : String :=
  f.vecBudgetPayments.foldl (fun ret p =>
    let token := match findProposal p.nProposalHash with
      | some q => q.strProposalName
      | none => String.ofList (hexText 64 p.nProposalHash)
    if ret = "" then token else ret ++ "," ++ token) ""

/-- `UpdateValid`: why the budget is invalid, or that it is valid; `none` where an assertion fails.
`collateral` is what `IsBudgetCollateralValid` says against the collateral. -/
def updateValid (P : BudgetParams) (findProposal : Nat → Option BudgetProposal) (collateral : Option String)
    (nCurrentHeight : Int) (fCheckCollateral : Bool) (f : CheckedBudget) : Option (Except String Unit) :=
  let strBudget := "Budget " ++ f.strBudgetName ++ " (" ++ f.getProposals findProposal ++ ")"
  let nBlocksPerCycle := P.nBudgetCycleBlocks
  if f.nBlockStart.tmod nBlocksPerCycle ≠ 0 then some (.error "Invalid BlockStart")
  else if 100 < f.blockEnd - f.nBlockStart then some (.error "Invalid BlockEnd")
  else if 100 < toI32 f.vecBudgetPayments.length then some (.error "Invalid budget payments count (too many)")
  else if f.strBudgetName = "" then some (.error "Invalid Budget Name")
  else if f.nBlockStart = 0 then some (.error (strBudget ++ " Invalid BlockStart == 0"))
  else if f.nFeeTXHash = 0 then some (.error (strBudget ++ " Invalid FeeTx == 0"))
  else
    (getTotalBudget P f.nBlockStart).map fun nTotalBudget =>
      if nTotalBudget < f.getTotalPayout then .error (strBudget ++ " Invalid Payout (more than max)")
      else if fCheckCollateral && collateral.isSome then
        .error (strBudget ++ " Invalid Collateral : " ++ collateral.getD "")
      else
        let nMaxAge := nCurrentHeight - nCurrentHeight.tmod nBlocksPerCycle + nBlocksPerCycle - 2 * nBlocksPerCycle
        if f.blockEnd < nMaxAge then
          .error (strBudget ++ " (ends at block " ++ String.ofList (intText f.blockEnd) ++ ") too old and obsolete")
        else .ok ()

end CheckedBudget

end Rapids.Masternode
