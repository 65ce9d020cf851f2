import Rapids.Chain.Connect

/-!
# Rapids.Chain.Payments

**Who a block pays** besides its staker (`masternode-payments.cpp`,
`masternode-budget.cpp`): a masternode, or in a superblock the payee of a
finalized budget. `FillBlockPayee` adds the payment to a block that is built and
`IsBlockPayeeValid` looks for it in a block that arrives.

Both sides read the same votes but by loops of their own. All of them keep the
**first strict maximum** of a list of votes, so that is stated once (`grab`).
Checking a budget payment is not pure: it enters the proposal into a history of
payments, and what is found there counts as paid.

A finalized budget is its votes, its first block and its payments. Masternodes
are the number enabled and the key of the one to pay next.
-/

namespace Rapids.Chain

open Rapids.Lib

/-! ### The first strict maximum -/

section Grab

variable {α : Type} (p : α → Bool) (votes : α → Int)

/-- The loop that grabs the highest count over a list, starting from a count. -/
def grab : List α → Int × Option α → Int × Option α
  | [], acc => acc
  | a :: rest, acc => grab rest (if votes a > acc.1 && p a then (votes a, some a) else acc)

theorem le_grab (l : List α) (acc : Int × Option α) :
    acc.1 ≤ (grab p votes l acc).1 ∧ ∀ a ∈ l, p a = true → votes a ≤ (grab p votes l acc).1 := by
  induction l generalizing acc with
  | nil => simp [grab]
  | cons a rest ih =>
    rw [grab]
    obtain ⟨hle, hall⟩ := ih (if votes a > acc.1 && p a then (votes a, some a) else acc)
    by_cases ha : (votes a > acc.1 && p a) = true
    · rw [if_pos ha] at hle hall ⊢
      simp only [gt_iff_lt, Bool.and_eq_true, decide_eq_true_eq] at ha
      refine ⟨by simp only at hle; omega, fun b hb hpb => ?_⟩
      rcases List.mem_cons.mp hb with rfl | hb
      · exact hle
      · exact hall b hb hpb
    · rw [if_neg ha] at hle hall ⊢
      simp only [gt_iff_lt, Bool.and_eq_true, decide_eq_true_eq, not_and] at ha
      refine ⟨hle, fun b hb hpb => ?_⟩
      rcases List.mem_cons.mp hb with rfl | hb
      · have : ¬acc.1 < votes b := fun hlt => ha hlt hpb
        omega
      · exact hall b hb hpb

/-- Either nothing was grabbed, or something of the list that qualifies, with its count. -/
theorem grab_cases (l : List α) (acc : Int × Option α) :
    grab p votes l acc = acc ∨
      ∃ a ∈ l, p a = true ∧ grab p votes l acc = (votes a, some a) := by
  induction l generalizing acc with
  | nil => exact .inl rfl
  | cons a rest ih =>
    rw [grab]
    by_cases ha : (votes a > acc.1 && p a) = true
    · rw [if_pos ha]
      rcases ih (votes a, some a) with h | ⟨b, hb, hpb, h⟩
      · exact .inr ⟨a, .head _, (Bool.and_eq_true_iff.mp ha).2, h⟩
      · exact .inr ⟨b, List.mem_cons_of_mem a hb, hpb, h⟩
    · rw [if_neg ha]
      rcases ih acc with h | ⟨b, hb, hpb, h⟩
      · exact .inl h
      · exact .inr ⟨b, List.mem_cons_of_mem a hb, hpb, h⟩

/-- From different starts the same is grabbed, once the count has passed both. -/
theorem grab_of_lt {l : List α} {n m : Int} (h : n ≤ m)
    (hm : m < (grab p votes l (n, none)).1) :
    grab p votes l (m, none) = grab p votes l (n, none) := by
  suffices hgen : ∀ (l : List α) (x y : Int × Option α), x.1 ≤ y.1 → y.1 < (grab p votes l x).1 →
      grab p votes l y = grab p votes l x from hgen l _ _ h hm
  intro l
  induction l with
  | nil =>
    intro x y hxy hlt
    rw [grab] at hlt
    omega
  | cons b rest ih =>
    intro x y hxy hlt
    rw [grab] at hlt
    rw [grab, grab]
    by_cases hpb : p b = true
    · simp only [hpb, Bool.and_true, decide_eq_true_eq, gt_iff_lt] at hlt ⊢
      by_cases hy : y.1 < votes b
      · rw [if_pos hy, if_pos (show x.1 < votes b by omega)]
      · rw [if_neg hy]
        by_cases hx : x.1 < votes b
        · rw [if_pos hx] at hlt ⊢
          exact ih _ _ (by simp only; omega) hlt
        · rw [if_neg hx] at hlt ⊢
          exact ih _ _ hxy hlt
    · simp only [Bool.not_eq_true] at hpb
      simp only [hpb, Bool.and_false, Bool.false_eq_true, if_false] at hlt ⊢
      exact ih _ _ hxy hlt

end Grab

/-! ### Finalized budgets -/

/-- `CTxBudgetPayment` -/
structure TxBudgetPayment where
  payee : Script
  nAmount : Int
  nProposalHash : Nat
  deriving DecidableEq

/-- `CFinalizedBudget` -/
structure FinalizedBudget where
  /-- `GetVoteCount` -/
  voteCount : Nat
  nBlockStart : Int
  vecBudgetPayments : List TxBudgetPayment
  deriving DecidableEq

/-- `mapPayment_History`: the block in which a proposal was paid. -/
abbrev PaymentHistory := Nat → Option Int

/-- `TrxValidationStatus` -/
inductive TrxValidationStatus
  | inValid
  | valid
  | doublePayment
  | voteThreshold
  deriving DecidableEq

namespace FinalizedBudget

variable (f : FinalizedBudget)

/-- `GetBlockEnd` -/
def blockEnd : Int :=
  f.nBlockStart + ((f.vecBudgetPayments.length : Int) - 1)

/-- The budget pays in this block. -/
def covers (nHeight : Int) : Bool :=
  f.nBlockStart ≤ nHeight && nHeight ≤ f.blockEnd

/-- `GetBudgetPaymentByBlock` and `GetPayeeAndAmount` -/
def paymentByBlock (nHeight : Int) : Option TxBudgetPayment :=
  if nHeight - f.nBlockStart < 0 then none
  else f.vecBudgetPayments[(nHeight - f.nBlockStart).toNat]?

/-- `IsPaidAlready`: the payments of other cycles leave the history, and a payment
that was not there enters it. -/
def isPaidAlready (nProposalHash : Nat) (nHeight : Int)
    (hist : PaymentHistory) : Bool × PaymentHistory :=
  let hist : PaymentHistory := fun k => (hist k).filter f.covers
  if (hist nProposalHash).isSome then (true, hist)
  else (false, Function.update hist nProposalHash (some nHeight))

/-- The loop of `IsTransactionValid` over the outputs. -/
def matchOutputs (f : FinalizedBudget) (pay : TxBudgetPayment) (nHeight : Int) :
    List TxOut → TrxValidationStatus → PaymentHistory → TrxValidationStatus × PaymentHistory
  | [], status, hist => (status, hist)
  | o :: rest, status, hist =>
    if pay.payee = o.scriptPubKey && pay.nAmount = o.nValue then
      let (paid, hist) := f.isPaidAlready pay.nProposalHash nHeight hist
      if paid then (.doublePayment, hist) else matchOutputs f pay nHeight rest .valid hist
    else matchOutputs f pay nHeight rest status hist

/-- `CFinalizedBudget::IsTransactionValid` -/
def isTransactionValid (tx : Transaction) (nHeight : Int)
    (hist : PaymentHistory) : TrxValidationStatus × PaymentHistory :=
  match f.paymentByBlock nHeight with
  | none => (.inValid, hist)
  | some pay => matchOutputs f pay nHeight tx.vout .inValid hist

end FinalizedBudget

/-! ### The node's view of sporks, budgets and masternodes -/

/-- `CMasternodePayee` -/
structure MasternodePayee where
  scriptPubKey : Script
  nVotes : Int

/-- What `FillBlockPayee` and `IsBlockPayeeValid` read. -/
structure Payments where
  /-- `masternodeSync.IsSynced` -/
  synced : Bool
  /-- `SPORK_8_MASTERNODE_PAYMENT_ENFORCEMENT` -/
  paymentEnforcement : Bool
  /-- `SPORK_9_MASTERNODE_BUDGET_ENFORCEMENT` -/
  budgetEnforcement : Bool
  /-- `SPORK_13_ENABLE_SUPERBLOCKS` -/
  superblocks : Bool
  /-- `mnodeman.CountEnabled` -/
  countEnabled : Nat
  /-- The height the budget manager was told last. -/
  nBestHeight : Int
  /-- In the order of the hashes. -/
  mapFinalizedBudgets : List FinalizedBudget
  mapPaymentHistory : PaymentHistory
  mapMasternodeBlocks : Nat → Option (List MasternodePayee)
  /-- The key of `mnodeman.GetCurrentMasterNode`. -/
  currentMasterNode : Option (Vector UInt8 20)

namespace Payments

variable (M : Payments)

/-- The loop over the finalized budgets that pay in a block, from a count. -/
def grabBudget (nHeight nHighestCount : Int) : Int × Option FinalizedBudget :=
  grab (fun f => f.covers nHeight) (fun f => (f.voteCount : Int)) M.mapFinalizedBudgets
    (nHighestCount, none)

/-- `IsBudgetPaymentBlock` -/
def isBudgetPaymentBlock (nHeight : Int) : Bool :=
  ((M.countEnabled / 20 : Nat) : Int) < (M.grabBudget nHeight (-1)).1

/-! ### Adding the payment -/

/-- The payment of the budget that pays in a block with most votes. -/
def duePayment (nHeight : Int) : Option TxBudgetPayment :=
  (M.grabBudget nHeight 0).2.bind fun f => f.paymentByBlock nHeight

variable (tx : Transaction) (nHeight : Nat) (fProofOfStake : Bool) (vout : List TxOut)

/-- `CBudgetManager::FillBlockPayee` -/
def budgetFillBlockPayee : List TxOut :=
  if M.nBestHeight ≤ 0 then vout
  else if fProofOfStake then
    vout ++ ((M.duePayment (M.nBestHeight + 1)).map fun pay => ⟨pay.nAmount, pay.payee⟩).toList
  else
    let vout := vout.set 0 { vout.headD TxOut.null with nValue := getBlockValue M.nBestHeight.toNat }
    match M.duePayment (M.nBestHeight + 1) with
    | none => vout
    | some pay => vout.take 1 ++ [⟨pay.nAmount, pay.payee⟩]

/-- `CMasternodePayments::GetBlockPayee` -/
def getBlockPayee : Option Script :=
  (M.mapMasternodeBlocks nHeight).bind fun payees =>
    (grab (fun _ => true) MasternodePayee.nVotes payees (-1, none)).2.map
      MasternodePayee.scriptPubKey

/-- The payee of `CMasternodePayments::FillBlockPayee`, none if no masternode is
detected. -/
def masternodePayee : Option Script :=
  (M.getBlockPayee nHeight).or
    (M.currentMasterNode.map fun hash => getScriptForDestination (.keyID hash))

/-- `CMasternodePayments::FillBlockPayee` -/
def masternodeFillBlockPayee :
    List TxOut :=
  if fProofOfStake then
    vout ++ ((M.masternodePayee nHeight).map fun payee =>
      ⟨getBlockMasternodeSubsidy nHeight, payee⟩).toList
  else vout

/-- `FillBlockPayee`, for the block of a height. -/
def fillBlockPayee : List TxOut :=
  if M.superblocks && M.isBudgetPaymentBlock nHeight then M.budgetFillBlockPayee fProofOfStake vout
  else M.masternodeFillBlockPayee nHeight fProofOfStake vout

/-! ### Looking for the payment -/

/-- The loop of `CBudgetManager::IsTransactionValid` over the budgets. -/
def checkBudgets (nCountThreshold : Int) (tx : Transaction) (nHeight : Int) :
    List FinalizedBudget → TrxValidationStatus → Bool → PaymentHistory →
      TrxValidationStatus × PaymentHistory
  | [], status, fThreshold, hist => (if fThreshold then status else .voteThreshold, hist)
  | f :: rest, status, fThreshold, hist =>
    if nCountThreshold < f.voteCount then
      if f.covers nHeight then
        let (status, hist) := f.isTransactionValid tx nHeight hist
        if status = .valid then (.valid, hist)
        else checkBudgets nCountThreshold tx nHeight rest status true hist
      else checkBudgets nCountThreshold tx nHeight rest status true hist
    else checkBudgets nCountThreshold tx nHeight rest status fThreshold hist

/-- `CBudgetManager::IsTransactionValid` -/
def budgetIsTransactionValid (nHeight : Int) :
    TrxValidationStatus × PaymentHistory :=
  let nHighestCount := (M.grabBudget nHeight 0).1
  if nHighestCount < (M.countEnabled / 20 : Nat) then (.inValid, M.mapPaymentHistory)
  else
    checkBudgets (nHighestCount - (M.countEnabled / 10 : Nat)) tx nHeight M.mapFinalizedBudgets
      .inValid false M.mapPaymentHistory

/-- `MNPAYMENTS_SIGNATURES_REQUIRED` -/
def signaturesRequired : Int := 6

/-- `CMasternodeBlockPayees::IsTransactionValid` -/
def payeesIsTransactionValid (payees : List MasternodePayee) (tx : Transaction) :
    Bool :=
  let nMaxSignatures := payees.foldl
    (fun m p => if m ≤ p.nVotes && signaturesRequired ≤ p.nVotes then p.nVotes else m) 0
  if nMaxSignatures < signaturesRequired then true
  else
    payees.any fun p =>
      signaturesRequired ≤ p.nVotes &&
        tx.vout.any fun o =>
          p.scriptPubKey = o.scriptPubKey && o.nValue = getBlockMasternodeSubsidy nHeight

/-- `CMasternodePayments::IsTransactionValid` -/
def masternodeIsTransactionValid : Bool :=
  match M.mapMasternodeBlocks nHeight with
  | none => true
  | some payees => payeesIsTransactionValid nHeight payees tx

/-- The transaction of a block that pays: the second one where proof of stake is
active, whether the block has a second or not. -/
def payingTx (P : ChainParams) (nHeight : Nat) (b : CBlock) : Option Transaction :=
  if networkUpgradeActive P.upgradePos nHeight then b.vtx[1]? else b.vtx[0]?

/-- What `IsBlockPayeeValid` says of the transaction that pays. -/
def isPayeeValid : Bool × PaymentHistory :=
  let (decided, hist) : Option Bool × PaymentHistory :=
    if M.superblocks && M.isBudgetPaymentBlock nHeight then
      let (status, hist) := M.budgetIsTransactionValid tx nHeight
      if status = .valid then (some true, hist)
      else if status = .inValid && M.budgetEnforcement then (some false, hist)
      else (none, hist)
    else (none, M.mapPaymentHistory)
  (decided.getD (M.masternodeIsTransactionValid tx nHeight || !M.paymentEnforcement), hist)

/-- `IsBlockPayeeValid`; a read outside the block is `none`. -/
def isBlockPayeeValid (P : ChainParams) (nHeight : Nat) (b : CBlock) :
    Option (Bool × PaymentHistory) :=
  if !M.synced then some (true, M.mapPaymentHistory)
  else (payingTx P nHeight b).map fun tx => M.isPayeeValid tx nHeight

/-- The node as `CheckColdStakeFreeOutput` sees it. -/
def nodeState (initialBlockDownload coldStaking : Bool)
    (getTransaction : Nat → Option Transaction) : NodeState where
  initialBlockDownload := initialBlockDownload
  coldStaking := coldStaking
  superblocks := M.superblocks
  synced := M.synced
  isBudgetPaymentBlock := fun nHeight => M.isBudgetPaymentBlock nHeight
  getTransaction := getTransaction

end Payments

end Rapids.Chain
