import Rapids.Chain.Payments

/-!
# Rapids.Chain.PaymentsSound

**`IsBlockPayeeValid` finds what `FillBlockPayee` added.**

A masternode payment is always found: the payee with most votes is among those
with enough votes, if any has enough. A budget payment is found if ten masternodes
are enabled (below that no budget comes within the threshold of its own votes), if
no proposal due at this height is in the history of payments, and if no other
output of the transaction looks like a budget payment, which would count as
paying twice.
-/

namespace Rapids.Chain

open Rapids.Lib

variable {h : Int} {init : List TxOut}

variable {M : Payments} {nHeight : Nat} {tx : Transaction}

/-! ### Masternodes -/

theorem exists_payee_of_signatures {payees : List MasternodePayee} {m : Int}
    (hm : m < Payments.signaturesRequired)
    (h : Payments.signaturesRequired ≤ payees.foldl (fun m p =>
      if m ≤ p.nVotes && Payments.signaturesRequired ≤ p.nVotes then p.nVotes else m) m) :
    ∃ p ∈ payees, Payments.signaturesRequired ≤ p.nVotes := by
  by_contra hnone
  push Not at hnone
  suffices hfold : payees.foldl (fun m p =>
      if m ≤ p.nVotes && Payments.signaturesRequired ≤ p.nVotes then p.nVotes else m) m = m by
    rw [hfold] at h
    omega
  clear h
  induction payees with
  | nil => rfl
  | cons p rest ih =>
    have hp := hnone p (.head _)
    rw [List.foldl_cons, if_neg (by simp; omega)]
    exact ih fun q hq => hnone q (List.mem_cons_of_mem p hq)

theorem masternodeIsTransactionValid_of_paid
    (hpaid : ∀ payee, M.masternodePayee nHeight = some payee →
      (⟨getBlockMasternodeSubsidy nHeight, payee⟩ : TxOut) ∈ tx.vout) :
    M.masternodeIsTransactionValid tx nHeight = true := by
  unfold Payments.masternodeIsTransactionValid
  cases hblock : M.mapMasternodeBlocks nHeight with
  | none => rfl
  | some payees =>
    unfold Payments.payeesIsTransactionValid
    dsimp only
    split_ifs with hsig
    · rfl
    · obtain ⟨p, hp, hvotes⟩ := exists_payee_of_signatures (by decide) (not_lt.mp hsig)
      have hle := (le_grab (fun _ => true) MasternodePayee.nVotes payees (-1, none)).2 p hp rfl
      simp only [Payments.signaturesRequired] at hvotes
      -- Something was grabbed: the count is past its start.
      rcases grab_cases (fun _ => true) MasternodePayee.nVotes payees (-1, none) with hg | hg
      · rw [hg] at hle
        simp only at hle
        omega
      · obtain ⟨q, hq, -, hg⟩ := hg
        rw [hg] at hle
        have hpayee : M.masternodePayee nHeight = some q.scriptPubKey := by
          simp [Payments.masternodePayee, Payments.getBlockPayee, hblock, hg]
        rw [List.any_eq_true]
        refine ⟨q, hq, ?_⟩
        rw [Bool.and_eq_true, decide_eq_true_eq, List.any_eq_true]
        refine ⟨by simp only [Payments.signaturesRequired] at *; omega, _, hpaid _ hpayee, ?_⟩
        simp

theorem isPayeeValid_of_masternode
    (hbudget : (M.superblocks && M.isBudgetPaymentBlock nHeight) = false)
    (hpaid : ∀ payee, M.masternodePayee nHeight = some payee →
      (⟨getBlockMasternodeSubsidy nHeight, payee⟩ : TxOut) ∈ tx.vout) :
    (M.isPayeeValid tx nHeight).1 = true := by
  simp [Payments.isPayeeValid, hbudget, masternodeIsTransactionValid_of_paid hpaid]

/-- The node enforces neither the budget nor, for want of votes or by a spork, the
payment of a masternode. -/
def Lenient (M : Payments) (nHeight : Nat) : Prop :=
  M.budgetEnforcement = false ∧
    (M.paymentEnforcement = false ∨ ∀ payees, M.mapMasternodeBlocks nHeight = some payees →
      ∀ p ∈ payees, p.nVotes < Payments.signaturesRequired)

theorem isPayeeValid_of_lenient (h : Lenient M nHeight) : (M.isPayeeValid tx nHeight).1 = true := by
  obtain ⟨hbudget, hpayment⟩ := h
  have hmn : (M.masternodeIsTransactionValid tx nHeight || !M.paymentEnforcement) = true := by
    rcases hpayment with hoff | hfew
    · simp [hoff]
    · have hvalid : M.masternodeIsTransactionValid tx nHeight = true := by
        unfold Payments.masternodeIsTransactionValid
        cases hblock : M.mapMasternodeBlocks nHeight with
        | none => rfl
        | some payees =>
          unfold Payments.payeesIsTransactionValid
          dsimp only
          split_ifs with hsig
          · rfl
          · obtain ⟨p, hp, hvotes⟩ := exists_payee_of_signatures (by decide) (not_lt.mp hsig)
            exact absurd (hfew payees hblock p hp) (not_lt.mpr hvotes)
      rw [hvalid, Bool.true_or]
  unfold Payments.isPayeeValid
  simp only [hmn, hbudget, Bool.and_false, Bool.false_eq_true, if_false]
  split_ifs <;> rfl

/-! ### Budgets -/

variable {f : FinalizedBudget} {pay : TxBudgetPayment} {hist : PaymentHistory}

theorem FinalizedBudget.paymentByBlock_of_covers
    (hf : f.covers h = true) : ∃ pay, f.paymentByBlock h = some pay := by
  simp only [FinalizedBudget.covers, Bool.and_eq_true, decide_eq_true_eq] at hf
  rw [FinalizedBudget.blockEnd] at hf
  have hlt : (h - f.nBlockStart).toNat < f.vecBudgetPayments.length := by omega
  refine ⟨f.vecBudgetPayments.get ⟨_, hlt⟩, ?_⟩
  rw [FinalizedBudget.paymentByBlock, if_neg (show ¬h - f.nBlockStart < 0 by omega),
    List.getElem?_eq_getElem hlt]
  rfl

/-- In a superblock some budget is grabbed, with more than the votes it needs. -/
theorem grabBudget_of_superblock (h : M.isBudgetPaymentBlock nHeight = true) :
    ∃ f ∈ M.mapFinalizedBudgets, f.covers nHeight = true ∧
      M.grabBudget nHeight 0 = ((f.voteCount : Int), some f) ∧
      ((M.countEnabled / 20 : Nat) : Int) < f.voteCount := by
  rw [Payments.isBudgetPaymentBlock, decide_eq_true_eq] at h
  have hsame : M.grabBudget nHeight 0 = M.grabBudget nHeight (-1) :=
    grab_of_lt _ _ (by omega) (by
      show (0 : Int) < (M.grabBudget nHeight (-1)).1
      omega)
  rw [hsame]
  rcases grab_cases (fun f : FinalizedBudget => f.covers nHeight) (fun f => (f.voteCount : Int))
    M.mapFinalizedBudgets (-1, none) with hg | ⟨f, hf, hcov, hg⟩
  · rw [Payments.grabBudget, hg] at h
    simp only at h
    omega
  · refine ⟨f, hf, hcov, hg, ?_⟩
    rw [Payments.grabBudget, hg] at h
    exact h

theorem duePayment_of_superblock (h : M.isBudgetPaymentBlock nHeight = true) :
    ∃ f ∈ M.mapFinalizedBudgets, f.covers nHeight = true ∧
      (M.grabBudget nHeight 0).1 = (f.voteCount : Int) ∧
      ((M.countEnabled / 20 : Nat) : Int) < f.voteCount ∧
      M.duePayment nHeight = f.paymentByBlock nHeight := by
  obtain ⟨f, hf, hcov, hg, hvotes⟩ := grabBudget_of_superblock h
  refine ⟨f, hf, hcov, by rw [hg], hvotes, ?_⟩
  rw [Payments.duePayment, hg]
  rfl

/-- An output is a budget payment. -/
def Pays (pay : TxBudgetPayment) (o : TxOut) : Prop :=
  pay.payee = o.scriptPubKey ∧ pay.nAmount = o.nValue

/-- The checks of the budgets that pay in a block find nothing but a given payment,
and none of their proposals is in the history. -/
structure OnlyPays (M : Payments) (nHeight : Nat) (init : List TxOut) : Prop where
  fresh : ∀ f ∈ M.mapFinalizedBudgets, ∀ pay, f.paymentByBlock nHeight = some pay →
    M.mapPaymentHistory pay.nProposalHash = none
  others : ∀ f ∈ M.mapFinalizedBudgets, ∀ pay, f.paymentByBlock nHeight = some pay →
    ∀ o ∈ init, ¬Pays pay o

theorem matchOutputs_append
    {rest : List TxOut} {status : TrxValidationStatus}
    (hinit : ∀ o ∈ init, ¬Pays pay o) :
    f.matchOutputs pay h (init ++ rest) status hist = f.matchOutputs pay h rest status hist := by
  induction init with
  | nil => rfl
  | cons o init ih =>
    have ho : ¬(pay.payee = o.scriptPubKey && pay.nAmount = o.nValue) = true := by
      simpa [Pays] using hinit o (.head _)
    rw [List.cons_append, FinalizedBudget.matchOutputs, if_neg ho]
    exact ih fun x hx => hinit x (List.mem_cons_of_mem o hx)

/-- A budget finds the payment if it is its own, and else leaves the history alone. -/
theorem FinalizedBudget.isTransactionValid_last {o : TxOut} (hvout : tx.vout = init ++ [o])
    (hpay : f.paymentByBlock h = some pay) (hinit : ∀ o ∈ init, ¬Pays pay o)
    (hfresh : hist pay.nProposalHash = none) :
    (Pays pay o → (f.isTransactionValid tx h hist).1 = .valid) ∧
      (¬Pays pay o → f.isTransactionValid tx h hist = (.inValid, hist)) := by
  have heq : f.isTransactionValid tx h hist = f.matchOutputs pay h [o] .inValid hist := by
    rw [FinalizedBudget.isTransactionValid, hpay, hvout]
    exact matchOutputs_append hinit
  rw [heq, FinalizedBudget.matchOutputs]
  refine ⟨fun ho => ?_, fun ho => ?_⟩
  · rw [if_pos (by simpa [Pays] using ho)]
    simp [FinalizedBudget.isPaidAlready, hfresh, FinalizedBudget.matchOutputs]
  · rw [if_neg (by simpa [Pays] using ho), FinalizedBudget.matchOutputs]

theorem checkBudgets_valid {budgets : List FinalizedBudget} {threshold : Int}
    {o : TxOut} {status : TrxValidationStatus} {fThreshold : Bool}
    (hvout : tx.vout = init ++ [o])
    (hothers : ∀ f ∈ budgets, ∀ pay, f.paymentByBlock h = some pay →
      (∀ o ∈ init, ¬Pays pay o) ∧ hist pay.nProposalHash = none)
    (hdue : ∃ f ∈ budgets, threshold < f.voteCount ∧ f.covers h = true ∧
      ∃ pay, f.paymentByBlock h = some pay ∧ Pays pay o) :
    (Payments.checkBudgets threshold tx h budgets status fThreshold hist).1 = .valid := by
  induction budgets generalizing status fThreshold with
  | nil =>
    obtain ⟨f, hf, -⟩ := hdue
    cases hf
  | cons g rest ih =>
    have hrest : ∀ f ∈ rest, ∀ pay, f.paymentByBlock h = some pay →
        (∀ o ∈ init, ¬Pays pay o) ∧ hist pay.nProposalHash = none :=
      fun f hf => hothers f (List.mem_cons_of_mem g hf)
    rw [Payments.checkBudgets]
    by_cases hsel : threshold < g.voteCount ∧ g.covers h = true
    · obtain ⟨pay, hpay⟩ := FinalizedBudget.paymentByBlock_of_covers hsel.2
      obtain ⟨hinit, hfresh⟩ := hothers g (.head _) pay hpay
      obtain ⟨hvalid, hinvalid⟩ :=
        FinalizedBudget.isTransactionValid_last hvout hpay hinit hfresh
      rw [if_pos hsel.1, if_pos hsel.2]
      by_cases ho : Pays pay o
      · exact congrArg Prod.fst (if_pos (hvalid ho))
      · rw [hinvalid ho]
        refine ih hrest ?_
        obtain ⟨f, hf, hthr, hcov, q, hq, hqo⟩ := hdue
        rcases List.mem_cons.mp hf with rfl | hf
        · obtain rfl := Option.some.inj (hpay.symm.trans hq)
          exact absurd hqo ho
        · exact ⟨f, hf, hthr, hcov, q, hq, hqo⟩
    · have hdue' : ∃ f ∈ rest, threshold < f.voteCount ∧ f.covers h = true ∧
          ∃ pay, f.paymentByBlock h = some pay ∧ Pays pay o := by
        obtain ⟨f, hf, hthr, hcov, hpaid⟩ := hdue
        rcases List.mem_cons.mp hf with rfl | hf
        · exact absurd ⟨hthr, hcov⟩ hsel
        · exact ⟨f, hf, hthr, hcov, hpaid⟩
      split_ifs with h1 h2
      · exact absurd ⟨h1, h2⟩ hsel
      · exact ih hrest hdue'
      · exact ih hrest hdue'

theorem isPayeeValid_of_budget
    (hsuper : M.superblocks = true) (hbudget : M.isBudgetPaymentBlock nHeight = true)
    (henabled : 10 ≤ M.countEnabled) (hdue : M.duePayment nHeight = some pay)
    (hvout : tx.vout = init ++ [⟨pay.nAmount, pay.payee⟩]) (honly : OnlyPays M nHeight init) :
    (M.isPayeeValid tx nHeight).1 = true := by
  obtain ⟨f, hf, hcov, hcount, hvotes, hpay⟩ := duePayment_of_superblock hbudget
  rw [hdue] at hpay
  have hvalid : (M.budgetIsTransactionValid tx nHeight).1 = .valid := by
    unfold Payments.budgetIsTransactionValid
    simp only [hcount]
    rw [if_neg (by omega)]
    refine checkBudgets_valid hvout (fun g hg q hq => ⟨honly.others g hg q hq, honly.fresh g hg q hq⟩)
      ⟨f, hf, ?_, hcov, pay, hpay.symm, rfl, rfl⟩
    have : 1 ≤ M.countEnabled / 10 := by omega
    omega
  unfold Payments.isPayeeValid
  simp [hsuper, hbudget, hvalid]

end Rapids.Chain
