import Rapids.Chain.Payments

/-!
# Rapids.Chain.PaymentHistory

**Checking a budget payment again.** The check of a block enters what the block pays into
the payment history, and what the check of another block finds there counts as paid. So
the answer depends on the checks before it.

Only the budgets that are **due** at a height matter: those in whose window the height is
and that come near the highest count. The loop over all budgets is a walk over these
(`budgetIsTransactionValid_eq`), and what one of them says depends only on how many
outputs are its payment and on whether the history holds its proposal (`visit_eq`). A walk
that ends well has entered a proposal, so it cannot end well for ever: **an answer that
never changes is a bad one**, and it stays bad exactly if nothing can leave the history
that is looked for there.
-/

namespace Rapids.Chain

/-! ### One budget -/

/-- The output is the payment. -/
def TxBudgetPayment.madeBy (pay : TxBudgetPayment) (o : TxOut) : Bool :=
  pay.payee = o.scriptPubKey && pay.nAmount = o.nValue

namespace FinalizedBudget

variable (f : FinalizedBudget)

/-- What `IsPaidAlready` leaves of the history. -/
def prune (hist : PaymentHistory) : PaymentHistory := fun k => (hist k).filter f.covers

/-- The proposal of the payment in a block. -/
def proposalAt (h : Int) : Nat := ((f.paymentByBlock h).map TxBudgetPayment.nProposalHash).getD 0

/-- How many outputs of a transaction are the payment in a block. -/
def timesPaid (h : Int) (tx : Transaction) : Nat :=
  ((f.paymentByBlock h).map fun pay => tx.vout.countP pay.madeBy).getD 0

variable {f} {h : Int} {tx : Transaction} {hist : PaymentHistory}

theorem prune_eq_some {p : Nat} {k : Int} :
    f.prune hist p = some k ↔ hist p = some k ∧ f.covers k = true := by
  rw [prune, Option.filter_eq_some_iff]

section
variable (hcov : f.covers h = true)
include hcov

theorem prune_update {p : Nat} :
    f.prune (Function.update (f.prune hist) p (some h)) = Function.update (f.prune hist) p (some h) := by
  funext q
  rw [prune]
  by_cases hq : q = p
  · rw [hq, Function.update_self, Option.filter_some, if_pos hcov]
  · rw [Function.update_of_ne hq, prune, Option.filter_filter]
    simp

theorem matchOutputs_eq {pay : TxBudgetPayment} (vout : List TxOut)
    (status : TrxValidationStatus) (hist : PaymentHistory) :
    f.matchOutputs pay h vout status hist =
      if vout.countP pay.madeBy = 0 then
        (status, hist)
      else if (f.prune hist pay.nProposalHash).isSome then (.doublePayment, f.prune hist)
      else
        (if vout.countP pay.madeBy = 1 then
            .valid else .doublePayment,
          Function.update (f.prune hist) pay.nProposalHash (some h)) := by
  induction vout generalizing status hist with
  | nil => rfl
  | cons o rest ih =>
    rw [matchOutputs]
    by_cases ho : pay.madeBy o = true
    · rw [List.countP_cons_of_pos ho, if_neg (Nat.succ_ne_zero _)]
      refine (if_pos ho).trans ?_
      by_cases hpaid : (f.prune hist pay.nProposalHash).isSome = true
      · have hfound : f.isPaidAlready pay.nProposalHash h hist = (true, f.prune hist) := if_pos hpaid
        rw [hfound, if_pos hpaid]
        exact if_pos rfl
      · have hnew : f.isPaidAlready pay.nProposalHash h hist =
            (false, Function.update (f.prune hist) pay.nProposalHash (some h)) := if_neg hpaid
        rw [hnew, if_neg hpaid]
        dsimp only
        rw [if_neg Bool.false_ne_true, ih, prune_update hcov, Function.update_self]
        simp only [Nat.add_eq_right, Option.isSome_some, if_true]
        split_ifs <;> rfl
    · rw [List.countP_cons_of_neg ho]
      refine (if_neg ho).trans ?_
      rw [ih]

theorem visit_eq :
    f.isTransactionValid tx h hist =
      if f.timesPaid h tx = 0 then (.inValid, hist)
      else if (f.prune hist (f.proposalAt h)).isSome then (.doublePayment, f.prune hist)
      else
        (if f.timesPaid h tx = 1 then .valid else .doublePayment,
          Function.update (f.prune hist) (f.proposalAt h) (some h)) := by
  rw [isTransactionValid, timesPaid, proposalAt]
  cases hpay : f.paymentByBlock h with
  | none => rfl
  | some pay => exact matchOutputs_eq hcov tx.vout .inValid hist

/-- The proposal is in the history, for a block of the budget's window. -/
def Finds (f : FinalizedBudget) (h : Int) (hist : PaymentHistory) : Prop :=
  ∃ k, hist (f.proposalAt h) = some k ∧ f.covers k = true

theorem visit_cases (tx : Transaction) (hist : PaymentHistory) :
    (f.timesPaid h tx = 0 ∧ f.isTransactionValid tx h hist = (.inValid, hist)) ∨
      (0 < f.timesPaid h tx ∧ f.Finds h hist ∧
        f.isTransactionValid tx h hist = (.doublePayment, f.prune hist)) ∨
      (0 < f.timesPaid h tx ∧ ¬f.Finds h hist ∧
        f.isTransactionValid tx h hist =
          (if f.timesPaid h tx = 1 then .valid else .doublePayment,
            Function.update (f.prune hist) (f.proposalAt h) (some h))) := by
  have hfinds : (f.prune hist (f.proposalAt h)).isSome = true ↔ f.Finds h hist := by
    rw [Option.isSome_iff_exists]
    exact exists_congr fun k => prune_eq_some
  rw [visit_eq hcov]
  by_cases hzero : f.timesPaid h tx = 0
  · exact .inl ⟨hzero, if_pos hzero⟩
  · rw [if_neg hzero]
    by_cases hpaid : (f.prune hist (f.proposalAt h)).isSome = true
    · exact .inr (.inl ⟨Nat.pos_of_ne_zero hzero, hfinds.mp hpaid, if_pos hpaid⟩)
    · exact .inr (.inr ⟨Nat.pos_of_ne_zero hzero, fun hf => hpaid (hfinds.mpr hf), if_neg hpaid⟩)

end

end FinalizedBudget

/-! ### The budgets that are due -/

/-- The checks of budgets one after another, until one is content. -/
def walk (tx : Transaction) (h : Int) :
    List FinalizedBudget → TrxValidationStatus → PaymentHistory → TrxValidationStatus × PaymentHistory
  | [], status, hist => (status, hist)
  | f :: rest, _, hist =>
    if (f.isTransactionValid tx h hist).1 = .valid then (.valid, (f.isTransactionValid tx h hist).2)
    else walk tx h rest (f.isTransactionValid tx h hist).1 (f.isTransactionValid tx h hist).2

section
variable {tx : Transaction} {h : Int} {D : List FinalizedBudget} {status : TrxValidationStatus}
  {hist : PaymentHistory}

/-- What the walk says where no budget is content: the last one decides. -/
def lastAnswer (tx : Transaction) (h : Int) :
    List FinalizedBudget → TrxValidationStatus → TrxValidationStatus
  | [], status => status
  | f :: rest, _ => lastAnswer tx h rest (if f.timesPaid h tx = 0 then .inValid else .doublePayment)

theorem walk_of_ne {f : FinalizedBudget} {status' : TrxValidationStatus} {hist' : PaymentHistory}
    (hr : f.isTransactionValid tx h hist = (status', hist')) (hne : status' ≠ .valid) :
    walk tx h (f :: D) status hist = walk tx h D status' hist' := by
  rw [walk, hr, if_neg hne]

/-- Apart from a good answer there is one that does not depend on the history. -/
theorem walk_status (hcov : ∀ f ∈ D, f.covers h = true) (hbad : (walk tx h D status hist).1 ≠ .valid) :
    (walk tx h D status hist).1 = lastAnswer tx h D status := by
  induction D generalizing status hist with
  | nil => rfl
  | cons f rest ih =>
    have hrest : ∀ g ∈ rest, g.covers h = true := fun g hg => hcov g (List.mem_cons_of_mem f hg)
    rw [lastAnswer]
    rcases f.visit_cases (hcov f (.head _)) tx hist with ⟨hn, hr⟩ | ⟨hn, -, hr⟩ | ⟨hn, -, hr⟩
    · rw [walk_of_ne hr (by decide)] at hbad ⊢
      rw [ih hrest hbad, if_pos hn]
    · rw [walk_of_ne hr (by decide)] at hbad ⊢
      rw [ih hrest hbad, if_neg hn.ne']
    · by_cases hone : f.timesPaid h tx = 1
      · rw [if_pos hone] at hr
        exact absurd (by rw [walk, hr, if_pos rfl]) hbad
      · rw [if_neg hone] at hr
        rw [walk_of_ne hr (by decide)] at hbad ⊢
        rw [ih hrest hbad, if_neg hn.ne']

theorem visit_keeps (tx : Transaction) {f : FinalizedBudget} (hcov : f.covers h = true) {p : Nat}
    (hp : hist p = some h) :
    (f.isTransactionValid tx h hist).2 p = some h := by
  have hpruned : f.prune hist p = some h := FinalizedBudget.prune_eq_some.mpr ⟨hp, hcov⟩
  rcases f.visit_cases hcov tx hist with ⟨-, hr⟩ | ⟨-, -, hr⟩ | ⟨-, -, hr⟩ <;> rw [hr]
  · exact hp
  · exact hpruned
  · dsimp only
    by_cases hq : p = f.proposalAt h
    · rw [hq, Function.update_self]
    · rw [Function.update_of_ne hq, hpruned]

section
variable (hcov : ∀ f ∈ D, f.covers h = true)
include hcov

theorem walk_keeps {p : Nat} (hp : hist p = some h) :
    (walk tx h D status hist).2 p = some h := by
  induction D generalizing status hist with
  | nil => exact hp
  | cons f rest ih =>
    have hkept := visit_keeps tx (hcov f (.head _)) hp
    rw [walk]
    split_ifs
    · exact hkept
    · exact ih (fun g hg => hcov g (List.mem_cons_of_mem f hg)) hkept

/-- A walk that ends well has entered a proposal that was not there for this height. -/
theorem walk_enters (hs : status ≠ .valid)
    (hgood : (walk tx h D status hist).1 = .valid) :
    ∃ f ∈ D, hist (f.proposalAt h) ≠ some h ∧
      (walk tx h D status hist).2 (f.proposalAt h) = some h := by
  induction D generalizing status hist with
  | nil => exact absurd hgood hs
  | cons f rest ih =>
    have hf := hcov f (.head _)
    have hrest : ∀ g ∈ rest, g.covers h = true := fun g hg => hcov g (List.mem_cons_of_mem f hg)
    by_cases hvalid : (f.isTransactionValid tx h hist).1 = .valid
    · rw [walk, if_pos hvalid]
      rcases f.visit_cases hf tx hist with ⟨-, hr⟩ | ⟨-, -, hr⟩ | ⟨-, hno, hr⟩
      · rw [hr] at hvalid
        cases hvalid
      · rw [hr] at hvalid
        cases hvalid
      · refine ⟨f, .head _, fun hp => hno ⟨h, hp, hf⟩, ?_⟩
        rw [hr]
        exact Function.update_self ..
    · rw [walk_of_ne rfl hvalid] at hgood ⊢
      obtain ⟨g, hg, hnew, hin⟩ := ih hrest hvalid hgood
      exact ⟨g, List.mem_cons_of_mem f hg, fun hp => hnew (visit_keeps tx hf hp), hin⟩

theorem walk_entries {p : Nat} {k : Int}
    (hp : (walk tx h D status hist).2 p = some k) :
    hist p = some k ∨ k = h ∧ ∃ f ∈ D, 0 < f.timesPaid h tx ∧ f.proposalAt h = p := by
  induction D generalizing status hist with
  | nil => exact .inl hp
  | cons f rest ih =>
    have hvisit : (f.isTransactionValid tx h hist).2 p = some k →
        hist p = some k ∨ k = h ∧ ∃ g ∈ f :: rest, 0 < g.timesPaid h tx ∧ g.proposalAt h = p := by
      intro hin
      rcases f.visit_cases (hcov f (.head _)) tx hist with ⟨-, hr⟩ | ⟨-, -, hr⟩ | ⟨hn, -, hr⟩ <;>
        rw [hr] at hin
      · exact .inl hin
      · exact .inl (FinalizedBudget.prune_eq_some.mp hin).1
      · dsimp only at hin
        by_cases hq : p = f.proposalAt h
        · rw [hq, Function.update_self] at hin
          exact .inr ⟨(Option.some.inj hin).symm, f, .head _, hn, hq.symm⟩
        · rw [Function.update_of_ne hq] at hin
          exact .inl (FinalizedBudget.prune_eq_some.mp hin).1
    rw [walk] at hp
    split_ifs at hp
    · exact hvisit hp
    · rcases ih (fun g hg => hcov g (List.mem_cons_of_mem f hg)) hp with hold | ⟨hk, g, hg, hpaid⟩
      · exact hvisit hold
      · exact .inr ⟨hk, g, List.mem_cons_of_mem f hg, hpaid⟩

end

theorem exists_paid_of_lastAnswer (hs : status ≠ .doublePayment)
    (hlast : lastAnswer tx h D status = .doublePayment) : ∃ f ∈ D, 0 < f.timesPaid h tx := by
  induction D generalizing status with
  | nil => exact absurd hlast hs
  | cons f rest ih =>
    by_cases hn : f.timesPaid h tx = 0
    · rw [lastAnswer, if_pos hn] at hlast
      obtain ⟨g, hg, hpaid⟩ := ih (by decide) hlast
      exact ⟨g, List.mem_cons_of_mem f hg, hpaid⟩
    · exact ⟨f, .head _, Nat.pos_of_ne_zero hn⟩

/-- **Where every budget that is paid finds its proposal for good**, the answer is the
last one's, nothing that all of them cover leaves the history and nothing enters it. -/
theorem walk_recorded (status : TrxValidationStatus) (hcov : ∀ f ∈ D, f.covers h = true)
    (hfound : ∀ f ∈ D, 0 < f.timesPaid h tx → ∃ k, hist (f.proposalAt h) = some k ∧
      ∀ g ∈ D, 0 < g.timesPaid h tx → g.covers k = true) :
    (walk tx h D status hist).1 = lastAnswer tx h D status ∧
      (∀ p k, hist p = some k → (∀ g ∈ D, 0 < g.timesPaid h tx → g.covers k = true) →
        (walk tx h D status hist).2 p = some k) ∧
      ∀ p k, (walk tx h D status hist).2 p = some k → hist p = some k := by
  induction D generalizing status hist with
  | nil => exact ⟨rfl, fun p k hp _ => hp, fun p k hp => hp⟩
  | cons f rest ih =>
    have hrest : ∀ g ∈ rest, g.covers h = true := fun g hg => hcov g (List.mem_cons_of_mem f hg)
    rw [lastAnswer]
    rcases f.visit_cases (hcov f (.head _)) tx hist with ⟨hn, hr⟩ | ⟨hn, -, hr⟩ | ⟨hn, hno, -⟩
    · rw [walk_of_ne hr (by decide), if_pos hn]
      obtain ⟨hstatus, hkept, hold⟩ := ih _ hrest fun g hg hpos => by
        obtain ⟨k, hk, hall⟩ := hfound g (List.mem_cons_of_mem f hg) hpos
        exact ⟨k, hk, fun g' hg' => hall g' (List.mem_cons_of_mem f hg')⟩
      exact ⟨hstatus, fun p k hp hall =>
        hkept p k hp fun g hg => hall g (List.mem_cons_of_mem f hg), hold⟩
    · rw [walk_of_ne hr (by decide), if_neg hn.ne']
      obtain ⟨hstatus, hkept, hold⟩ := ih _ hrest fun g hg hpos => by
        obtain ⟨k, hk, hall⟩ := hfound g (List.mem_cons_of_mem f hg) hpos
        exact ⟨k, FinalizedBudget.prune_eq_some.mpr ⟨hk, hall f (.head _) hn⟩,
          fun g' hg' => hall g' (List.mem_cons_of_mem f hg')⟩
      exact ⟨hstatus, fun p k hp hall =>
        hkept p k (FinalizedBudget.prune_eq_some.mpr ⟨hp, hall f (.head _) hn⟩)
          fun g hg => hall g (List.mem_cons_of_mem f hg),
        fun p k hp => (FinalizedBudget.prune_eq_some.mp (hold p k hp)).1⟩
    · obtain ⟨k, hk, hall⟩ := hfound f (.head _) hn
      exact absurd ⟨k, hk, hall f (.head _) hn⟩ hno

/-- A walk that does not end well, over budgets that are paid once at most, finds what
is looked for and enters nothing. -/
theorem walk_bad (hcov : ∀ f ∈ D, f.covers h = true) (hone : ∀ f ∈ D, f.timesPaid h tx ≤ 1)
    (hbad : (walk tx h D status hist).1 ≠ .valid) :
    (∀ f ∈ D, 0 < f.timesPaid h tx → f.Finds h hist) ∧
      ∀ p k, (walk tx h D status hist).2 p = some k →
        hist p = some k ∧ ∀ f ∈ D, 0 < f.timesPaid h tx → f.covers k = true := by
  induction D generalizing status hist with
  | nil =>
    exact ⟨fun f hf => absurd hf List.not_mem_nil,
      fun p k hp => ⟨hp, fun f hf => absurd hf List.not_mem_nil⟩⟩
  | cons f rest ih =>
    have hrest : ∀ g ∈ rest, g.covers h = true := fun g hg => hcov g (List.mem_cons_of_mem f hg)
    have honce : ∀ g ∈ rest, g.timesPaid h tx ≤ 1 := fun g hg => hone g (List.mem_cons_of_mem f hg)
    rcases f.visit_cases (hcov f (.head _)) tx hist with ⟨hn, hr⟩ | ⟨hn, hf, hr⟩ | ⟨hn, -, hr⟩
    · rw [walk_of_ne hr (by decide)] at hbad ⊢
      obtain ⟨hfinds, hold⟩ := ih hrest honce hbad
      refine ⟨fun g hg hpos => ?_, fun p k hp => ⟨(hold p k hp).1, fun g hg hpos => ?_⟩⟩
      · rcases List.mem_cons.mp hg with rfl | hg
        · omega
        · exact hfinds g hg hpos
      · rcases List.mem_cons.mp hg with rfl | hg
        · omega
        · exact (hold p k hp).2 g hg hpos
    · rw [walk_of_ne hr (by decide)] at hbad ⊢
      obtain ⟨hfinds, hold⟩ := ih hrest honce hbad
      refine ⟨fun g hg hpos => ?_, fun p k hp => ?_⟩
      · rcases List.mem_cons.mp hg with rfl | hg
        · exact hf
        · obtain ⟨k, hk, hgk⟩ := hfinds g hg hpos
          exact ⟨k, (FinalizedBudget.prune_eq_some.mp hk).1, hgk⟩
      · obtain ⟨hpruned, hall⟩ := hold p k hp
        obtain ⟨hpast, hfk⟩ := FinalizedBudget.prune_eq_some.mp hpruned
        refine ⟨hpast, fun g hg hpos => ?_⟩
        rcases List.mem_cons.mp hg with rfl | hg
        · exact hfk
        · exact hall g hg hpos
    · rw [if_pos (by have := hone f List.mem_cons_self; omega)] at hr
      exact absurd (by rw [walk, hr, if_pos rfl]) hbad

end

namespace Payments

variable (M : Payments) (h : Int)

/-- The node with another payment history. -/
def withHistory (hist : PaymentHistory) : Payments := { M with mapPaymentHistory := hist }

/-- The highest count is below five percent of the masternodes. -/
def fewVotes : Bool := (M.grabBudget h 0).1 < (M.countEnabled / 20 : Nat)

/-- `nCountThreshold` -/
def countThreshold : Int := (M.grabBudget h 0).1 - (M.countEnabled / 10 : Nat)

/-- **The budgets that are due** at a height. -/
def due : List FinalizedBudget :=
  if M.fewVotes h then []
  else M.mapFinalizedBudgets.filter fun f => M.countThreshold h < f.voteCount && f.covers h

/-- The answer where no budget is due. -/
def startStatus : TrxValidationStatus :=
  if M.fewVotes h || M.mapFinalizedBudgets.any fun f => M.countThreshold h < f.voteCount then .inValid
  else .voteThreshold

variable {M h}

theorem covers_of_due {f : FinalizedBudget} (hf : f ∈ M.due h) : f.covers h = true := by
  rw [due] at hf
  split_ifs at hf with hfew
  · cases hf
  · exact (Bool.and_eq_true_iff.mp (List.mem_filter.mp hf).2).2

theorem startStatus_ne : M.startStatus h ≠ .valid ∧ M.startStatus h ≠ .doublePayment := by
  rw [startStatus]
  split_ifs
  · exact ⟨by decide, by decide⟩
  · exact ⟨by decide, by decide⟩

/-- The loop over all budgets is a walk over those in whose window the height is and
that have votes enough. -/
theorem checkBudgets_eq (threshold : Int) (tx : Transaction) (h : Int) (budgets : List FinalizedBudget)
    (status : TrxValidationStatus) (fThreshold : Bool) (hist : PaymentHistory) :
    checkBudgets threshold tx h budgets status fThreshold hist =
      if fThreshold || budgets.any fun f => threshold < f.voteCount then
        walk tx h (budgets.filter fun f => threshold < f.voteCount && f.covers h) status hist
      else (.voteThreshold, hist) := by
  induction budgets generalizing status fThreshold hist with
  | nil => cases fThreshold <;> rfl
  | cons f rest ih =>
    rw [checkBudgets]
    by_cases hvotes : threshold < f.voteCount
    · rw [if_pos hvotes, List.any_cons, decide_eq_true hvotes, Bool.true_or, Bool.or_true, if_pos rfl,
        List.filter_cons, decide_eq_true hvotes, Bool.true_and]
      by_cases hcov : f.covers h = true
      · rw [if_pos hcov, if_pos hcov, walk]
        dsimp only
        split_ifs with hvalid
        · rfl
        · rw [ih, Bool.true_or, if_pos rfl]
      · rw [if_neg hcov, if_neg hcov, ih, Bool.true_or, if_pos rfl]
    · rw [if_neg hvotes, ih, List.any_cons, decide_eq_false hvotes, Bool.false_or, List.filter_cons,
        decide_eq_false hvotes, Bool.false_and, if_neg Bool.false_ne_true]

/-- **The check of a block is a walk over the budgets that are due.** -/
theorem budgetIsTransactionValid_eq (M : Payments) (tx : Transaction) (h : Int) (hist : PaymentHistory) :
    (M.withHistory hist).budgetIsTransactionValid tx h = walk tx h (M.due h) (M.startStatus h) hist := by
  rw [budgetIsTransactionValid, due, startStatus]
  show (if (M.grabBudget h 0).1 < (M.countEnabled / 20 : Nat) then (.inValid, hist) else
    checkBudgets (M.countThreshold h) tx h M.mapFinalizedBudgets .inValid false hist) = _
  by_cases hfew : (M.grabBudget h 0).1 < (M.countEnabled / 20 : Nat)
  · have : M.fewVotes h = true := decide_eq_true hfew
    rw [if_pos hfew, this, if_pos rfl, Bool.true_or, if_pos rfl, walk]
  · have : M.fewVotes h = false := decide_eq_false hfew
    rw [if_neg hfew, checkBudgets_eq, this, if_neg Bool.false_ne_true, Bool.false_or]
    split_ifs with hany
    · rfl
    · -- nothing passes the threshold, so nothing is due
      rw [List.filter_eq_nil_iff.mpr fun f hf hsel => hany (List.any_eq_true.mpr
        ⟨f, hf, (Bool.and_eq_true_iff.mp hsel).1⟩), walk]

end Payments

end Rapids.Chain
