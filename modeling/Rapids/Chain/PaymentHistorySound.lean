import Rapids.Chain.PaymentHistory
import Rapids.Lib.Run

/-!
# Rapids.Chain.PaymentHistorySound

When the check of a budget payment can be made again, and when a double payment that it
reports is one.

**Repeatable.** At a height the checks of some blocks always give the same answers if
every due budget that one of them pays is **recorded**: its proposal is in the payment
history, for a block in the windows of all the due budgets that they pay. If no block of
them pays a budget twice, that is also needed. In particular no block is accepted again
for the payment it was accepted for.

**Justified.** The history is **backed** by the chain as long as a block that pays a budget
is checked just once, when it is connected, and is not disconnected. Then a double payment
is reported only if a block below has paid.
-/

namespace Rapids.Chain

open Rapids.Lib

namespace Payments

/-! ### Repeatable checks -/

/-- The history after checks of transactions at a height. -/
def checked (M : Payments) (h : Int) (txs : List Transaction) : PaymentHistory :=
  txs.foldl (fun hist tx => ((M.withHistory hist).budgetIsTransactionValid tx h).2) M.mapPaymentHistory

/-- **Checks at a height are repeatable** for some transactions: after any checks of them
the answer for each is what it is now. -/
def Repeatable (M : Payments) (h : Int) (S : Transaction → Prop) : Prop :=
  ∀ tx, S tx → ∀ txs, (∀ t ∈ txs, S t) →
    ((M.withHistory (M.checked h txs)).budgetIsTransactionValid tx h).1 =
      (M.budgetIsTransactionValid tx h).1

/-- Every due budget that one of the transactions pays has its proposal in the history,
for a block in the windows of all the due budgets they pay. -/
def Recorded (M : Payments) (h : Int) (S : Transaction → Prop) : Prop :=
  ∀ tx, S tx → ∀ f ∈ M.due h, 0 < f.timesPaid h tx → ∃ k, M.mapPaymentHistory (f.proposalAt h) = some k ∧
    ∀ tx', S tx' → ∀ g ∈ M.due h, 0 < g.timesPaid h tx' → g.covers k = true

/-- The same, for whatever may be paid. -/
def AllRecorded (M : Payments) (h : Int) : Prop :=
  ∀ f ∈ M.due h, ∃ k, M.mapPaymentHistory (f.proposalAt h) = some k ∧ ∀ g ∈ M.due h, g.covers k = true

section
variable {M : Payments} {h : Int} {tx : Transaction} {S : Transaction → Prop}

theorem budgetIsTransactionValid_walk (M : Payments) (tx : Transaction) (h : Int) :
    M.budgetIsTransactionValid tx h = walk tx h (M.due h) (M.startStatus h) M.mapPaymentHistory :=
  budgetIsTransactionValid_eq M tx h M.mapPaymentHistory

theorem checked_cons (t : Transaction) (txs : List Transaction) :
    M.checked h (t :: txs) =
      (M.withHistory (M.budgetIsTransactionValid t h).2).checked h txs := rfl

theorem Recorded.found (hrec : M.Recorded h S) (htx : S tx) :
    ∀ f ∈ M.due h, 0 < f.timesPaid h tx → ∃ k, M.mapPaymentHistory (f.proposalAt h) = some k ∧
      ∀ g ∈ M.due h, 0 < g.timesPaid h tx → g.covers k = true := by
  intro f hf hpos
  obtain ⟨k, hk, hall⟩ := hrec tx htx f hf hpos
  exact ⟨k, hk, hall tx htx⟩

theorem Recorded.answer (hrec : M.Recorded h S) (htx : S tx) :
    (M.budgetIsTransactionValid tx h).1 = lastAnswer tx h (M.due h) (M.startStatus h) := by
  rw [budgetIsTransactionValid_walk]
  exact (walk_recorded _ (fun f hf => covers_of_due hf) (hrec.found htx)).1

theorem Recorded.check (hrec : M.Recorded h S) (htx : S tx) :
    (M.withHistory (M.budgetIsTransactionValid tx h).2).Recorded h S := by
  have hkept := (walk_recorded (M.startStatus h) (fun f hf => covers_of_due hf)
    (hrec.found htx)).2.1
  intro t ht f hf hpos
  obtain ⟨k, hk, hall⟩ := hrec t ht f hf hpos
  refine ⟨k, ?_, hall⟩
  show (M.budgetIsTransactionValid tx h).2 (f.proposalAt h) = some k
  rw [budgetIsTransactionValid_walk]
  exact hkept _ k hk (hall tx htx)

theorem Recorded.repeatable (hrec : M.Recorded h S) : M.Repeatable h S := by
  intro tx htx txs hall
  suffices hanswer : ((M.withHistory (M.checked h txs)).budgetIsTransactionValid tx h).1 =
      lastAnswer tx h (M.due h) (M.startStatus h) from hanswer.trans (hrec.answer htx).symm
  induction txs generalizing M with
  | nil => exact hrec.answer htx
  | cons t rest ih =>
    rw [checked_cons]
    exact ih (hrec.check (hall t (.head _))) fun x hx => hall x (List.mem_cons_of_mem t hx)

/-- How many due budgets are not entered at the height. -/
def unentered (M : Payments) (h : Int) : Nat :=
  (M.due h).countP fun f => M.mapPaymentHistory (f.proposalAt h) ≠ some h

theorem unentered_lt (hgood : (M.budgetIsTransactionValid tx h).1 = .valid) :
    (M.withHistory (M.budgetIsTransactionValid tx h).2).unentered h < M.unentered h := by
  have hcov : ∀ f ∈ M.due h, f.covers h = true := fun f hf => covers_of_due hf
  rw [budgetIsTransactionValid_walk] at hgood ⊢
  obtain ⟨f, hf, hnew, hin⟩ := walk_enters hcov startStatus_ne.1 hgood
  have hle : ∀ l : List FinalizedBudget, l.countP (fun f => decide
      ((walk tx h (M.due h) (M.startStatus h) M.mapPaymentHistory).2 (f.proposalAt h) ≠ some h)) ≤
      l.countP fun f => decide (M.mapPaymentHistory (f.proposalAt h) ≠ some h) := by
    intro l
    refine List.countP_mono_left fun g _ hg => ?_
    simp only [ne_eq, decide_eq_true_eq] at hg ⊢
    exact fun hp => hg (walk_keeps hcov hp)
  rw [unentered, unentered]
  show (M.due h).countP (fun f => decide
    ((walk tx h (M.due h) (M.startStatus h) M.mapPaymentHistory).2 (f.proposalAt h) ≠ some h)) < _
  obtain ⟨l₁, l₂, hsplit⟩ := List.append_of_mem hf
  have h1 := hle l₁
  have h2 := hle l₂
  generalize hout : (walk tx h (M.due h) (M.startStatus h) M.mapPaymentHistory).2 = out at hin h1 h2 ⊢
  rw [hsplit, List.countP_append, List.countP_append, List.countP_cons_of_neg (by simp [hin]),
    List.countP_cons_of_pos (by simpa using hnew)]
  omega

theorem exists_not_valid (M : Payments) (h : Int) (tx : Transaction) :
    ∃ n, ((M.withHistory (M.checked h (List.replicate n tx))).budgetIsTransactionValid tx h).1 ≠ .valid := by
  generalize hm : M.unentered h = m
  induction m using Nat.strong_induction_on generalizing M with
  | _ m ih =>
    by_cases hgood : (M.budgetIsTransactionValid tx h).1 = .valid
    · obtain ⟨n, hn⟩ := ih _ (hm ▸ unentered_lt hgood) _ rfl
      exact ⟨n + 1, hn⟩
    · exact ⟨0, hgood⟩

theorem Repeatable.bad (hrep : M.Repeatable h S) (htx : S tx) (txs : List Transaction)
    (hall : ∀ t ∈ txs, S t) :
    ((M.withHistory (M.checked h txs)).budgetIsTransactionValid tx h).1 ≠ .valid := by
  obtain ⟨n, hn⟩ := exists_not_valid M h tx
  have hsame := hrep tx htx (List.replicate n tx) fun t ht => List.eq_of_mem_replicate ht ▸ htx
  rw [hrep tx htx txs hall, ← hsame]
  exact hn

/-- Answers about transactions that pay no budget twice change unless all is recorded. -/
theorem Repeatable.recorded (hone : ∀ tx, S tx → ∀ f ∈ M.due h, f.timesPaid h tx ≤ 1)
    (hrep : M.Repeatable h S) : M.Recorded h S := by
  have hcov : ∀ f ∈ M.due h, f.covers h = true := fun f hf => covers_of_due hf
  have hbad : ∀ t, S t → (walk t h (M.due h) (M.startStatus h) M.mapPaymentHistory).1 ≠ .valid := by
    intro t ht
    rw [← budgetIsTransactionValid_walk]
    exact hrep.bad ht [] fun _ hx => absurd hx List.not_mem_nil
  intro tx htx f hf hpos
  obtain ⟨k, hk, -⟩ := (walk_bad hcov (hone tx htx) (hbad tx htx)).1 f hf hpos
  refine ⟨k, hk, fun t ht g hg hgpos => ?_⟩
  -- after a check of the other one the proposal is still found
  have hafter : (walk tx h (M.due h) (M.startStatus h)
      (walk t h (M.due h) (M.startStatus h) M.mapPaymentHistory).2).1 ≠ .valid := by
    rw [← budgetIsTransactionValid_eq, ← budgetIsTransactionValid_walk]
    exact hrep.bad htx [t] fun x hx => List.mem_singleton.mp hx ▸ ht
  obtain ⟨k', hk', -⟩ := (walk_bad hcov (hone tx htx) hafter).1 f hf hpos
  obtain ⟨hold, hcovers⟩ := (walk_bad hcov (hone t ht) (hbad t ht)).2 _ k' hk'
  rw [Option.some.inj (hk.symm.trans hold)]
  exact hcovers g hg hgpos

theorem exists_payingTx {f : FinalizedBudget} (hf : f ∈ M.due h) :
    ∃ tx, 0 < f.timesPaid h tx ∧ ∀ g ∈ M.due h, g.timesPaid h tx ≤ 1 := by
  have hcov := covers_of_due hf
  simp only [FinalizedBudget.covers, Bool.and_eq_true, decide_eq_true_eq] at hcov
  rw [FinalizedBudget.blockEnd] at hcov
  have hlt : (h - f.nBlockStart).toNat < f.vecBudgetPayments.length := by omega
  have hpay : f.paymentByBlock h = some (f.vecBudgetPayments.get ⟨_, hlt⟩) := by
    rw [FinalizedBudget.paymentByBlock, if_neg (by omega), List.getElem?_eq_getElem hlt]
    rfl
  generalize f.vecBudgetPayments.get ⟨_, hlt⟩ = pay at hpay
  refine ⟨⟨0, [], [⟨pay.nAmount, pay.payee⟩]⟩, ?_, fun g _ => ?_⟩
  · rw [FinalizedBudget.timesPaid, hpay]
    simp [TxBudgetPayment.madeBy]
  · rw [FinalizedBudget.timesPaid]
    cases g.paymentByBlock h with
    | none => exact Nat.zero_le 1
    | some pay' => exact List.countP_le_length

theorem repeatable_all_iff : M.Repeatable h (fun _ => True) ↔ M.AllRecorded h := by
  constructor
  · intro hrep f hf
    obtain ⟨tx, hpos, hone⟩ := exists_payingTx hf
    have hsingle : M.Repeatable h fun t => ∀ g ∈ M.due h, g.timesPaid h t ≤ 1 :=
      fun t _ txs _ => hrep t trivial txs fun _ _ => trivial
    obtain ⟨k, hk, hall⟩ := hsingle.recorded (fun _ ht => ht) tx hone f hf hpos
    refine ⟨k, hk, fun g hg => ?_⟩
    obtain ⟨t, hgpos, hgone⟩ := exists_payingTx hg
    exact hall t hgone g hg hgpos
  · intro hall
    refine Recorded.repeatable fun tx _ f hf _ => ?_
    obtain ⟨k, hk, hcovers⟩ := hall f hf
    exact ⟨k, hk, fun _ _ g hg _ => hcovers g hg⟩

/-- The proposals that a transaction pays at a height, by any finalized budget. -/
def proposalsPaid (M : Payments) (h : Int) (tx : Transaction) : List Nat :=
  (M.mapFinalizedBudgets.filter fun f => decide (0 < f.timesPaid h tx)).map fun f => f.proposalAt h

theorem mem_proposalsPaid {f : FinalizedBudget} (hf : f ∈ M.due h) (hpos : 0 < f.timesPaid h tx) :
    f.proposalAt h ∈ M.proposalsPaid h tx := by
  rw [due] at hf
  split_ifs at hf with hfew
  · cases hf
  · exact List.mem_map.mpr ⟨f, List.mem_filter.mpr ⟨(List.mem_filter.mp hf).1, decide_eq_true hpos⟩, rfl⟩

end

end Payments

/-! ### Double payments -/

/-- The paying transaction of a block that is connected, and the proposals it pays. -/
structure PaidBlock where
  tx : Transaction
  proposals : List Nat

/-- A node that checks payments, and its active chain from the first block on. -/
structure BudgetNode where
  payments : Payments
  chain : List PaidBlock

/-- What happens to it: votes, budgets, masternodes and sporks change; a block is checked,
connected (and checked on the way), or disconnected. -/
inductive BudgetEvent
  | update (M : Payments)
  | check (h : Int) (tx : Transaction)
  | connect (tx : Transaction)
  | disconnect

namespace BudgetNode

/-- The height of the next block. -/
def nextHeight (n : BudgetNode) : Int := n.chain.length

def step (n : BudgetNode) : BudgetEvent → BudgetNode
  | .update M => { n with payments := M.withHistory n.payments.mapPaymentHistory }
  | .check h tx => { n with payments := n.payments.withHistory (n.payments.budgetIsTransactionValid tx h).2 }
  | .connect tx =>
    { payments := n.payments.withHistory (n.payments.budgetIsTransactionValid tx n.nextHeight).2
      chain := n.chain ++ [⟨tx, n.payments.proposalsPaid n.nextHeight tx⟩] }
  | .disconnect => { n with chain := n.chain.dropLast }

/-- A double payment is reported for a height only if **a block below on the active
chain, in the window of the budget, paid the proposal**. -/
def JustifiedAt (n : BudgetNode) (h : Int) (tx : Transaction) : Prop :=
  (n.payments.budgetIsTransactionValid tx h).1 = .doublePayment →
    ∃ f ∈ n.payments.due h, 0 < f.timesPaid h tx ∧ ∃ (k : Nat) (b : PaidBlock), (k : Int) < h ∧
      f.covers k = true ∧ n.chain[k]? = some b ∧ f.proposalAt h ∈ b.proposals

/-- What a step reports is justified. -/
def Justified (n : BudgetNode) : BudgetEvent → Prop
  | .check h tx => n.JustifiedAt h tx
  | .connect tx => n.JustifiedAt n.nextHeight tx
  | _ => True

/-- **The condition on a step**: a check apart from connecting is of a transaction whose
payments are all recorded for blocks below; a block that is connected pays no due budget
twice; and a block that is disconnected has entered nothing that is still there. -/
def Orderly (n : BudgetNode) : BudgetEvent → Prop
  | .update _ => True
  | .check h tx => ∀ f ∈ n.payments.due h, 0 < f.timesPaid h tx →
      ∃ k, n.payments.mapPaymentHistory (f.proposalAt h) = some k ∧ k < h ∧
        ∀ g ∈ n.payments.due h, 0 < g.timesPaid h tx → g.covers k = true
  | .connect tx => ∀ f ∈ n.payments.due n.nextHeight, f.timesPaid n.nextHeight tx ≤ 1
  | .disconnect => ∀ p, n.payments.mapPaymentHistory p ≠ some (n.nextHeight - 1)

/-- Every payment of the history was made by a block of the active chain. -/
def Backed (n : BudgetNode) : Prop :=
  ∀ p k, n.payments.mapPaymentHistory p = some k →
    ∃ (i : Nat) (b : PaidBlock), k = i ∧ n.chain[i]? = some b ∧ p ∈ b.proposals

variable {n : BudgetNode}

theorem Backed.lt_nextHeight (hb : n.Backed) {p : Nat} {k : Int}
    (hp : n.payments.mapPaymentHistory p = some k) : k < n.nextHeight := by
  obtain ⟨i, b, rfl, hi, -⟩ := hb p k hp
  obtain ⟨hlt, -⟩ := List.getElem?_eq_some_iff.mp hi
  rw [nextHeight]
  omega

/-- A report is justified where the budgets that are paid find their proposals, all for
blocks below. -/
theorem Backed.justifiedAt (hb : n.Backed) {h : Int} {tx : Transaction}
    (hfinds : (n.payments.budgetIsTransactionValid tx h).1 ≠ .valid → ∀ f ∈ n.payments.due h,
      0 < f.timesPaid h tx → ∃ k, n.payments.mapPaymentHistory (f.proposalAt h) = some k ∧ k < h ∧
        f.covers k = true) : n.JustifiedAt h tx := by
  intro hdouble
  have hbad : (n.payments.budgetIsTransactionValid tx h).1 ≠ .valid := by
    rw [hdouble]
    decide
  have hlast := hdouble
  rw [Payments.budgetIsTransactionValid_walk] at hlast
  rw [walk_status (fun f hf => Payments.covers_of_due hf) (by
    rw [← Payments.budgetIsTransactionValid_walk]
    exact hbad)] at hlast
  obtain ⟨f, hf, hpos⟩ := exists_paid_of_lastAnswer Payments.startStatus_ne.2 hlast
  obtain ⟨k, hk, hlt, hcov⟩ := hfinds hbad f hf hpos
  obtain ⟨i, b, rfl, hi, hp⟩ := hb _ k hk
  exact ⟨f, hf, hpos, i, b, hlt, hcov, hi, hp⟩

theorem Backed.justified (hb : n.Backed) {e : BudgetEvent} (he : n.Orderly e) : n.Justified e := by
  cases e with
  | update M => exact trivial
  | disconnect => exact trivial
  | check h tx =>
    refine hb.justifiedAt fun _ f hf hpos => ?_
    obtain ⟨k, hk, hlt, hall⟩ := he f hf hpos
    exact ⟨k, hk, hlt, hall f hf hpos⟩
  | connect tx =>
    refine hb.justifiedAt fun hbad f hf hpos => ?_
    rw [Payments.budgetIsTransactionValid_walk] at hbad
    obtain ⟨k, hk, hcov⟩ := (walk_bad (fun f hf => Payments.covers_of_due hf) he hbad).1 f hf hpos
    exact ⟨k, hk, hb.lt_nextHeight hk, hcov⟩

theorem Backed.step (hb : n.Backed) {e : BudgetEvent} (he : n.Orderly e) : (n.step e).Backed := by
  cases e with
  | update M => exact hb
  | check h tx =>
    intro p k hp
    have hfound : ∀ f ∈ n.payments.due h, 0 < f.timesPaid h tx →
        ∃ k, n.payments.mapPaymentHistory (f.proposalAt h) = some k ∧
          ∀ g ∈ n.payments.due h, 0 < g.timesPaid h tx → g.covers k = true := by
      intro f hf hpos
      obtain ⟨k, hk, -, hall⟩ := he f hf hpos
      exact ⟨k, hk, hall⟩
    refine hb p k ((walk_recorded (n.payments.startStatus h)
      (fun f hf => Payments.covers_of_due hf) hfound).2.2 p k ?_)
    rw [← Payments.budgetIsTransactionValid_walk]
    exact hp
  | connect tx =>
    intro p k hp
    have hin : (n.payments.budgetIsTransactionValid tx n.nextHeight).2 p = some k := hp
    rw [Payments.budgetIsTransactionValid_walk] at hin
    rcases walk_entries (fun f hf => Payments.covers_of_due hf) hin with hold | ⟨rfl, f, hf, hpos, rfl⟩
    · obtain ⟨i, b, rfl, hi, hp⟩ := hb p k hold
      obtain ⟨hlt, -⟩ := List.getElem?_eq_some_iff.mp hi
      exact ⟨i, b, rfl, (List.getElem?_append_left hlt).trans hi, hp⟩
    · exact ⟨n.chain.length, _, rfl, List.getElem?_concat_length, Payments.mem_proposalsPaid hf hpos⟩
  | disconnect =>
    intro p k hp
    obtain ⟨i, b, rfl, hi, hmem⟩ := hb p k hp
    obtain ⟨hlt, -⟩ := List.getElem?_eq_some_iff.mp hi
    -- the entry is not of the block that goes
    have hne : (i : Int) ≠ n.nextHeight - 1 := fun heq => he p (heq ▸ hp)
    rw [nextHeight] at hne
    refine ⟨i, b, rfl, ?_, hmem⟩
    show n.chain.dropLast[i]? = some b
    rw [List.getElem?_dropLast, if_pos (by omega)]
    exact hi

/-- A node that starts: nothing is paid and nothing is connected. -/
def start (M : Payments) : BudgetNode := ⟨M.withHistory fun _ => none, []⟩

theorem backed_start (M : Payments) : (start M).Backed := by
  intro p k hp
  cases hp

end BudgetNode

/-- **When checks of budget payments are repeatable**: at a height, all of them exactly if
every due budget is recorded; those of some transactions that pay no due budget twice
exactly if what they pay is recorded. **And when double payments are real**: in every run
whose steps meet the condition. -/
theorem budget_checks_repeatable (M : Payments) (h : Int) :
    (M.Repeatable h (fun _ => True) ↔ M.AllRecorded h) ∧
    (∀ S : Transaction → Prop, (∀ tx, S tx → ∀ f ∈ M.due h, f.timesPaid h tx ≤ 1) →
      (M.Repeatable h S ↔ M.Recorded h S)) ∧
    ∀ es, Along BudgetNode.step BudgetNode.Orderly (.start M) es →
      Along BudgetNode.step BudgetNode.Justified (.start M) es := by
  refine ⟨Payments.repeatable_all_iff, fun S hone => ⟨fun hrep => hrep.recorded hone, fun hrec =>
    hrec.repeatable⟩, fun es hes => ?_⟩
  exact hes.imp (fun n e hb he => BudgetNode.Backed.step hb he)
    (fun n e hb he => BudgetNode.Backed.justified hb he) (BudgetNode.backed_start M)

/-! ### Examples -/

/-- Ten masternodes, and a budget that pays in two blocks. -/
def budgetPayments : Payments where
  synced := true
  paymentEnforcement := true
  budgetEnforcement := true
  superblocks := true
  countEnabled := 10
  nBestHeight := 0
  mapFinalizedBudgets := [⟨5, 0, [⟨[0x51], 40, 77⟩, ⟨[0x52], 60, 78⟩]⟩]
  mapPaymentHistory := fun _ => none
  mapMasternodeBlocks := fun _ => none
  currentMasterNode := none

/-- A transaction that makes one payment. -/
def payOnce (nValue : Int) (script : Script) : Transaction := ⟨1, [], [⟨nValue, script⟩]⟩

/-- A block that pays something else is checked as often as one likes, and blocks that
are checked when they are connected and pay each proposal once report nothing. -/
theorem budget_checks_repeatable_connected :
    budgetPayments.Repeatable 0 (fun tx => tx = payOnce 7 []) ∧
      ¬budgetPayments.AllRecorded 0 ∧
      Along BudgetNode.step BudgetNode.Justified (.start budgetPayments)
        [.connect (payOnce 40 [0x51]), .connect (payOnce 60 [0x52]), .check 5 (payOnce 40 [0x51])] := by
  obtain ⟨hall, hsome, hrun⟩ := budget_checks_repeatable budgetPayments 0
  refine ⟨(hsome (fun tx => tx = payOnce 7 []) ?_).mpr ?_, ?_, hrun _ ⟨?_, ?_, ?_, trivial⟩⟩
  · rintro tx rfl
    decide +kernel
  · rintro tx rfl f hf hpos
    have hnone : ∀ f ∈ budgetPayments.due 0, f.timesPaid 0 (payOnce 7 []) = 0 := by decide +kernel
    exact absurd (hnone f hf) hpos.ne'
  · intro hrec
    obtain ⟨k, hk, -⟩ := hrec ⟨5, 0, [⟨[0x51], 40, 77⟩, ⟨[0x52], 60, 78⟩]⟩ (by decide +kernel)
    cases hk
  · show ∀ f ∈ _, _
    decide +kernel
  · show ∀ f ∈ _, _
    decide +kernel
  · have hnone : (((BudgetNode.start budgetPayments).step (.connect (payOnce 40 [0x51]))).step
        (.connect (payOnce 60 [0x52]))).payments.due 5 = [] := by decide +kernel
    intro f hf
    rw [hnone] at hf
    cases hf

/-- A block that is checked when it arrives and again when it is connected pays twice,
though it is the first one. -/
theorem budget_check_again :
    ¬ ∀ (M : Payments), (∀ h, M.Repeatable h fun _ => True) ∧
      ∀ es, Along BudgetNode.step BudgetNode.Justified (.start M) es := by
  intro hall
  obtain ⟨hrep, -⟩ := hall budgetPayments
  have hsame := hrep 0 (payOnce 40 [0x51]) trivial [payOnce 40 [0x51]] fun _ _ => trivial
  revert hsame
  decide +kernel

/-- The report of the second check. -/
example : (((BudgetNode.start budgetPayments).step (.check 0 (payOnce 40 [0x51]))).payments
    |>.budgetIsTransactionValid (payOnce 40 [0x51]) 0).1 = .doublePayment := by
  decide +kernel

end Rapids.Chain
