import Mathlib.Algebra.Order.BigOperators.Group.List
import Rapids.Masternode.Budget

/-!
# Rapids.Masternode.BudgetSound

**What the checks of budgets and proposals give.**

A finalized budget is compared with the total budget by the sum of its payments, in 64 bits and
with their signs, and no payment is looked at on its own. So an accepted budget is within the
total budget if and only if no payment is negative and the sum fits (`accepted_budget_within_iff`).

A proposal for `n` payments ends `n` blocks after its last cycle. These blocks make no
difference, as a cycle has more than `n` blocks: there are exactly `n` superblocks in which it can
be paid, and it is kept to the end of the last one (`proposal_payable_in_its_cycles`).
-/

namespace Rapids.Masternode

open Rapids.Lib Rapids.Chain

/-! ### The total budget -/

theorem budgetSubsidy_bounds (isPoSActive isZCV2Active : Bool) (nHeight : Int) :
    5 * coin ≤ budgetSubsidy isPoSActive isZCV2Active nHeight ∧
      budgetSubsidy isPoSActive isZCV2Active nHeight ≤ 50 * coin := by
  have hite : ∀ {c : Prop} [Decidable c] {x y : Int}, 5 * coin ≤ x ∧ x ≤ 50 * coin →
      5 * coin ≤ y ∧ y ≤ 50 * coin →
      5 * coin ≤ (if c then x else y) ∧ (if c then x else y) ≤ 50 * coin := by
    intro c _ x y hx hy
    by_cases hc : c
    · rwa [if_pos hc]
    · rwa [if_neg hc]
  rw [budgetSubsidy]
  repeat' apply hite
  all_goals decide

theorem getTotalBudget_bounds {P : BudgetParams} {nHeight total : Int} (h : getTotalBudget P nHeight = some total) :
    0 < total ∧ total ≤ 648000 * coin := by
  have hcoin : coin = 100000000 := rfl
  rw [getTotalBudget] at h
  by_cases htest : P.testnet = true
  · rw [if_pos htest] at h
    cases h
    decide
  rw [if_neg htest] at h
  by_cases hneg : nHeight < 0
  · rw [if_pos hneg] at h
    cases h
  rw [if_neg hneg] at h
  by_cases hfirst : nHeight ≤ 172800
  · rw [if_pos hfirst] at h
    cases h
    omega
  · rw [if_neg hfirst] at h
    cases h
    obtain ⟨hlow, hhigh⟩ := budgetSubsidy_bounds (networkUpgradeActive P.upgradePos nHeight.toNat)
      (networkUpgradeActive P.upgradeZCV2 nHeight.toNat) nHeight
    rw [Int.tdiv_eq_ediv_of_nonneg (by omega)]
    omega

/-! ### Accepted finalized budgets -/

section Finalized

variable {P : BudgetParams} {findProposal : Nat → Option BudgetProposal} {collateral : Option String}
  {nCurrentHeight : Int} {fCheckCollateral : Bool} {f : CheckedBudget}

/-- The exact sum of the payments. -/
def CheckedBudget.exactPayout (f : CheckedBudget) : Int := (f.vecBudgetPayments.map TxBudgetPayment.nAmount).sum

theorem getTotalPayout_eq (f : CheckedBudget) : f.getTotalPayout = toI64 f.exactPayout := by
  have hfold : ∀ (l : List TxBudgetPayment) (ret : Int),
      l.foldl (fun ret p => toI64 (ret + p.nAmount)) (toI64 ret) =
        toI64 (ret + (l.map TxBudgetPayment.nAmount).sum) := by
    intro l
    induction l with
    | nil => intro ret; simp
    | cons p rest ih =>
      intro ret
      rw [List.foldl_cons, toI64_toI64_add, ih, List.map_cons, List.sum_cons, Int.add_assoc]
  have hzero := hfold f.vecBudgetPayments 0
  rw [Int.zero_add] at hzero
  exact hzero

theorem of_ite_error {c : Prop} [Decidable c] {e : String} {x : Option (Except String Unit)}
    (h : (if c then some (.error e) else x) = some (.ok ())) : x = some (.ok ()) := by
  by_cases hc : c
  · rw [if_pos hc] at h
    cases h
  · rwa [if_neg hc] at h

theorem getTotalPayout_of_accepted
    (h : f.updateValid P findProposal collateral nCurrentHeight fCheckCollateral = some (.ok ())) :
    ∃ total, getTotalBudget P f.nBlockStart = some total ∧ f.getTotalPayout ≤ total := by
  rw [CheckedBudget.updateValid] at h
  have hlast := of_ite_error (of_ite_error (of_ite_error (of_ite_error (of_ite_error (of_ite_error h)))))
  obtain ⟨total, htotal, hchecks⟩ := Option.map_eq_some_iff.mp hlast
  refine ⟨total, htotal, ?_⟩
  by_contra hmore
  rw [if_pos (Int.not_le.mp hmore)] at hchecks
  cases hchecks

/-- Every payment is between 0 and the total budget, and so is their sum. -/
def CheckedBudget.Within (f : CheckedBudget) (total : Int) : Prop :=
  (∀ p ∈ f.vecBudgetPayments, 0 ≤ p.nAmount ∧ p.nAmount ≤ total) ∧ f.exactPayout ≤ total

/-- **An accepted finalized budget is within the total budget** if no payment is negative and the
sum fits 64 bits, and only then. -/
theorem accepted_budget_within_iff (network : Network)
    (h : f.updateValid (budgetParams network) findProposal collateral nCurrentHeight fCheckCollateral =
      some (.ok ())) :
    ∃ total, getTotalBudget (budgetParams network) f.nBlockStart = some total ∧
      (f.Within total ↔ (∀ p ∈ f.vecBudgetPayments, 0 ≤ p.nAmount) ∧ f.exactPayout ≤ i64Max) := by
  obtain ⟨total, htotal, hle⟩ := getTotalPayout_of_accepted h
  have hbounds := getTotalBudget_bounds htotal
  refine ⟨total, htotal, ?_⟩
  constructor
  · intro hwithin
    refine ⟨fun p hp => (hwithin.1 p hp).1, le_trans hwithin.2 (le_trans hbounds.2 ?_)⟩
    decide
  · intro hpayments
    obtain ⟨hnonneg, hfits⟩ := hpayments
    have hall : ∀ x ∈ f.vecBudgetPayments.map TxBudgetPayment.nAmount, 0 ≤ x := by
      intro x hx
      obtain ⟨p, hp, rfl⟩ := List.mem_map.mp hx
      exact hnonneg p hp
    have hsum : 0 ≤ f.exactPayout := List.sum_nonneg hall
    have hin : InI64 f.exactPayout := by
      refine ⟨le_trans ?_ hsum, hfits⟩
      decide
    rw [getTotalPayout_eq, toI64_of_inI64 hin] at hle
    refine ⟨fun p hp => ⟨hnonneg p hp, ?_⟩, hle⟩
    exact le_trans (List.single_le_sum hall _ (List.mem_map_of_mem hp)) hle

end Finalized

/-- A budget of the first cycle of the main network. -/
def firstBudget (amounts : List Int) : CheckedBudget where
  voteCount := 0
  nBlockStart := 43200
  vecBudgetPayments := amounts.map fun amount => ⟨[opDup], amount, 1⟩
  strBudgetName := "main"
  nFeeTXHash := 7

/-- Two ordinary payments. -/
theorem accepted_budget_within_two :
    (firstBudget [1000 * coin, 2000 * coin]).Within (648000 * coin) := by
  obtain ⟨total, htotal, hiff⟩ := @accepted_budget_within_iff (fun _ => none) none 40000 true
    (firstBudget [1000 * coin, 2000 * coin]) .main (by decide +kernel)
  have heq : some total = some (648000 * coin) := htotal.symm.trans (by decide +kernel)
  cases heq
  exact hiff.mpr ⟨by decide +kernel, by decide +kernel⟩

/-- A budget that pays a million coins is accepted, with a negative payment beside it. -/
theorem accepted_budget_beyond :
    (firstBudget [1000000 * coin, -500000 * coin]).updateValid (budgetParams .main) (fun _ => none) none 40000
        true = some (.ok ()) ∧
      getTotalBudget (budgetParams .main) 43200 = some (648000 * coin) ∧
      ¬ (firstBudget [1000000 * coin, -500000 * coin]).Within (648000 * coin) := by
  refine ⟨by decide +kernel, by decide +kernel, fun hwithin => ?_⟩
  have hle := (hwithin.1 ⟨[opDup], 1000000 * coin, 1⟩ (by decide +kernel)).2
  exact absurd hle (by decide +kernel)

/-! ### The period of a proposal -/

namespace BudgetProposal

/-- A proposal asks for `n` payments from the block `start` on. -/
structure AsksFor (P : BudgetParams) (p : BudgetProposal) (n start : Int) : Prop where
  start_eq : p.nBlockStart = start
  end_eq : p.nBlockEnd = start + (P.nBudgetCycleBlocks + 1) * n

/-- Votes and verdicts change, the period does not. -/
def SamePeriod (p q : BudgetProposal) : Prop := q.nBlockStart = p.nBlockStart ∧ q.nBlockEnd = p.nBlockEnd

theorem AsksFor.samePeriod {P : BudgetParams} {p q : BudgetProposal} {n start : Int} (h : p.AsksFor P n start)
    (hsame : p.SamePeriod q) : q.AsksFor P n start :=
  ⟨hsame.1.trans h.start_eq, hsame.2.trans h.end_eq⟩

section Period

variable {P : BudgetParams} {n start : Int} (hn : 1 ≤ n) (hcycle : n + 1 < P.nBudgetCycleBlocks)
  (hstart : P.nBudgetCycleBlocks ∣ start)

theorem getBlockCycle_of_dvd {s : Int} (hs : P.nBudgetCycleBlocks ∣ s) : getBlockCycle P s = s := by
  rw [getBlockCycle, Int.tmod_eq_zero_of_dvd hs, Int.sub_zero]

include hn hcycle in
/-- The blocks of the period, and the first block after it, are numbers of 32 bits. -/
theorem period_bounds (h0 : 0 ≤ start) (hfits : start + (P.nBudgetCycleBlocks + 1) * n ≤ 2147483647) :
    InI32 ((P.nBudgetCycleBlocks + 1) * n) ∧ InI32 (P.nBudgetCycleBlocks * n) ∧
      InI32 (start + P.nBudgetCycleBlocks * n) := by
  have hsplit : (P.nBudgetCycleBlocks + 1) * n = P.nBudgetCycleBlocks * n + n := by
    rw [Int.add_mul, Int.one_mul]
  have hpos : 0 ≤ P.nBudgetCycleBlocks * n := Int.mul_nonneg (by omega) (by omega)
  rw [hsplit] at hfits ⊢
  refine ⟨⟨by omega, by omega⟩, ⟨by omega, by omega⟩, by omega, by omega⟩

include hn hcycle hstart in
theorem broadcast_asksFor (strProposalName strURL : String) (address : Script) (nAmount : Int) (nFeeTXHash : Nat)
    (h0 : 0 ≤ start) (hfits : start + (P.nBudgetCycleBlocks + 1) * n ≤ 2147483647) :
    (broadcast P strProposalName strURL n address nAmount start nFeeTXHash).AsksFor P n start := by
  obtain ⟨hblocks, -, -⟩ := period_bounds hn hcycle h0 hfits
  refine ⟨rfl, ?_⟩
  have hend : InI32 (start + (P.nBudgetCycleBlocks + 1) * n) := ⟨by have := hblocks.1; omega, hfits⟩
  show toI32 (start - start.tmod P.nBudgetCycleBlocks + toI32 ((P.nBudgetCycleBlocks + 1) * n)) = _
  rw [Int.tmod_eq_zero_of_dvd hstart, Int.sub_zero, toI32_of_inI32 hblocks, toI32_of_inI32 hend]

variable {p : BudgetProposal} (hp : p.AsksFor P n start)
include hn hcycle hstart hp in
theorem AsksFor.getTotalPaymentCount_eq (h0 : 0 ≤ start)
    (hfits : start + (P.nBudgetCycleBlocks + 1) * n ≤ 2147483647) : p.getTotalPaymentCount P = n := by
  obtain ⟨hblocks, -, -⟩ := period_bounds hn hcycle h0 hfits
  have hlength : p.nBlockEnd - getBlockCycle P p.nBlockStart = (P.nBudgetCycleBlocks + 1) * n := by
    rw [hp.start_eq, hp.end_eq, getBlockCycle_of_dvd hstart]
    omega
  have hsplit : (P.nBudgetCycleBlocks + 1) * n = n + n * P.nBudgetCycleBlocks := by
    rw [Int.add_mul, Int.one_mul, Int.mul_comm, Int.add_comm]
  rw [getTotalPaymentCount, hlength, toI32_of_inI32 hblocks, hsplit,
    Int.tdiv_eq_ediv_of_nonneg (by rw [← hsplit]; exact Int.mul_nonneg (by omega) (by omega)),
    Int.add_mul_ediv_right _ _ (by omega), Int.ediv_eq_zero_of_lt (by omega) (by omega), Int.zero_add]

include hn hcycle hstart hp in
theorem AsksFor.proposalEnd_eq (h0 : 0 ≤ start)
    (hfits : start + (P.nBudgetCycleBlocks + 1) * n ≤ 2147483647) :
    p.proposalEnd P = start + n * P.nBudgetCycleBlocks := by
  obtain ⟨-, hcycles, hend⟩ := period_bounds hn hcycle h0 hfits
  rw [proposalEnd, hp.getTotalPaymentCount_eq hn hcycle hstart h0 hfits, toI32_of_inI32 hcycles, hp.start_eq,
    toI32_of_inI32 hend, Int.mul_comm]

include hn hcycle hstart hp in
theorem AsksFor.window_iff {s : Int} (hs : P.nBudgetCycleBlocks ∣ s) :
    p.nBlockStart ≤ s ∧ s + P.nBudgetCycleBlocks - 1 ≤ p.nBlockEnd ↔
      ∃ k, 0 ≤ k ∧ k < n ∧ s = start + k * P.nBudgetCycleBlocks := by
  obtain ⟨k, hk⟩ := Int.dvd_sub hs hstart
  have hc : 0 < P.nBudgetCycleBlocks := by omega
  have hat : s = start + k * P.nBudgetCycleBlocks := by
    rw [Int.mul_comm, ← hk]
    omega
  have hsplit : (P.nBudgetCycleBlocks + 1) * n = n * P.nBudgetCycleBlocks + n := by
    rw [Int.add_mul, Int.one_mul, Int.mul_comm]
  rw [hp.start_eq, hp.end_eq, hsplit]
  constructor
  · intro h
    refine ⟨k, ?_, ?_, hat⟩
    · by_contra hneg
      have hle : (k + 1) * P.nBudgetCycleBlocks ≤ 0 := Int.mul_nonpos_of_nonpos_of_nonneg (by omega) hc.le
      rw [Int.add_mul, Int.one_mul] at hle
      omega
    · -- a window that begins `n` cycles after the start ends a cycle less `n + 1` blocks too late
      by_contra hlate
      have hle : n * P.nBudgetCycleBlocks ≤ k * P.nBudgetCycleBlocks :=
        Int.mul_le_mul_of_nonneg_right (by omega) hc.le
      omega
  · rintro ⟨i, hi0, hin, hi⟩
    have hfirst : 0 ≤ i * P.nBudgetCycleBlocks := Int.mul_nonneg hi0 hc.le
    have hlast : (i + 1) * P.nBudgetCycleBlocks ≤ n * P.nBudgetCycleBlocks :=
      Int.mul_le_mul_of_nonneg_right (by omega) hc.le
    rw [Int.add_mul, Int.one_mul] at hlast
    omega

end Period

theorem of_ite_refuse {c : Prop} [Decidable c] {p q : BudgetProposal} {strInvalid : String}
    {x : Option (Bool × BudgetProposal)} (h : (if c then some (p.refuse strInvalid) else x) = some (true, q)) :
    ¬ c ∧ x = some (true, q) := by
  by_cases hc : c
  · rw [if_pos hc] at h
    cases h
  · rw [if_neg hc] at h
    exact ⟨hc, h⟩

section Valid

variable {E : ProposalView} {h₀ h : Int} {fCheckCollateral : Bool} {p q : BudgetProposal}

theorem updateValidRest_kept (hpos : 0 < h) (hend : h ≤ p.proposalEnd E.P)
    (hvalid : p.updateValidRest E h₀ = some (true, q)) :
    p.updateValidRest E h = some (true, { p with fValid := true, strInvalid := "" }) := by
  rw [updateValidRest] at hvalid ⊢
  obtain ⟨hscript, hvalid⟩ := of_ite_refuse hvalid
  obtain ⟨nTotalBudget, htotal, hvalid⟩ := Option.map_eq_some_iff.mp hvalid
  rw [if_neg hscript, htotal, Option.map_some]
  by_cases hmore : nTotalBudget < p.nAmount
  · rw [if_pos hmore] at hvalid
    cases hvalid
  · rw [if_neg hmore, if_neg (by omega), if_neg (by omega)]

theorem updateValid_kept (hpos : 0 < h) (hend : h ≤ p.proposalEnd E.P)
    (hvalid : p.updateValid E h₀ fCheckCollateral = some (true, q)) :
    ∃ q', p.updateValid E h fCheckCollateral = some (true, q') ∧ q'.fValid = true := by
  rw [updateValid] at hvalid ⊢
  obtain ⟨hnays, hvalid⟩ := of_ite_refuse hvalid
  obtain ⟨hstart, hvalid⟩ := of_ite_refuse hvalid
  obtain ⟨hperiod, hvalid⟩ := of_ite_refuse hvalid
  obtain ⟨hamount, hvalid⟩ := of_ite_refuse hvalid
  obtain ⟨haddress, hvalid⟩ := of_ite_refuse hvalid
  rw [if_neg hnays, if_neg hstart, if_neg hperiod, if_neg hamount, if_neg haddress]
  cases fCheckCollateral with
  | false => exact ⟨_, updateValidRest_kept hpos hend hvalid, rfl⟩
  | true =>
    rw [if_pos rfl] at hvalid ⊢
    cases hcollateral : E.collateral p with
    | error strError =>
      rw [hcollateral] at hvalid
      cases hvalid
    | ok nTime =>
      rw [hcollateral] at hvalid
      exact ⟨_, updateValidRest_kept hpos hend hvalid, rfl⟩

/-- What `IsPassing` asks besides the period. -/
def Supported (E : ProposalView) (now : Int) (p : BudgetProposal) : Prop :=
  E.mnCount.tdiv 10 < p.getYeas E.valid - p.getNays E.valid ∧ p.isEstablished E.P now = true

theorem isPassing_iff {now nBlockStartBudget nBlockEndBudget : Int} :
    p.isPassing E now nBlockStartBudget nBlockEndBudget = true ↔
      p.fValid = true ∧ (p.nBlockStart ≤ nBlockStartBudget ∧ nBlockEndBudget ≤ p.nBlockEnd) ∧
        p.Supported E now := by
  rw [isPassing, Supported]
  by_cases hvalid : p.fValid = true
  · by_cases hstart : nBlockStartBudget < p.nBlockStart
    · simp [hvalid, hstart, Int.not_le.mpr hstart]
    · by_cases hend : p.nBlockEnd < nBlockEndBudget
      · simp [hvalid, hstart, hend, Int.not_le.mpr hend]
      · by_cases hvotes : p.getYeas E.valid - p.getNays E.valid ≤ E.mnCount.tdiv 10
        · simp [hvalid, hstart, hend, hvotes, Int.not_lt.mpr hvotes]
        · simp [hvalid, hstart, hend, hvotes, Int.not_lt.mp hstart, Int.not_lt.mp hend, Int.not_le.mp hvotes]
  · simp [hvalid]

end Valid

end BudgetProposal

theorem maxPayments_lt_cycle (network : Network) :
    ((budgetParams network).nMaxProposalPayments : Int) + 1 < (budgetParams network).nBudgetCycleBlocks := by
  cases network <;> decide

/-- **A proposal for `n` payments is payable in exactly `n` cycles**, with any votes: its payments are
counted so, the superblocks that lie in its period are the `n` ones from its start on, and
`UpdateValid` keeps it to the end of the last cycle, if it is valid at all. -/
theorem proposal_payable_in_its_cycles (network : Network) {n start : Int} (hn : 1 ≤ n)
    (hmax : n ≤ (budgetParams network).nMaxProposalPayments)
    (hstart : (budgetParams network).nBudgetCycleBlocks ∣ start) (h0 : 0 ≤ start)
    (hfits : start + ((budgetParams network).nBudgetCycleBlocks + 1) * n ≤ 2147483647)
    (strProposalName strURL : String) (address : Script) (nAmount : Int) (nFeeTXHash : Nat) :
    ∀ q, (BudgetProposal.broadcast (budgetParams network) strProposalName strURL n address nAmount start
        nFeeTXHash).SamePeriod q →
      q.getTotalPaymentCount (budgetParams network) = n ∧
      ∀ E : ProposalView, E.P = budgetParams network →
        (∀ now s, E.P.nBudgetCycleBlocks ∣ s →
          (q.isPassing E now s (s + E.P.nBudgetCycleBlocks - 1) = true ↔
            (∃ k, 0 ≤ k ∧ k < n ∧ s = start + k * E.P.nBudgetCycleBlocks) ∧ q.fValid = true ∧ q.Supported E now)) ∧
        ∀ h₀ h fCheckCollateral q', q.updateValid E h₀ fCheckCollateral = some (true, q') → 0 < h →
          h ≤ start + n * E.P.nBudgetCycleBlocks →
          ∃ q', q.updateValid E h fCheckCollateral = some (true, q') ∧ q'.fValid = true := by
  intro q hsame
  have hcycle : n + 1 < (budgetParams network).nBudgetCycleBlocks := by
    have := maxPayments_lt_cycle network
    omega
  have hq := (BudgetProposal.broadcast_asksFor hn hcycle hstart strProposalName strURL address nAmount nFeeTXHash
    h0 hfits).samePeriod hsame
  refine ⟨hq.getTotalPaymentCount_eq hn hcycle hstart h0 hfits, fun E hE => ?_⟩
  rw [hE]
  constructor
  · intro now s hs
    rw [BudgetProposal.isPassing_iff, hq.window_iff hn hcycle hstart hs]
    tauto
  · intro h₀ h fCheckCollateral q' hvalid hpos hend
    refine BudgetProposal.updateValid_kept hpos ?_ hvalid
    rw [hE, hq.proposalEnd_eq hn hcycle hstart h0 hfits]
    exact hend

/-- Nobody has voted, and the collateral is good. -/
def quietView : ProposalView where
  P := budgetParams .main
  valid := fun _ => true
  mnCount := 10
  collateral := fun _ => .ok 1600000000

/-- A proposal for some payments of 100 coins, on the main network. -/
def proposalFrom (nPaymentCount nBlockStart : Int) : BudgetProposal :=
  .broadcast (budgetParams .main) "wallet" "rapids" nPaymentCount [opDup] (100 * coin) nBlockStart 7

/-- Two payments from the first cycle on. -/
theorem proposal_payable_two :
    (proposalFrom 2 43200).getTotalPaymentCount (budgetParams .main) = 2 ∧
      ∃ q, (proposalFrom 2 43200).updateValid quietView 129600 true = some (true, q) ∧ q.fValid = true := by
  have hboth := @proposal_payable_in_its_cycles .main 2 43200 (by decide) (by decide) (by decide) (by decide)
    (by decide) "wallet" "rapids" [opDup] (100 * coin) 7 (proposalFrom 2 43200) ⟨rfl, rfl⟩
  have hvalid : ((proposalFrom 2 43200).updateValid quietView 1 true).map Prod.fst = some true := by decide +kernel
  obtain ⟨r, hr, hfst⟩ := Option.map_eq_some_iff.mp hvalid
  obtain ⟨accepted, q⟩ := r
  obtain rfl : accepted = true := hfst
  exact ⟨hboth.1, (hboth.2 quietView rfl).2 1 129600 true q hr (by decide) (by decide)⟩

/-- A proposal that starts before the chain does is dropped before its last cycle, and so is one that
ends beyond the numbers of 32 bits. -/
theorem proposal_dropped_outside :
    ((proposalFrom 6 (-43200)).updateValid quietView 1 true).map Prod.fst = some false ∧
      ((proposalFrom 1 2147472000).updateValid quietView 1 true).map Prod.fst = some false := by
  decide +kernel

end Rapids.Masternode
