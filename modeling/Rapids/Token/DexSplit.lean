import Mathlib.Algebra.Order.BigOperators.Group.List
import Rapids.Token.DexArithmetic

/-!
# Rapids.Token.DexSplit

**Paying for an accept in parts**, without royalties and under `DEXMATH`.

Every payment rounds the tokens it buys up. The source calls this not exploitable, since
each transaction costs a fee; but the outputs of one transaction are payments of their
own. What a list of payments gains over one payment of their sum is what their roundings
add up to, in whole tokens: nothing while the roundings together stay below the price of
one token (`sum_tokensFor_le_iff`).

Between two payments anything may happen that leaves what is open between buyer and
seller as it is (`Instalments`).
-/

namespace Rapids.Token

open Rapids.Lib

/-! ### Rounding -/

section
variable {accept : CMPAccept}

/-- What rounding up adds to the exact worth of an amount, in fractions of the price. -/
def CMPAccept.roundingOf (accept : CMPAccept) (amount : Int) : Int :=
  (-(amount * accept.offerAmountOriginal)) % accept.rpdDesiredOriginal

section
variable (hD : 0 < accept.rpdDesiredOriginal)
include hD

theorem tokensFor_mul (v : Int) :
    accept.tokensFor v * accept.rpdDesiredOriginal =
      v * accept.offerAmountOriginal + accept.roundingOf v := by
  have hdiv := Int.emod_add_mul_ediv (-(v * accept.offerAmountOriginal)) accept.rpdDesiredOriginal
  have hlow := Int.emod_nonneg (-(v * accept.offerAmountOriginal)) hD.ne'
  have hhigh := Int.emod_lt_of_pos (-(v * accept.offerAmountOriginal)) hD
  -- the quotient is the worth, rounded up
  have hworth : accept.tokensFor v = -((-(v * accept.offerAmountOriginal)) / accept.rpdDesiredOriginal) := by
    refine le_antisymm ((tokensFor_le_iff hD).mpr (by linarith)) ?_
    by_contra hlt
    have hle : accept.tokensFor v ≤ -((-(v * accept.offerAmountOriginal)) / accept.rpdDesiredOriginal) - 1 := by
      omega
    have hbad := (tokensFor_le_iff hD).mp hle
    linarith
  rw [hworth, CMPAccept.roundingOf]
  linarith

theorem roundingOf_nonneg (v : Int) : 0 ≤ accept.roundingOf v :=
  Int.emod_nonneg _ hD.ne'

theorem roundingOf_lt (v : Int) :
    accept.roundingOf v < accept.rpdDesiredOriginal :=
  Int.emod_lt_of_pos _ hD

theorem sum_tokensFor_mul (vs : List Int) :
    (vs.map accept.tokensFor).sum * accept.rpdDesiredOriginal =
      vs.sum * accept.offerAmountOriginal + (vs.map accept.roundingOf).sum := by
  induction vs with
  | nil => simp
  | cons v vs ih =>
    have hv := tokensFor_mul hD v
    rw [List.map_cons, List.map_cons, List.sum_cons, List.sum_cons, List.sum_cons, add_mul, ih, hv]
    ring

end

theorem sum_tokensFor_nonneg (hO : 0 ≤ accept.offerAmountOriginal) (hD : 0 < accept.rpdDesiredOriginal)
    {vs : List Int} (hvs : ∀ v ∈ vs, 0 ≤ v) : 0 ≤ (vs.map accept.tokensFor).sum := by
  refine List.sum_nonneg fun x hx => ?_
  obtain ⟨v, hv, rfl⟩ := List.mem_map.mp hx
  exact tokensFor_nonneg hO hD (hvs v hv)

/-- **Parts are worth no more than their sum if and only if** their roundings stay below the price
of one token. -/
theorem sum_tokensFor_le_iff (hD : 0 < accept.rpdDesiredOriginal) (vs : List Int) :
    (vs.map accept.tokensFor).sum ≤ accept.tokensFor vs.sum ↔
      (vs.map accept.roundingOf).sum < accept.rpdDesiredOriginal := by
  have hparts := sum_tokensFor_mul hD vs
  have hwhole := tokensFor_mul hD vs.sum
  have hlow := roundingOf_nonneg hD vs.sum
  have hhigh := roundingOf_lt hD vs.sum
  constructor
  · intro hle
    have hmul := mul_le_mul_of_nonneg_right hle hD.le
    linarith
  · intro hlt
    by_contra hmore
    have hmul : (accept.tokensFor vs.sum + 1) * accept.rpdDesiredOriginal ≤
        (vs.map accept.tokensFor).sum * accept.rpdDesiredOriginal :=
      mul_le_mul_of_nonneg_right (by omega) hD.le
    linarith

end

/-! ### Payments one after the other -/

/-- No royalties are due on a property, and purchases are computed in integers. -/
structure PlainTerms (s : State) (p : PropertyId) (block : Nat) : Prop where
  math : isFeatureActivated s.params Feature.dexmath.id block = true
  free : percentageOf s p = 0

/-- The tokens that a step credits. -/
def creditOf (s s' : State) (buyer : Address) (p : PropertyId) : Int :=
  getTokenBalance s' buyer p .balance - getTokenBalance s buyer p .balance

/-- **Payments of a buyer to a seller**, one after the other, and the tokens they credit together.
What happens in between leaves the accept, or that there is none, as it is. -/
inductive Instalments (seller buyer : Address) (p : PropertyId) : State → List Int → Int → Prop
  | done {s : State} : Instalments seller buyer p s [] 0
  | pay {s s₁ s₂ : State} {paid : Int} {block : Nat} {payments : List (Address × Int)} {rc : Int}
      {later : List Int} {credited : Int} (single : SingleOffer s) (plain : PlainTerms s p block)
      (payment : dexPayment s seller buyer paid block payments = some (rc, s₁))
      (between : dexPayableAccept s₂ seller buyer = dexPayableAccept s₁ seller buyer)
      (rest : Instalments seller buyer p s₂ later credited) :
      Instalments seller buyer p s (paid :: later) (creditOf s s₁ buyer p + credited)

section
variable {s s' : State} {seller buyer : Address} {p : PropertyId} {accept : CMPAccept} {block : Nat}
  {payments : List (Address × Int)} {paid rc : Int}

theorem PlainTerms.dexAmountPaid (h : PlainTerms s p block) (hpaid : InI64 paid) :
    Token.dexAmountPaid s seller p accept paid = paid := by
  have hzero : exactPaid s seller p accept paid = paid := by
    rw [exactPaid, h.free, mul_zero, Int.zero_tdiv, ite_self, add_zero]
  rw [dexAmountPaid_exact, hzero]
  · rw [h.free, mul_zero]
    exact ⟨by decide, by decide⟩
  · rw [hzero]
    exact hpaid

theorem PlainTerms.isPayable (h : PlainTerms s p block) (hprice : accept.rpdDesiredOriginal ≠ 0) :
    Token.isPayable s p accept payments = true := by
  have hfree : ((getSP s p).getD {}).royaltiesPercentage = 0 := Int.natCast_eq_zero.mp h.free
  rw [Token.isPayable, decide_eq_true hprice, dexRoyaltiesPaid, hfree]
  rfl

theorem PlainTerms.pay (h : PlainTerms s p block) (hsingle : SingleOffer s)
    (hfound : dexPayableAccept s seller buyer = some (p, accept)) (hprice : accept.rpdDesiredOriginal ≠ 0)
    (hpaid : InI64 paid) (hpay : dexPayment s seller buyer paid block payments = some (rc, s')) :
    0 ≤ accept.offerAmountOriginal ∧ 0 < accept.rpdDesiredOriginal ∧
      creditOf s s' buyer p = max 0 (min accept.acceptAmountRemaining (accept.tokensFor paid)) ∧
      dexPayableAccept s' seller buyer =
        if accept.acceptAmountRemaining ≤ accept.tokensFor paid then none
        else some (p, accept.reduce (accept.tokensFor paid)) := by
  obtain ⟨x, s₁, hbought, h1, htally, hself⟩ := dexPayment_open hsingle hfound (h.isPayable hprice) hpay
  rw [dexAmountBought, h.dexAmountPaid hpaid, if_pos h.math] at hbought
  obtain ⟨hO, hD, -, -⟩ := (calculateDExPurchase_isSome_iff hprice).mp ⟨x, hbought⟩
  obtain ⟨rfl, -⟩ := calculateDExPurchase_spec hbought
  refine ⟨hO, hD, ?_, hself⟩
  have hmoved : getTokenBalance s₁ buyer p .balance = getTokenBalance s buyer p .balance +
      max 0 (min accept.acceptAmountRemaining (accept.tokensFor paid)) := by
    rw [← CMPAccept.purchased_eq_min]
    by_cases hpos : 0 < accept.purchased (accept.tokensFor paid)
    · rw [purchase_balance hpos h1, if_pos ⟨rfl, rfl⟩, max_eq_right hpos.le]
    · rw [transferIfPositive_of_nonpos (not_lt.mp hpos) h1, max_eq_left (not_lt.mp hpos), add_zero]
  rw [creditOf, htally, hmoved, add_sub_cancel_left]

theorem creditOf_self (s : State) (buyer : Address) (p : PropertyId) : creditOf s s buyer p = 0 :=
  sub_self _

theorem dexPayment_unpriced (hfound : dexPayableAccept s seller buyer = some (p, accept))
    (hprice : accept.rpdDesiredOriginal = 0)
    (hpay : dexPayment s seller buyer paid block payments = some (rc, s')) : s' = s := by
  rcases dexPayment_spec hpay with ⟨rfl, -⟩ | ⟨q, a, -, -, hq, hopen, -⟩
  · rfl
  · rw [hfound] at hq
    cases hq
    rw [isPayable, hprice] at hopen
    cases hopen

theorem Instalments.credited_zero {vs : List Int} {credited : Int}
    (h : Instalments seller buyer p s vs credited)
    (hnone : ∀ q a, dexPayableAccept s seller buyer = some (q, a) → a.rpdDesiredOriginal = 0) :
    credited = 0 := by
  induction h with
  | done => rfl
  | @pay s s₁ s₂ paid block payments rc later credited single plain payment between rest ih =>
    have hsame : s₁ = s := by
      cases hfound : dexPayableAccept s seller buyer with
      | none => exact dexPayment_none hfound payment
      | some found =>
        obtain ⟨q, a⟩ := found
        exact dexPayment_unpriced hfound (hnone q a hfound) payment
    rw [ih fun q a hq => hnone q a (by rw [← hq, between, hsame]), hsame, creditOf_self, add_zero]

/-- **Payments together** buy what each is worth, up to what is left. -/
theorem Instalments.credited_eq {vs : List Int} {credited : Int}
    (h : Instalments seller buyer p s vs credited) (hvs : ∀ v ∈ vs, 0 ≤ v ∧ v ≤ i64Max)
    (hfound : dexPayableAccept s seller buyer = some (p, accept)) (hprice : accept.rpdDesiredOriginal ≠ 0) :
    credited = max 0 (min accept.acceptAmountRemaining (vs.map accept.tokensFor).sum) := by
  induction h generalizing accept with
  | done =>
    rw [List.map_nil, List.sum_nil]
    exact (max_eq_left (min_le_right _ _)).symm
  | @pay s s₁ s₂ paid block payments rc later credited single plain payment between rest ih =>
    obtain ⟨hpaid, hmax⟩ := hvs paid (.head _)
    have hlater : ∀ v ∈ later, 0 ≤ v ∧ v ≤ i64Max := fun v hv => hvs v (.tail _ hv)
    obtain ⟨hO, hD, hcredit, hopen⟩ := plain.pay single hfound hprice
      ⟨by unfold i64Min; omega, hmax⟩ payment
    have hworth := tokensFor_nonneg hO hD hpaid
    have hsum := sum_tokensFor_nonneg hO hD fun v hv => (hlater v hv).1
    rw [List.map_cons, List.sum_cons, hcredit]
    by_cases hle : accept.acceptAmountRemaining ≤ accept.tokensFor paid
    · -- the accept has ended
      rw [if_pos hle] at hopen
      rw [rest.credited_zero fun q a hq => by rw [between, hopen] at hq; cases hq]
      omega
    · rw [if_neg hle] at hopen
      have hmore : credited = max 0 (min (accept.acceptAmountRemaining - accept.tokensFor paid)
          (later.map accept.tokensFor).sum) := ih hlater (between.trans hopen) hprice
      omega

end

/-! ### Parts and whole -/

/-- **Payments in parts buy no more than one payment of their sum if and only if** their roundings
together stay below the price of one token, or the sum pays for all that is left. -/
theorem instalments_buy_no_more_iff {cfg : Config} {es : List Event} {n : Node} {seller buyer : Address}
    {p : PropertyId} {accept : CMPAccept} {block : Nat} {payments : List (Address × Int)} {vs : List Int}
    {credited rc : Int} {s' : State} (hrun : run step (Node.initial cfg) es = some n)
    (hfound : dexPayableAccept n.state seller buyer = some (p, accept)) (hplain : PlainTerms n.state p block)
    (hvs : ∀ v ∈ vs, 0 ≤ v) (hmax : vs.sum ≤ i64Max)
    (hparts : Instalments seller buyer p n.state vs credited)
    (hwhole : dexPayment n.state seller buyer vs.sum block payments = some (rc, s')) :
    credited ≤ creditOf n.state s' buyer p ↔
      accept.rpdDesiredOriginal = 0 ∨
        (accept.acceptAmountRemaining - 1) * accept.rpdDesiredOriginal < vs.sum * accept.offerAmountOriginal ∨
        (vs.map accept.roundingOf).sum < accept.rpdDesiredOriginal := by
  have hsingle : SingleOffer n.state := (run_inv hrun).core.single
  by_cases hprice : accept.rpdDesiredOriginal = 0
  · have hnone : ∀ q a, dexPayableAccept n.state seller buyer = some (q, a) → a.rpdDesiredOriginal = 0 := by
      intro q a hq
      rw [hfound] at hq
      cases hq
      exact hprice
    rw [hparts.credited_zero hnone, dexPayment_unpriced hfound hprice hwhole, creditOf_self]
    exact iff_of_true le_rfl (.inl hprice)
  have hsum : 0 ≤ vs.sum := List.sum_nonneg hvs
  have hbounds : ∀ v ∈ vs, 0 ≤ v ∧ v ≤ i64Max :=
    fun v hv => ⟨hvs v hv, le_trans (List.single_le_sum hvs v hv) hmax⟩
  obtain ⟨hO, hD, hcredit, -⟩ := hplain.pay hsingle hfound hprice ⟨by unfold i64Min; omega, hmax⟩ hwhole
  have hrest : accept.acceptAmountRemaining ≤ accept.tokensFor vs.sum ↔
      (accept.acceptAmountRemaining - 1) * accept.rpdDesiredOriginal < vs.sum * accept.offerAmountOriginal := by
    have hle := tokensFor_le_iff (v := vs.sum) (m := accept.acceptAmountRemaining - 1) hD
    constructor
    · intro h
      by_contra hnot
      have := hle.mpr (not_lt.mp hnot)
      omega
    · intro h
      by_contra hnot
      exact absurd (hle.mp (by omega)) (not_le.mpr h)
  have hworth := tokensFor_nonneg hO hD hsum
  have hworths := sum_tokensFor_nonneg hO hD hvs
  rw [hparts.credited_eq hbounds hfound hprice, hcredit, ← hrest, ← sum_tokensFor_le_iff hD]
  constructor
  · intro h
    omega
  · intro h
    omega

/-- Ten tokens for twenty units of RPD, all accepted. -/
def coarseRun : List Event :=
  [.blockBegin 1 1500000000 1, .packet dexIssue issuanceEnv,
    .packet { dexSell with nValue := 10, amountDesired := 20 } issuanceEnv,
    .packet { dexAccept with nValue := 10 } issuanceEnv]

/-- The accept of `coarseRun`. -/
def coarseAccept : CMPAccept := ⟨10, 10, 10, 3, 10, 20, 3, 1⟩

/-- What a payment of the buyer leaves, if it is carried out. -/
def afterPayment (s : State) (paid : Int) : Option State :=
  (dexPayment s "seller" "buyer" paid 1 [("seller", paid)]).map Prod.snd

/-- Two payments in the state after `coarseRun`, and one payment of their sum. -/
theorem coarseRun_payments (v w c₁ c₂ c : Int)
    (hvals : (run step (Node.initial exchangeCfg) coarseRun).bind (fun n =>
      (afterPayment n.state v).bind fun s₁ => (afterPayment s₁ w).bind fun s₂ =>
        (afterPayment n.state (v + w)).map fun s' =>
          ((dexPayableAccept n.state "seller" "buyer", isFeatureActivated n.state.params Feature.dexmath.id 1,
            isFeatureActivated s₁.params Feature.dexmath.id 1), (percentageOf n.state 3, percentageOf s₁ 3),
            creditOf n.state s₁ "buyer" 3, creditOf s₁ s₂ "buyer" 3, creditOf n.state s' "buyer" 3)) =
      some ((some (3, coarseAccept), true, true), (0, 0), c₁, c₂, c)) :
    ∃ n s' rc, run step (Node.initial exchangeCfg) coarseRun = some n ∧
      dexPayableAccept n.state "seller" "buyer" = some (3, coarseAccept) ∧ PlainTerms n.state 3 1 ∧
      Instalments "seller" "buyer" 3 n.state [v, w] (c₁ + (c₂ + 0)) ∧
      dexPayment n.state "seller" "buyer" [v, w].sum 1 [("seller", v + w)] = some (rc, s') ∧
      creditOf n.state s' "buyer" 3 = c := by
  simp only [Option.bind_eq_some_iff, Option.map_eq_some_iff, afterPayment, Prod.exists, Prod.mk.injEq] at hvals
  obtain ⟨n, hn, s₁, ⟨rc₁, s₁', h1, rfl⟩, s₂, ⟨rc₂, s₂', h2, rfl⟩, s', ⟨rc, t, h, rfl⟩, ⟨hfound, hmath, hmath1⟩,
    ⟨hfree, hfree1⟩, rfl, rfl, hc⟩ := hvals
  have hsingle : SingleOffer n.state := (run_inv hn).core.single
  refine ⟨n, t, rc, hn, hfound, ⟨hmath, hfree⟩, ?_, ?_, hc⟩
  · exact .pay hsingle ⟨hmath, hfree⟩ h1 rfl
      (.pay ((dexPayment_step h1).single hsingle) ⟨hmath1, hfree1⟩ h2 rfl .done)
  · rw [List.sum_cons, List.sum_singleton]
    exact h

/-- In whole prices nothing is gained. -/
theorem instalments_buy_no_more_coarse :
    ∃ n s', run step (Node.initial exchangeCfg) coarseRun = some n ∧
      (2 + (1 + 0) ≤ creditOf n.state s' "buyer" 3 ↔
        coarseAccept.rpdDesiredOriginal = 0 ∨
          (coarseAccept.acceptAmountRemaining - 1) * coarseAccept.rpdDesiredOriginal <
            [(4 : Int), 2].sum * coarseAccept.offerAmountOriginal ∨
          ([(4 : Int), 2].map coarseAccept.roundingOf).sum < coarseAccept.rpdDesiredOriginal) := by
  obtain ⟨n, s', rc, hn, hfound, hplain, hparts, hwhole, -⟩ := coarseRun_payments 4 2 2 1 3
    (by decide +kernel)
  exact ⟨n, s', hn, instalments_buy_no_more_iff hn hfound hplain (by decide) (by decide) hparts hwhole⟩

/-- One unit twice buys two tokens, two units buy one. -/
theorem instalments_buy_more :
    ∃ n s' rc, run step (Node.initial exchangeCfg) coarseRun = some n ∧
      dexPayableAccept n.state "seller" "buyer" = some (3, coarseAccept) ∧ PlainTerms n.state 3 1 ∧
      Instalments "seller" "buyer" 3 n.state [1, 1] (1 + (1 + 0)) ∧
      dexPayment n.state "seller" "buyer" [(1 : Int), 1].sum 1 [("seller", 1 + 1)] = some (rc, s') ∧
      creditOf n.state s' "buyer" 3 < 1 + (1 + 0) := by
  obtain ⟨n, s', rc, hn, hfound, hplain, hparts, hwhole, hc⟩ := coarseRun_payments 1 1 1 1 1
    (by decide +kernel)
  refine ⟨n, s', rc, hn, hfound, hplain, hparts, hwhole, ?_⟩
  rw [hc]
  decide

end Rapids.Token
