import Rapids.Token.DexWalletSound

/-!
# Rapids.Token.DexArithmetic

**The arithmetic of `DEx_payment`** under `DEXMATH`: when no signed number overflows and
no assertion fails.

The price of an offer is a pair of numbers that the seller picks. The amount offered is
checked when the offer is made. The **amount desired** is not: it arrives as an unsigned
number, is stored as a signed one, and is converted back under an assertion that it is
not negative. Neither is the ratio of the two, so that a payment can be worth more tokens
than fit 64 bits before it is cut down to what was accepted.

What moves the tokens does not fail: what is left of an accept is reserved, and what the
seller gives up the buyer has room for.
-/

namespace Rapids.Token

open Rapids.Lib

section
variable {s s' : State} {seller buyer : Address} {p : PropertyId} {accept : CMPAccept} {block : Nat}
  {payments : List (Address × Int)} {paid : Int}

/-! ### Without overflow -/

/-- The percentage of royalties on a property. -/
def percentageOf (s : State) (p : PropertyId) : Int := ((getSP s p).getD {}).royaltiesPercentage

/-- What counts as paid, over the integers. -/
def exactPaid (s : State) (seller : Address) (p : PropertyId) (accept : CMPAccept) (paid : Int) : Int :=
  paid + if seller ≠ (dexRoyalties s p accept.rpdDesiredOriginal).1 then
    (accept.rpdDesiredOriginal * percentageOf s p).tdiv 100 else 0

/-- **A safe payment**: royalties and what counts as paid are signed 64-bit numbers, and no
assertion fails. -/
structure PaymentSafe (s : State) (seller buyer : Address) (paid : Int) (block : Nat)
    (payments : List (Address × Int)) : Prop where
  royaltiesFit : ∀ p accept, dexPayableAccept s seller buyer = some (p, accept) →
    accept.rpdDesiredOriginal ≠ 0 → InI64 (accept.rpdDesiredOriginal * percentageOf s p)
  sumFits : ∀ p accept, dexPayableAccept s seller buyer = some (p, accept) →
    isPayable s p accept payments = true → InI64 (exactPaid s seller p accept paid)
  carriedOut : ∃ rc s', dexPayment s seller buyer paid block payments = some (rc, s')

/-- The terms of an accept that a payment can be computed with. -/
structure SafeTerms (s : State) (seller : Address) (p : PropertyId) (accept : CMPAccept) (paid : Int)
    (payments : List (Address × Int)) : Prop where
  royalties : InI64 (accept.rpdDesiredOriginal * percentageOf s p)
  offered : isPayable s p accept payments = true → 0 ≤ accept.offerAmountOriginal
  desired : isPayable s p accept payments = true → 0 < accept.rpdDesiredOriginal
  sum : isPayable s p accept payments = true → exactPaid s seller p accept paid ≤ i64Max
  bought : isPayable s p accept payments = true →
    exactPaid s seller p accept paid * accept.offerAmountOriginal ≤ i64Max * accept.rpdDesiredOriginal

theorem dexAmountPaid_exact (hroyalties : InI64 (accept.rpdDesiredOriginal * percentageOf s p))
    (hsum : InI64 (exactPaid s seller p accept paid)) :
    dexAmountPaid s seller p accept paid = exactPaid s seller p accept paid := by
  have hamount : (dexRoyalties s p accept.rpdDesiredOriginal).2 =
      (accept.rpdDesiredOriginal * percentageOf s p).tdiv 100 := by
    show (toI64 (accept.rpdDesiredOriginal * percentageOf s p)).tdiv 100 = _
    rw [toI64_of_inI64 hroyalties]
  unfold exactPaid at hsum ⊢
  unfold dexAmountPaid
  dsimp only
  rw [hamount]
  split_ifs at hsum ⊢ with hother
  · exact toI64_of_inI64 hsum
  · rw [add_zero]

/-! ### The tokens bought -/

theorem tokensFor_le_iff (hD : 0 < accept.rpdDesiredOriginal) {v m : Int} :
    accept.tokensFor v ≤ m ↔ v * accept.offerAmountOriginal ≤ m * accept.rpdDesiredOriginal := by
  have hD : (0 : ℚ) < accept.rpdDesiredOriginal := Int.cast_pos.mpr hD
  rw [CMPAccept.tokensFor, Int.ceil_le, div_le_iff₀ hD]
  exact_mod_cast Iff.rfl

theorem calculateDExPurchase_isSome_iff (hne : accept.rpdDesiredOriginal ≠ 0) {v : Int} :
    (∃ x, calculateDExPurchase accept.offerAmountOriginal accept.rpdDesiredOriginal v = some x) ↔
      0 ≤ accept.offerAmountOriginal ∧ 0 < accept.rpdDesiredOriginal ∧ 0 ≤ v ∧
        v * accept.offerAmountOriginal ≤ i64Max * accept.rpdDesiredOriginal := by
  constructor
  · rintro ⟨x, hx⟩
    have hworth := (calculateDExPurchase_spec hx).1
    simp only [calculateDExPurchase, do_eq_some] at hx
    obtain ⟨offered, hO, desired, hD, amount, hv, q, -, hq⟩ := hx
    have hO := convertTo256_spec hO
    have hD := convertTo256_spec hD
    have hv := convertTo256_spec hv
    obtain ⟨hxq, hfits⟩ := convertTo64_spec hq
    have hpos : 0 < accept.rpdDesiredOriginal := by omega
    refine ⟨by omega, hpos, by omega, (tokensFor_le_iff hpos).mp ?_⟩
    rw [← hworth, hxq]
    unfold i64Max
    unfold maxInt8Bytes at hfits
    omega
  · rintro ⟨hO, hD, hv, hfits⟩
    exact ⟨_, calculateDExPurchase_eq_some hO hD hv ((tokensFor_le_iff hD).mpr hfits)⟩

/-! ### Payments -/

/-- A payment that is due is carried out if and only if its worth can be computed. -/
theorem dexPayment_isSome_iff (hd : DexInv s) (hl : LedgerInv s)
    (hfound : dexPayableAccept s seller buyer = some (p, accept))
    (hpay : isPayable s p accept payments = true) :
    (∃ rc s', dexPayment s seller buyer paid block payments = some (rc, s')) ↔
      ∃ x, dexAmountBought s seller p accept paid block = some x := by
  constructor
  · rintro ⟨rc, s', h⟩
    rcases dexPayment_spec h with ⟨-, hnot⟩ | ⟨q, a, x, -, hq, -, hx, -⟩
    · rw [hnot p accept hfound] at hpay
      cases hpay
    · rw [hfound] at hq
      cases hq
      exact ⟨x, hx⟩
  · rintro ⟨x, hx⟩
    refine exists_dexPayment hfound hpay hx (payOut_isSome hd hl (dexPayableAccept_find? hfound) ?_)
    rw [CMPAccept.purchased_eq_min]
    exact min_le_left _ _

theorem exists_dexPayment_of_unpayable (hfound : dexPayableAccept s seller buyer = some (p, accept))
    (hnot : isPayable s p accept payments = false) :
    ∃ rc s', dexPayment s seller buyer paid block payments = some (rc, s') := by
  unfold dexPayment
  rw [hfound]
  dsimp only
  by_cases hprice : accept.rpdDesiredOriginal = 0
  · rw [if_pos hprice]
    exact ⟨_, _, rfl⟩
  · have hunpaid : dexRoyaltiesPaid s p accept.rpdDesiredOriginal payments = false := by
      rw [isPayable, decide_eq_true hprice, Bool.true_and] at hnot
      exact hnot
    rw [if_neg hprice, hunpaid, if_pos (by rfl)]
    exact ⟨_, _, rfl⟩

theorem exactPaid_nonneg (hpaid : 0 ≤ paid) (hD : 0 < accept.rpdDesiredOriginal) :
    0 ≤ exactPaid s seller p accept paid := by
  have hprod : 0 ≤ accept.rpdDesiredOriginal * percentageOf s p :=
    mul_nonneg hD.le (Int.natCast_nonneg _)
  have hroyalties : 0 ≤ (accept.rpdDesiredOriginal * percentageOf s p).tdiv 100 :=
    Int.tdiv_nonneg hprod (by decide)
  unfold exactPaid
  split_ifs <;> omega

theorem paymentSafe_iff (hd : DexInv s) (hl : LedgerInv s)
    (hmath : isFeatureActivated s.params Feature.dexmath.id block = true) (hpaid : 0 ≤ paid) :
    PaymentSafe s seller buyer paid block payments ↔
      ∀ p accept, dexPayableAccept s seller buyer = some (p, accept) → accept.rpdDesiredOriginal ≠ 0 →
        SafeTerms s seller p accept paid payments := by
  have hbought : ∀ p accept, isPayable s p accept payments = true →
      InI64 (accept.rpdDesiredOriginal * percentageOf s p) → InI64 (exactPaid s seller p accept paid) →
      ((∃ x, dexAmountBought s seller p accept paid block = some x) ↔
        0 ≤ accept.offerAmountOriginal ∧ 0 < accept.rpdDesiredOriginal ∧ 0 ≤ exactPaid s seller p accept paid ∧
          exactPaid s seller p accept paid * accept.offerAmountOriginal ≤
            i64Max * accept.rpdDesiredOriginal) := by
    intro p accept hpay hroyalties hsum
    rw [isPayable, Bool.and_eq_true] at hpay
    rw [← calculateDExPurchase_isSome_iff (of_decide_eq_true hpay.1), dexAmountBought,
      dexAmountPaid_exact hroyalties hsum, if_pos hmath]
  constructor
  · intro hsafe p accept hfound hprice
    have hroyalties := hsafe.royaltiesFit p accept hfound hprice
    have hterms : isPayable s p accept payments = true → 0 ≤ accept.offerAmountOriginal ∧
        0 < accept.rpdDesiredOriginal ∧ 0 ≤ exactPaid s seller p accept paid ∧
          exactPaid s seller p accept paid * accept.offerAmountOriginal ≤ i64Max * accept.rpdDesiredOriginal :=
      fun hpay => (hbought p accept hpay hroyalties (hsafe.sumFits p accept hfound hpay)).mp
        ((dexPayment_isSome_iff hd hl hfound hpay).mp hsafe.carriedOut)
    exact ⟨hroyalties, fun hpay => (hterms hpay).1, fun hpay => (hterms hpay).2.1,
      fun hpay => (hsafe.sumFits p accept hfound hpay).2, fun hpay => (hterms hpay).2.2.2⟩
  · intro hterms
    have hprice : ∀ p accept, isPayable s p accept payments = true → accept.rpdDesiredOriginal ≠ 0 := by
      intro p accept hpay
      rw [isPayable, Bool.and_eq_true] at hpay
      exact of_decide_eq_true hpay.1
    have hsum : ∀ p accept, dexPayableAccept s seller buyer = some (p, accept) →
        isPayable s p accept payments = true → InI64 (exactPaid s seller p accept paid) := by
      intro p accept hfound hpay
      have ht := hterms p accept hfound (hprice p accept hpay)
      have hnonneg : 0 ≤ exactPaid s seller p accept paid := exactPaid_nonneg hpaid (ht.desired hpay)
      exact ⟨by unfold i64Min; omega, ht.sum hpay⟩
    refine ⟨fun p accept hfound hne => (hterms p accept hfound hne).royalties, hsum, ?_⟩
    cases hfound : dexPayableAccept s seller buyer with
    | none => exact ⟨_, _, exists_pay_none hfound⟩
    | some found =>
      obtain ⟨p, accept⟩ := found
      cases hpay : isPayable s p accept payments with
      | false => exact exists_dexPayment_of_unpayable hfound hpay
      | true =>
        have ht := hterms p accept hfound (hprice p accept hpay)
        refine (dexPayment_isSome_iff hd hl hfound hpay).mpr
          ((hbought p accept hpay ht.royalties (hsum p accept hfound hpay)).mpr ?_)
        exact ⟨ht.offered hpay, ht.desired hpay, exactPaid_nonneg hpaid (ht.desired hpay), ht.bought hpay⟩

end

/-! ### Runs -/

/-- **Payments are safe if and only if the terms are**: in every state of a run with fresh
identifiers whose payments without `DEXMATH`, if any, fit 64 bits. -/
theorem dex_payment_safe_iff {cfg : Config} {es : List Event} {n : Node} {seller buyer : Address} {paid : Int}
    {block : Nat} {payments : List (Address × Int)} (hrun : run soundStep (Node.initial cfg) es = some n)
    (hmath : isFeatureActivated n.state.params Feature.dexmath.id block = true) (hpaid : 0 ≤ paid) :
    PaymentSafe n.state seller buyer paid block payments ↔
      ∀ p accept, dexPayableAccept n.state seller buyer = some (p, accept) → accept.rpdDesiredOriginal ≠ 0 →
        SafeTerms n.state seller p accept paid payments := by
  have hsound := run_sound hrun
  exact paymentSafe_iff hsound.dex hsound.ledger hmath hpaid

theorem dex_payment_safe_accepted :
    ∃ n, run soundStep (Node.initial exchangeCfg) acceptedRun = some n ∧
      (PaymentSafe n.state "seller" "buyer" 1 1 [("seller", 1)] ↔
        ∀ p accept, dexPayableAccept n.state "seller" "buyer" = some (p, accept) →
          accept.rpdDesiredOriginal ≠ 0 → SafeTerms n.state "seller" p accept 1 [("seller", 1)]) := by
  have hrun : (run soundStep (Node.initial exchangeCfg) acceptedRun).map (fun n =>
      isFeatureActivated n.state.params Feature.dexmath.id 1) = some true := by decide +kernel
  obtain ⟨n, hn, hmath⟩ := Option.map_eq_some_iff.mp hrun
  exact ⟨n, hn, dex_payment_safe_iff hn hmath (by decide)⟩

/-- `2 ^ 63` units of RPD are asked, which is stored as a negative number. -/
def negativeRun : List Event :=
  [.blockBegin 1 1500000000 1, .packet dexIssue issuanceEnv,
    .packet { dexSell with amountDesired := 2 ^ 63 } issuanceEnv, .packet dexAccept issuanceEnv]

/-- A payment for an accept at a negative price stops the node, and so does one of eight units
where one unit buys `2 ^ 60` tokens. -/
theorem dex_payment_unsafe :
    (∃ n, run soundStep (Node.initial exchangeCfg) negativeRun = some n ∧
      isFeatureActivated n.state.params Feature.dexmath.id 1 = true ∧
      ¬PaymentSafe n.state "seller" "buyer" 1 1 [("seller", 1)]) ∧
    ∃ n, run soundStep (Node.initial exchangeCfg) acceptedRun = some n ∧
      isFeatureActivated n.state.params Feature.dexmath.id 1 = true ∧
      ¬PaymentSafe n.state "seller" "buyer" 8 1 [("seller", 8)] := by
  have hnegative : (run soundStep (Node.initial exchangeCfg) negativeRun).map (fun n =>
      (isFeatureActivated n.state.params Feature.dexmath.id 1,
        (dexPayment n.state "seller" "buyer" 1 1 [("seller", 1)]).isNone)) = some (true, true) := by
    decide +kernel
  have hcheap : (run soundStep (Node.initial exchangeCfg) acceptedRun).map (fun n =>
      (isFeatureActivated n.state.params Feature.dexmath.id 1,
        (dexPayment n.state "seller" "buyer" 8 1 [("seller", 8)]).isNone)) = some (true, true) := by
    decide +kernel
  have hunsafe : ∀ {s : State} {paid : Int} {payments : List (Address × Int)},
      (dexPayment s "seller" "buyer" paid 1 payments).isNone = true →
        ¬PaymentSafe s "seller" "buyer" paid 1 payments := by
    intro s paid payments hnone hsafe
    obtain ⟨rc, s', h⟩ := hsafe.carriedOut
    rw [h] at hnone
    cases hnone
  obtain ⟨n, hn, hvals⟩ := Option.map_eq_some_iff.mp hnegative
  obtain ⟨n', hn', hvals'⟩ := Option.map_eq_some_iff.mp hcheap
  obtain ⟨hmath, hnone⟩ := Prod.mk.inj hvals
  obtain ⟨hmath', hnone'⟩ := Prod.mk.inj hvals'
  exact ⟨⟨n, hn, hmath, hunsafe hnone⟩, n', hn', hmath', hunsafe hnone'⟩

end Rapids.Token
