import Rapids.Token.DexSplit

/-!
# Rapids.Token.DexRoyalties

**What royalties buy.** The buyer of a token with royalties pays two parties, and
`DEx_payment` counts the royalties towards the price, unless the seller is their receiver.
It counts them for every output to the seller, and `HandleDExPayments` offers every output
twice; the one output to the receiver serves all of them.

What the accept sells to one transaction is computed by the order of its outputs alone
(`OnSale.round`): outputs to other sellers touch neither the accept nor, as long as the
receiver stays the same, its royalties.
-/

namespace Rapids.Token

open Rapids.Lib

section
variable {s s₀ s' : State} {seller buyer : Address} {p : PropertyId} {accept : CMPAccept} {block : Nat}
  {payments outs : List (Address × Int)} {sold paid rc : Int}

/-- The royalties on a sale, whatever the buyer gets records of in the meantime: there is one
receiver. -/
def SteadyRoyalties (s : State) (buyer : Address) (p : PropertyId) (desired : Int) : Prop :=
  ∀ qs : List PropertyId,
    dexRoyalties (qs.foldl (fun s q => creditName s buyer q) s) p desired = dexRoyalties s p desired

/-- An accept on an offer under `DEXMATH` whose royalties go to another than the seller. -/
structure RoyaltyTerms (s : State) (seller buyer : Address) (p : PropertyId) (accept : CMPAccept)
    (block : Nat) : Prop where
  found : dexPayableAccept s seller buyer = some (p, accept)
  math : isFeatureActivated s.params Feature.dexmath.id block = true
  steady : SteadyRoyalties s buyer p accept.rpdDesiredOriginal
  other : seller ≠ (dexRoyalties s p accept.rpdDesiredOriginal).1

/-- What is counted for an output to the seller: the output, and all of the royalties. -/
def countedAmount (s : State) (p : PropertyId) (accept : CMPAccept) (paid : Int) : Int :=
  max 0 (toI64 (paid + (dexRoyalties s p accept.rpdDesiredOriginal).2))

/-- The amounts counted for the outputs to a seller. -/
def countedAmounts (s : State) (seller : Address) (p : PropertyId) (accept : CMPAccept)
    (outs : List (Address × Int)) : List Int :=
  (outs.filter fun out => out.1 = seller).map fun out => countedAmount s p accept out.2

theorem countedAmounts_cons (out : Address × Int) :
    countedAmounts s seller p accept (out :: outs) =
      if out.1 = seller then countedAmount s p accept out.2 :: countedAmounts s seller p accept outs
      else countedAmounts s seller p accept outs := by
  unfold countedAmounts
  split_ifs with hown
  · rw [List.filter_cons_of_pos (by simpa using hown), List.map_cons]
  · rw [List.filter_cons_of_neg (by simpa using hown)]

/-- The outputs of a transaction to an address. -/
def outputsTo (vout : List (Option Address × Int)) (who : Address) : List Int :=
  (vout.filter fun out => out.1 = some who).map Prod.snd

/-- The tokens of an offer that are sold: what is no longer reserved for accepts. -/
def soldTo (s s' : State) (seller : Address) (p : PropertyId) : Int :=
  getTokenBalance s seller p .acceptReserve - getTokenBalance s' seller p .acceptReserve

theorem foldl_creditName_frame (qs : List PropertyId) (s : State) (buyer : Address) :
    (qs.foldl (fun s q => creditName s buyer q) s).sp = s.sp ∧
      (qs.foldl (fun s q => creditName s buyer q) s).cfg = s.cfg ∧
      (qs.foldl (fun s q => creditName s buyer q) s).params = s.params := by
  induction qs generalizing s with
  | nil => exact ⟨rfl, rfl, rfl⟩
  | cons q qs ih => exact ih (creditName s buyer q)

/-- Royalties that go to an address are steady. -/
theorem steadyRoyalties_of_address {desired : Int}
    (haddress : isUsernameValid ((getSP s p).getD {}).royaltiesReceiver = false) :
    SteadyRoyalties s buyer p desired := by
  intro qs
  obtain ⟨hsp, hcfg, -⟩ := foldl_creditName_frame qs s buyer
  have hentry : getSP (qs.foldl (fun s q => creditName s buyer q) s) p = getSP s p := by
    unfold getSP
    rw [hsp, hcfg]
  simp [dexRoyalties, hentry, haddress]

/-! ### One accept, among others -/

/-- **Where a sale stands** between two payments: what has been sold of the accept, and what is
open between buyer and seller. -/
structure OnSale (s₀ s : State) (seller buyer : Address) (p : PropertyId) (sold : Int)
    (waiting : Option (PropertyId × CMPAccept)) : Prop where
  names : ∃ qs : List PropertyId, SameNames (qs.foldl (fun s q => creditName s buyer q) s₀) s
  reserve : getTokenBalance s seller p .acceptReserve = getTokenBalance s₀ seller p .acceptReserve - sold
  found : dexPayableAccept s seller buyer = waiting
  single : SingleOffer s

/-- Not all of the accept has been sold, if anything has. -/
def PartSold (accept : CMPAccept) (sold : Int) : Prop :=
  0 ≤ sold ∧ (sold = 0 ∨ sold < accept.acceptAmountRemaining)

variable {waiting : Option (PropertyId × CMPAccept)}

section
variable (h : OnSale s₀ s seller buyer p sold waiting)
include h

theorem OnSale.dexRoyalties
    (hsteady : SteadyRoyalties s₀ buyer p accept.rpdDesiredOriginal) :
    Token.dexRoyalties s p accept.rpdDesiredOriginal = Token.dexRoyalties s₀ p accept.rpdDesiredOriginal ∧
      getSP s p = getSP s₀ p ∧ s.params = s₀.params := by
  obtain ⟨qs, hnames⟩ := h.names
  obtain ⟨hsp, hcfg, hparams⟩ := foldl_creditName_frame qs s₀ buyer
  refine ⟨(hnames.dexRoyalties p _).trans (hsteady qs), ?_, hnames.params.trans hparams⟩
  unfold getSP
  rw [hnames.sp, hnames.cfg, hsp, hcfg]

theorem OnSale.isPayable
    (hsteady : SteadyRoyalties s₀ buyer p accept.rpdDesiredOriginal) (n : Int) :
    Token.isPayable s p (accept.reduce n) payments = Token.isPayable s₀ p accept payments := by
  obtain ⟨hroyalties, hsp, -⟩ := h.dexRoyalties hsteady
  have hdesired : (accept.reduce n).rpdDesiredOriginal = accept.rpdDesiredOriginal := rfl
  unfold Token.isPayable dexRoyaltiesPaid
  rw [hdesired, hroyalties, hsp]

/-- The names after a payment, of whatever accept. -/
theorem OnSale.names_pay {payee : Address}
    (hpay : dexPayment s payee buyer paid block payments = some (rc, s')) :
    ∃ qs : List PropertyId, SameNames (qs.foldl (fun s q => creditName s buyer q) s₀) s' := by
  obtain ⟨qs, hnames⟩ := h.names
  rcases dexPayment_spec hpay with ⟨rfl, -⟩ | ⟨q, a, x, s₁, -, -, -, h1, hcase⟩
  · exact ⟨qs, hnames⟩
  have hlast : SameNames s₁ s' := by
    rcases hcase with ⟨-, hframe, -⟩ | ⟨-, rfl⟩
    · rw [hframe]
      exact ⟨rfl, rfl, rfl, rfl⟩
    · exact ⟨rfl, rfl, rfl, rfl⟩
  have hmove := (transferIfPositive_names h1).trans hlast
  split_ifs at hmove
  · refine ⟨qs ++ [q], ?_⟩
    rw [List.foldl_append]
    exact (hnames.creditName buyer q).trans hmove
  · exact ⟨qs, hnames.trans hmove⟩

/-- A payment to another seller leaves the sale where it is. -/
theorem OnSale.pay_other {payee : Address}
    (hne : seller ≠ payee) (hpay : dexPayment s payee buyer paid block payments = some (rc, s')) :
    OnSale s₀ s' seller buyer p sold waiting := by
  refine ⟨h.names_pay hpay, ?_, ?_, (dexPayment_step hpay).single h.single⟩
  · rw [← h.reserve]
    rcases dexPayment_spec hpay with ⟨rfl, -⟩ | ⟨q, a, x, s₁, -, -, -, h1, hcase⟩
    · rfl
    have hkept : getTokenBalance s₁ seller p .acceptReserve = getTokenBalance s seller p .acceptReserve := by
      by_cases hpos : 0 < a.purchased x
      · rw [(transferIfPositive_moved hpos.le (by simp) (by simp) h1).balance]
        simp [hne]
      · rw [transferIfPositive_of_nonpos (not_lt.mp hpos) h1]
    rw [← hkept]
    rcases hcase with ⟨-, hframe, -⟩ | ⟨-, rfl⟩
    · rw [hframe]
      rfl
    · rfl
  · rw [← h.found, ← ((follows_bargain h.single buyer).pay hpay).accept seller]
    have hkept : ∀ b : Bargain, (b.pay buyer block payments (payee, paid)).accept seller = b.accept seller := by
      intro b
      unfold Bargain.pay
      cases b.accept payee with
      | none => rfl
      | some own =>
        by_cases hopen : Token.isPayable b.names own.1 own.2 payments = true
        · exact (congrArg (fun c : Bargain => c.accept seller) (if_pos hopen)).trans
            (Function.update_of_ne hne _ _)
        · exact congrArg (fun c : Bargain => c.accept seller) (if_neg hopen)
    exact hkept _

end

/-- **A payment to the seller** for the open accept. -/
theorem OnSale.pay_own (hterms : RoyaltyTerms s₀ seller buyer p accept block)
    (h : OnSale s₀ s seller buyer p sold (some (p, accept.reduce sold)))
    (hopen : Token.isPayable s₀ p accept payments = true) (hpart : PartSold accept sold)
    (hpay : dexPayment s seller buyer paid block payments = some (rc, s')) :
    ∃ v, v = countedAmount s₀ p accept paid ∧
      0 ≤ accept.offerAmountOriginal ∧ 0 < accept.rpdDesiredOriginal ∧
      (accept.acceptAmountRemaining ≤ sold + accept.tokensFor v ∧
          OnSale s₀ s' seller buyer p (max 0 accept.acceptAmountRemaining) none ∨
        PartSold accept (sold + accept.tokensFor v) ∧
          OnSale s₀ s' seller buyer p (sold + accept.tokensFor v)
            (some (p, accept.reduce (sold + accept.tokensFor v)))) := by
  have hprice : (accept.reduce sold).rpdDesiredOriginal ≠ 0 := by
    rw [Token.isPayable, Bool.and_eq_true] at hopen
    exact of_decide_eq_true hopen.1
  obtain ⟨x, s₁, hbought, h1, htally, hfound⟩ := dexPayment_open h.single h.found
    ((h.isPayable hterms.steady sold).trans hopen) hpay
  obtain ⟨hroyalties, -, hparams⟩ := h.dexRoyalties hterms.steady
  have hpaid : dexAmountPaid s seller p (accept.reduce sold) paid =
      toI64 (paid + (Token.dexRoyalties s₀ p accept.rpdDesiredOriginal).2) := by
    simp only [dexAmountPaid, CMPAccept.reduce, hroyalties]
    rw [if_pos hterms.other]
  rw [dexAmountBought, hpaid, hparams, if_pos hterms.math] at hbought
  obtain ⟨hO, hD, hv, -⟩ := (calculateDExPurchase_isSome_iff hprice).mp ⟨x, hbought⟩
  obtain ⟨hx, hnonneg⟩ := calculateDExPurchase_spec hbought
  refine ⟨_, rfl, hO, hD, ?_⟩
  rw [countedAmount, max_eq_right hv]
  generalize toI64 (paid + (Token.dexRoyalties s₀ p accept.rpdDesiredOriginal).2) = v at hx
  obtain rfl : x = accept.tokensFor v := hx
  have hmoved : getTokenBalance s' seller p .acceptReserve = getTokenBalance s seller p .acceptReserve -
      max 0 (min (accept.acceptAmountRemaining - sold) (accept.tokensFor v)) := by
    have hmin : (accept.reduce sold).purchased (accept.tokensFor v) =
        min (accept.acceptAmountRemaining - sold) (accept.tokensFor v) := CMPAccept.purchased_eq_min ..
    rw [htally]
    rw [hmin] at h1
    by_cases hpos : 0 < min (accept.acceptAmountRemaining - sold) (accept.tokensFor v)
    · rw [(transferIfPositive_moved hpos.le (by simp) (by simp) h1).balance, max_eq_right hpos.le]
      simp
    · rw [transferIfPositive_of_nonpos (not_lt.mp hpos) h1, max_eq_left (not_lt.mp hpos), sub_zero]
  have hsingle := (dexPayment_step hpay).single h.single
  obtain ⟨hzero, hrest⟩ := hpart
  have hleft : (accept.reduce sold).acceptAmountRemaining = accept.acceptAmountRemaining - sold := rfl
  rw [hleft] at hfound
  by_cases hle : accept.acceptAmountRemaining ≤ sold + accept.tokensFor v
  · refine .inl ⟨hle, h.names_pay hpay, ?_, ?_, hsingle⟩
    · rw [hmoved, h.reserve]
      omega
    · rw [hfound, if_pos (by omega)]
  · refine .inr ⟨⟨by omega, by omega⟩, h.names_pay hpay, ?_, ?_, hsingle⟩
    · rw [hmoved, h.reserve]
      omega
    · rw [hfound, if_neg (by omega)]
      simp [CMPAccept.reduce, sub_sub]

/-! ### A round, and two -/

/-- What the counted amounts are worth together. -/
def worthCounted (s : State) (seller : Address) (p : PropertyId) (accept : CMPAccept)
    (outs : List (Address × Int)) : Int :=
  ((countedAmounts s seller p accept outs).map accept.tokensFor).sum

theorem worthCounted_nonneg (hO : 0 ≤ accept.offerAmountOriginal) (hD : 0 < accept.rpdDesiredOriginal)
    (outs : List (Address × Int)) : 0 ≤ worthCounted s seller p accept outs := by
  refine sum_tokensFor_nonneg hO hD fun v hv => ?_
  obtain ⟨out, -, rfl⟩ := List.mem_map.mp hv
  exact le_max_left _ _

/-- Where no payment to the seller does anything, the sale stays where it is. -/
theorem OnSale.round_idle
    (hidle : ∀ {s s' : State} {paid rc : Int}, OnSale s₀ s seller buyer p sold waiting →
      dexPayment s seller buyer paid block payments = some (rc, s') → s' = s)
    (h : OnSale s₀ s seller buyer p sold waiting)
    (hround : paymentRound buyer block payments s outs = some s') :
    OnSale s₀ s' seller buyer p sold waiting := by
  induction outs generalizing s with
  | nil => exact Option.some.inj hround ▸ h
  | cons out outs ih =>
    obtain ⟨rc, s₁, h1, h2⟩ := (paymentRound_cons out outs).mp hround
    by_cases hown : seller = out.1
    · rw [← hown] at h1
      obtain rfl := hidle h h1
      exact ih h h2
    · exact ih (h.pay_other hown h1) h2

/-- **A round of payments**: the accept sells what the counted amounts are worth, up to what is
left of it. -/
theorem OnSale.round (hterms : RoyaltyTerms s₀ seller buyer p accept block)
    (h : OnSale s₀ s seller buyer p sold (some (p, accept.reduce sold)))
    (hopen : Token.isPayable s₀ p accept payments = true) (hpart : PartSold accept sold)
    (hround : paymentRound buyer block payments s outs = some s') :
    ∃ n, n = sold + worthCounted s₀ seller p accept outs ∧
      (countedAmounts s₀ seller p accept outs ≠ [] → 0 < accept.rpdDesiredOriginal) ∧
      (accept.acceptAmountRemaining ≤ n ∧
          OnSale s₀ s' seller buyer p (max 0 accept.acceptAmountRemaining) none ∨
        PartSold accept n ∧ OnSale s₀ s' seller buyer p n (some (p, accept.reduce n))) := by
  induction outs generalizing s sold with
  | nil => exact ⟨sold, (add_zero _).symm, fun hne => absurd rfl hne, .inr ⟨hpart, Option.some.inj hround ▸ h⟩⟩
  | cons out outs ih =>
    obtain ⟨rc, s₁, h1, h2⟩ := (paymentRound_cons out outs).mp hround
    by_cases hown : out.1 = seller
    · rw [hown] at h1
      obtain ⟨v, hv, hO, hD, hcase⟩ := h.pay_own hterms hopen hpart h1
      have hworth : worthCounted s₀ seller p accept (out :: outs) =
          accept.tokensFor v + worthCounted s₀ seller p accept outs := by
        rw [worthCounted, countedAmounts_cons, if_pos hown, ← hv]
        exact List.sum_cons
      rw [hworth, ← add_assoc]
      rcases hcase with ⟨hle, hover⟩ | ⟨hlt, hmore⟩
      · have hnonneg : 0 ≤ worthCounted s₀ seller p accept outs := worthCounted_nonneg hO hD outs
        exact ⟨_, rfl, fun _ => hD, .inl ⟨by omega, hover.round_idle (fun hs => dexPayment_none hs.found) h2⟩⟩
      · obtain ⟨n, hn, -, hend⟩ := ih hmore hlt h2
        exact ⟨n, hn, fun _ => hD, hend⟩
    · rw [worthCounted, countedAmounts_cons, if_neg hown]
      exact ih (h.pay_other (Ne.symm hown) h1) hpart h2

theorem worthCounted_append (outs outs' : List (Address × Int)) :
    worthCounted s seller p accept (outs ++ outs') =
      worthCounted s seller p accept outs + worthCounted s seller p accept outs' := by
  unfold worthCounted countedAmounts
  rw [List.filter_append, List.map_append, List.map_append, List.sum_append]

/-- **What one transaction buys**: every counted amount twice, up to what is left. -/
theorem soldTo_eq (hs : SingleOffer s) (hterms : RoyaltyTerms s seller buyer p accept block)
    (hpay : handleDExPayments s buyer outs block = some s') :
    (Token.isPayable s p accept outs = false → soldTo s s' seller p = 0) ∧
      (Token.isPayable s p accept outs = true →
        (countedAmounts s seller p accept outs ≠ [] → 0 < accept.rpdDesiredOriginal) ∧
        soldTo s s' seller p =
          max 0 (min accept.acceptAmountRemaining (2 * worthCounted s seller p accept outs))) := by
  have hround : paymentRound buyer block outs s (outs ++ outs) = some s' := hpay
  have hstart : OnSale s s seller buyer p 0 (some (p, accept.reduce 0)) := by
    refine ⟨⟨[], SameNames.refl s⟩, (sub_zero _).symm, ?_, hs⟩
    rw [hterms.found, CMPAccept.reduce, sub_zero]
  constructor
  · intro hclosed
    have hend := hstart.round_idle (fun {t t' paid rc} ht hp => by
      rcases dexPayment_spec hp with ⟨rfl, -⟩ | ⟨q, a, -, -, hq, hopen, -⟩
      · rfl
      · rw [ht.found] at hq
        cases hq
        rw [ht.isPayable hterms.steady, hclosed] at hopen
        cases hopen) hround
    rw [soldTo, hend.reserve, sub_zero, sub_self]
  · intro hopen
    obtain ⟨n, hn, hprice, hcase⟩ := hstart.round hterms hopen ⟨le_rfl, .inl rfl⟩ hround
    rw [worthCounted_append] at hn
    refine ⟨fun hne => hprice ?_, ?_⟩
    · rw [countedAmounts, List.filter_append, List.map_append]
      exact List.append_ne_nil_of_left_ne_nil hne _
    rcases hcase with ⟨hle, hend⟩ | ⟨⟨hzero, hrest⟩, hend⟩
    · rw [soldTo, hend.reserve]
      omega
    · rw [soldTo, hend.reserve]
      omega

/-- What is paid to the seller and to the receiver of the royalties, at the price of the accept,
and one token for each output to the seller. -/
def royaltyBound (s : State) (seller : Address) (p : PropertyId) (accept : CMPAccept)
    (vout : List (Option Address × Int)) : Int :=
  ((outputsTo vout seller).sum +
      (outputsTo vout (Token.dexRoyalties s p accept.rpdDesiredOriginal).1).sum) * accept.offerAmountOriginal +
    (outputsTo vout seller).length * accept.rpdDesiredOriginal

/-- What was paid covers the accept, or covers the counted amounts, taken twice and rounded up. -/
def RoyaltiesCovered (s : State) (seller : Address) (p : PropertyId) (accept : CMPAccept)
    (vout : List (Option Address × Int)) : Prop :=
  0 ≤ royaltyBound s seller p accept vout ∧
    (Token.isPayable s p accept (paymentOutputs s vout) = true →
      accept.acceptAmountRemaining * accept.rpdDesiredOriginal ≤ royaltyBound s seller p accept vout ∨
      2 * ((countedAmounts s seller p accept (paymentOutputs s vout)).sum * accept.offerAmountOriginal +
          ((countedAmounts s seller p accept (paymentOutputs s vout)).map accept.roundingOf).sum) ≤
        royaltyBound s seller p accept vout)

end

/-! ### Two parts of an indivisible work -/

/-- A state in which the identifier counter has come round to 3, and a token with royalties is
registered under it. -/
def State.withRoyalties (s : State) : State :=
  (putSP { s with sp := { s.sp with nextSpid := 3 } } 1
    { issuer := "seller", ticker := "ART", numTokens := 1, fixed := true, royaltiesPercentage := 50,
      royaltiesReceiver := "artist" }).2

/-- The accept of `coarseRun` in such a state. -/
def royaltySale : Option State :=
  (run step (Node.initial exchangeCfg) coarseRun).map fun n => n.state.withRoyalties

theorem royaltySale_terms (vout : List (Option Address × Int)) (sold bound : Int)
    (hvals : royaltySale.bind (fun s => (handleDExPayments s "buyer" (paymentOutputs s vout) 1).map fun s' =>
      ((dexPayableAccept s "seller" "buyer", isFeatureActivated s.params Feature.dexmath.id 1),
        (isUsernameValid ((getSP s 3).getD {}).royaltiesReceiver, (dexRoyalties s 3 20).1),
        soldTo s s' "seller" 3, royaltyBound s "seller" 3 coarseAccept vout)) =
      some ((some (3, coarseAccept), true), (false, "artist"), sold, bound)) :
    ∃ s s', royaltySale = some s ∧ SingleOffer s ∧ RoyaltyTerms s "seller" "buyer" 3 coarseAccept 1 ∧
      handleDExPayments s "buyer" (paymentOutputs s vout) 1 = some s' ∧
      soldTo s s' "seller" 3 = sold ∧ royaltyBound s "seller" 3 coarseAccept vout = bound := by
  simp only [Option.bind_eq_some_iff, Option.map_eq_some_iff, Prod.mk.injEq] at hvals
  obtain ⟨s, hs, s', hpay, ⟨hfound, hmath⟩, ⟨haddress, hreceiver⟩, hsold, hbound⟩ := hvals
  obtain ⟨n, hn, rfl⟩ := Option.map_eq_some_iff.mp hs
  refine ⟨_, s', hs, (run_inv hn).core.single, ⟨hfound, hmath, steadyRoyalties_of_address haddress, ?_⟩,
    hpay, hsold, hbound⟩
  rw [show coarseAccept.rpdDesiredOriginal = 20 from rfl, hreceiver]
  decide

end Rapids.Token
