import Rapids.Token.DexWallet
import Rapids.Token.Rounding

/-!
# Rapids.Token.DexWalletSound

When the transaction that `sendtokendexpay` builds **delivers the tokens**.

The outputs to the seller buy, in two rounds, what their values are worth at the price of
the accept, up to what is left of it (`Waiting.round`). Their worth in one round is no
less than that of the amount asked for, so what the two rounds buy is what the amount is
worth exactly if either is all that is left.
-/

namespace Rapids.Token

open Rapids.Lib OrdMap

variable {v x : Int} {outs : List (Address × Int)}

/-! ### Worth -/

section
variable {accept : CMPAccept}

theorem tokensFor_mono (hO : 0 ≤ accept.offerAmountOriginal) (hD : 0 < accept.rpdDesiredOriginal) {v' : Int}
    (h : v ≤ v') : accept.tokensFor v ≤ accept.tokensFor v' := by
  have hD : (0 : ℚ) < accept.rpdDesiredOriginal := Int.cast_pos.mpr hD
  refine Int.ceil_mono (div_le_div_of_nonneg_right ?_ hD.le)
  exact Int.cast_le.mpr (mul_le_mul_of_nonneg_right h hO)

theorem tokensFor_add_le (v v' : Int) :
    accept.tokensFor (v + v') ≤ accept.tokensFor v + accept.tokensFor v' := by
  unfold CMPAccept.tokensFor
  rw [add_mul, Int.cast_add, add_div]
  exact Int.ceil_add_le _ _

theorem tokensFor_nonneg (hO : 0 ≤ accept.offerAmountOriginal) (hD : 0 < accept.rpdDesiredOriginal)
    (hv : 0 ≤ v) : 0 ≤ accept.tokensFor v := by
  have hD : (0 : ℚ) < accept.rpdDesiredOriginal := Int.cast_pos.mpr hD
  exact Int.ceil_nonneg (div_nonneg (Int.cast_nonneg (mul_nonneg hv hO)) hD.le)

theorem tokensFor_pos (hO : 0 < accept.offerAmountOriginal) (hD : 0 < accept.rpdDesiredOriginal)
    (hv : 0 < v) : 0 < accept.tokensFor v := by
  have hD : (0 : ℚ) < accept.rpdDesiredOriginal := Int.cast_pos.mpr hD
  exact Int.ceil_pos.mpr (div_pos (Int.cast_pos.mpr (mul_pos hv hO)) hD)

theorem tokensFor_price (hD : 0 < accept.rpdDesiredOriginal) :
    accept.tokensFor accept.rpdDesiredOriginal = accept.offerAmountOriginal := by
  have hD : (accept.rpdDesiredOriginal : ℚ) ≠ 0 := (Int.cast_pos.mpr hD).ne'
  unfold CMPAccept.tokensFor
  rw [Int.cast_mul, mul_div_right_comm, div_self hD, one_mul, Int.ceil_intCast]

theorem calculateDExPurchase_spec
    (h : calculateDExPurchase accept.offerAmountOriginal accept.rpdDesiredOriginal v = some x) :
    x = accept.tokensFor v ∧ 0 ≤ x := by
  simp only [calculateDExPurchase, do_eq_some] at h
  obtain ⟨offered, hO, desired, hD, paid, hv, q, hq, hx⟩ := h
  have hO := convertTo256_spec hO
  have hD := convertTo256_spec hD
  have hv := convertTo256_spec hv
  obtain ⟨rfl, -⟩ := convertTo64_spec hx
  refine ⟨?_, Int.natCast_nonneg q⟩
  rw [divideAndRoundUp_eq hq, CMPAccept.tokensFor, ← hO, ← hD, ← hv]
  push_cast
  rfl

theorem calculateDExPurchase_eq_some (hO : 0 ≤ accept.offerAmountOriginal) (hD : 0 < accept.rpdDesiredOriginal) (hv : 0 ≤ v) (hfits : accept.tokensFor v ≤ i64Max) :
    calculateDExPurchase accept.offerAmountOriginal accept.rpdDesiredOriginal v = some (accept.tokensFor v) := by
  obtain ⟨q, hq, hworth⟩ := divideAndRoundUp_mul hv hO hD
  simp only [calculateDExPurchase, convertTo256_of_nonneg hO, convertTo256_of_nonneg hD.le,
    convertTo256_of_nonneg hv, Option.bind_eq_bind, Option.bind_some, hq, convertTo64_of_le hworth hfits]
  rfl

theorem calculateDesiredRPD_spec {n due : Int} (hn : 0 < n) (hle : n ≤ due)
    (h : calculateDesiredRPD accept.offerAmountOriginal accept.rpdDesiredOriginal accept.acceptAmountRemaining =
      some due) :
    0 < accept.offerAmountOriginal ∧ 0 < accept.rpdDesiredOriginal ∧ 0 < accept.acceptAmountRemaining ∧
      (accept.acceptAmountRemaining ≤ accept.offerAmountOriginal → n ≤ accept.rpdDesiredOriginal) := by
  unfold calculateDesiredRPD at h
  split_ifs at h with hO
  · cases h
    omega
  simp only [do_eq_some] at h
  obtain ⟨offered, hO', desired, hD, available, hR, q, hq, hx⟩ := h
  have hO' := convertTo256_spec hO'
  have hD := convertTo256_spec hD
  have hR := convertTo256_spec hR
  obtain ⟨rfl, -⟩ := convertTo64_spec hx
  have hpos : desired * available ≠ 0 := fun hzero => by
    rw [divideAndRoundUp, if_pos hzero] at hq
    cases hq
    omega
  have hdesired : desired ≠ 0 := fun hz => hpos (by rw [hz, Nat.zero_mul])
  have havailable : available ≠ 0 := fun hz => hpos (by rw [hz, Nat.mul_zero])
  refine ⟨by omega, by omega, by omega, fun hwithin => ?_⟩
  have hoffered : (0 : ℚ) < offered := Nat.cast_pos.mpr (by omega)
  have hle' : (q : Int) ≤ desired := by
    rw [divideAndRoundUp_eq hq]
    refine Int.ceil_le.mpr ?_
    rw [div_le_iff₀ hoffered]
    have hmul : desired * available ≤ desired * offered := Nat.mul_le_mul_left _ (by omega)
    exact_mod_cast hmul
  omega

end

/-! ### One accept, paid bit by bit -/

section
variable {s₀ s s' : State} {seller buyer : Address} {p : PropertyId} {accept : CMPAccept} {block : Nat}
  {payments : List (Address × Int)} {rest paid rc : Int}

theorem sameNames_creditName_again (s : State) (buyer : Address) (p : PropertyId) :
    SameNames (creditName s buyer p) (creditName (creditName s buyer p) buyer p) := by
  refine ⟨rfl, rfl, rfl, ?_⟩
  show recordsOf ((creditName s buyer p).tally.insert _ _) = recordsOf (s.tally.insert _ _)
  rw [recordsOf_insert]
  show addRecord (recordsOf (s.tally.insert _ _)) buyer p = _
  rw [recordsOf_insert]
  unfold addRecord
  rw [find?_insert_self, Option.getD_some, insert_eq_self (find?_insert_self _ _ _),
    insert_eq_self (find?_insert_self _ _ _)]

/-- **What is left of the accept waits for payments.** No other accept of the buyer is open with
a payee, and what has been bought is in his balance. -/
structure Waiting (s₀ s : State) (seller buyer : Address) (p : PropertyId) (accept : CMPAccept)
    (payments : List (Address × Int)) (rest : Int) : Prop where
  found : dexPayableAccept s seller buyer = some (p, { accept with acceptAmountRemaining := rest })
  alone : ∀ out ∈ payments, out.1 ≠ seller → dexPayableAccept s out.1 buyer = none
  names : SameNames s₀ s ∨ SameNames (creditName s₀ buyer p) s
  balance : getTokenBalance s buyer p .balance =
    getTokenBalance s₀ buyer p .balance + (accept.acceptAmountRemaining - rest)
  reserve : getTokenBalance s seller p .acceptReserve =
    getTokenBalance s₀ seller p .acceptReserve - (accept.acceptAmountRemaining - rest)
  single : SingleOffer s
  solvent : Solvent s

/-- All of the accept has been bought. -/
structure PaidOff (s₀ s : State) (seller buyer : Address) (p : PropertyId) (accept : CMPAccept)
    (payments : List (Address × Int)) : Prop where
  closed : ∀ out ∈ payments, dexPayableAccept s out.1 buyer = none
  balance : getTokenBalance s buyer p .balance =
    getTokenBalance s₀ buyer p .balance + accept.acceptAmountRemaining
  reserve : getTokenBalance s seller p .acceptReserve =
    getTokenBalance s₀ seller p .acceptReserve - accept.acceptAmountRemaining
  solvent : Solvent s

theorem waiting_start (hfound : dexPayableAccept s₀ seller buyer = some (p, accept))
    (halone : ∀ out ∈ payments, out.1 ≠ seller → dexPayableAccept s₀ out.1 buyer = none)
    (hsingle : SingleOffer s₀) (hsolvent : Solvent s₀) :
    Waiting s₀ s₀ seller buyer p accept payments accept.acceptAmountRemaining :=
  ⟨hfound, halone, .inl (SameNames.refl s₀), by rw [sub_self, add_zero], by rw [sub_self, sub_zero], hsingle,
    hsolvent⟩

section
variable (h : Waiting s₀ s seller buyer p accept payments rest)
  (hsteady : Token.dexRoyalties (creditName s₀ buyer p) p accept.rpdDesiredOriginal = Token.dexRoyalties s₀ p accept.rpdDesiredOriginal)
include h hsteady

theorem Waiting.dexRoyalties
    :
    Token.dexRoyalties s p accept.rpdDesiredOriginal = Token.dexRoyalties s₀ p accept.rpdDesiredOriginal ∧
      getSP s p = getSP s₀ p ∧ s.params = s₀.params := by
  rcases h.names with hnames | hnames
  · refine ⟨hnames.dexRoyalties p _, ?_, hnames.params⟩
    unfold getSP
    rw [hnames.sp, hnames.cfg]
  · refine ⟨(hnames.dexRoyalties p _).trans hsteady, ?_, hnames.params⟩
    unfold getSP
    rw [hnames.sp, hnames.cfg]
    rfl

theorem Waiting.isPayable
    :
    Token.isPayable s p { accept with acceptAmountRemaining := rest } payments =
      Token.isPayable s₀ p accept payments := by
  obtain ⟨hroyalties, hsp, -⟩ := h.dexRoyalties hsteady
  unfold Token.isPayable dexRoyaltiesPaid
  rw [hroyalties, hsp]

theorem Waiting.dexAmountBought
    (paid : Int) :
    Token.dexAmountBought s seller p { accept with acceptAmountRemaining := rest } paid block =
      Token.dexAmountBought s₀ seller p accept paid block := by
  obtain ⟨hroyalties, -, hparams⟩ := h.dexRoyalties hsteady
  unfold Token.dexAmountBought dexAmountPaid
  rw [hroyalties, hparams]

end

theorem bargain_pay_of_bought {a : CMPAccept} (hfound : dexPayableAccept s seller buyer = some (p, a))
    (hpay : Token.isPayable s p a payments = true)
    (hbought : Token.dexAmountBought s seller p a paid block = some x) :
    (bargain s buyer).pay buyer block payments (seller, paid) =
      { accept := Function.update (bargain s buyer).accept seller
          (if a.acceptAmountRemaining ≤ x then none else some (p, a.reduce x))
        names := if 0 < a.purchased x then creditName s buyer p else s } := by
  have hown : (bargain s buyer).accept seller = some (p, a) := hfound
  rw [Bargain.pay, hown]
  show (if Token.isPayable s p a payments then _ else bargain s buyer) = _
  rw [hpay, if_pos rfl]
  show ({ accept := _, names := _ } : Bargain) = _
  rw [show Token.dexAmountBought (bargain s buyer).names seller p a paid block = some x from hbought]
  rfl

theorem dexPayment_none (hnone : dexPayableAccept s seller buyer = none)
    (h : dexPayment s seller buyer paid block payments = some (rc, s')) : s' = s := by
  rcases dexPayment_spec h with ⟨rfl, -⟩ | ⟨q, a, -, -, hfound, -⟩
  · rfl
  · rw [hnone] at hfound
    cases hfound

/-- A payment for an open accept that is payable moves what it buys, up to what is left. -/
theorem dexPayment_open {a : CMPAccept} (hsingle : SingleOffer s)
    (hfound : dexPayableAccept s seller buyer = some (p, a)) (hopen : Token.isPayable s p a payments = true)
    (hpay : dexPayment s seller buyer paid block payments = some (rc, s')) :
    ∃ x s₁, Token.dexAmountBought s seller p a paid block = some x ∧
      transferIfPositive s p (a.purchased x) (seller, .acceptReserve) (buyer, .balance) = some s₁ ∧
      (∀ who t, getTokenBalance s' who p t = getTokenBalance s₁ who p t) ∧
      dexPayableAccept s' seller buyer =
        if a.acceptAmountRemaining ≤ x then none else some (p, a.reduce x) := by
  have hfollows := (follows_bargain hsingle buyer).pay hpay
  rcases dexPayment_spec hpay with ⟨-, hnot⟩ | ⟨q, a', x, s₁, hq, -, hbought, h1, hcase⟩
  · rw [hnot p a hfound] at hopen
    cases hopen
  rw [hfound] at hq
  cases hq
  rw [bargain_pay_of_bought hfound hopen hbought] at hfollows
  have hself := hfollows.accept seller
  simp only [Function.update_self] at hself
  refine ⟨x, s₁, hbought, h1, fun who t => ?_, hself.symm⟩
  rcases hcase with ⟨-, hframe, -⟩ | ⟨-, rfl⟩
  · rw [hframe]
    rfl
  · rfl

/-- **One payment to the seller** buys what it is worth, up to what is left. -/
theorem Waiting.pay (h : Waiting s₀ s seller buyer p accept payments rest) (hrest : 0 < rest)
    (hsteady : Token.dexRoyalties (creditName s₀ buyer p) p accept.rpdDesiredOriginal =
      Token.dexRoyalties s₀ p accept.rpdDesiredOriginal)
    (hpayable : Token.isPayable s₀ p accept payments = true)
    (hworth : ∀ x, Token.dexAmountBought s₀ seller p accept paid block = some x → 0 ≤ x)
    (hpay : dexPayment s seller buyer paid block payments = some (rc, s')) :
    ∃ x, Token.dexAmountBought s₀ seller p accept paid block = some x ∧
      (rest ≤ x ∧ PaidOff s₀ s' seller buyer p accept payments ∨
        x < rest ∧ Waiting s₀ s' seller buyer p accept payments (rest - x)) := by
  have hfollows := (follows_bargain h.single buyer).pay hpay
  have hstep := dexPayment_step hpay
  rcases dexPayment_spec hpay with ⟨-, hnot⟩ | ⟨q, a, x, s₁, hfound, hopen, hbought, h1, hcase⟩
  · rw [← h.isPayable hsteady, hnot p _ h.found] at hpayable
    cases hpayable
  rw [h.found] at hfound
  cases hfound
  rw [bargain_pay_of_bought h.found hopen hbought] at hfollows
  rw [h.dexAmountBought hsteady] at hbought
  have hx := hworth x hbought
  have hother : ∀ out ∈ payments, out.1 ≠ seller → dexPayableAccept s' out.1 buyer = none := by
    intro out hout hne
    rw [← hfollows.accept out.1]
    exact (Function.update_of_ne hne _ _).trans (h.alone out hout hne)
  have hself := hfollows.accept seller
  simp only [Function.update_self] at hself
  have hmoved : ∀ {amount : Int}, 0 ≤ amount →
      transferIfPositive s p amount (seller, .acceptReserve) (buyer, .balance) = some s₁ →
      getTokenBalance s₁ buyer p .balance = getTokenBalance s buyer p .balance + amount ∧
        getTokenBalance s₁ seller p .acceptReserve = getTokenBalance s seller p .acceptReserve - amount := by
    intro amount hamount hmove
    have hbal := (transferIfPositive_moved hamount (by simp) (by simp) hmove).balance
    rw [hbal, hbal]
    simp
  refine ⟨x, hbought, ?_⟩
  rcases hcase with ⟨hle, hframe, -⟩ | ⟨hlt, rfl⟩
  · -- the rest is bought
    have hall : CMPAccept.purchased { accept with acceptAmountRemaining := rest } x = rest := by
      rw [CMPAccept.purchased_eq_min]
      exact min_eq_left hle
    rw [hall] at h1
    obtain ⟨hbalance, hreserve⟩ := hmoved hrest.le h1
    have htally : ∀ a t, getTokenBalance s' a p t = getTokenBalance s₁ a p t := fun a t => by
      rw [hframe]
      rfl
    rw [if_pos hle] at hself
    refine .inl ⟨hle, fun out hout => ?_, ?_, ?_, hstep.solvent h.solvent⟩
    · by_cases hne : out.1 = seller
      · rw [hne, ← hself]
      · exact hother out hout hne
    · rw [htally, hbalance, h.balance]
      ring
    · rw [htally, hreserve, h.reserve]
      ring
  · -- a part is bought
    have hpart : CMPAccept.purchased { accept with acceptAmountRemaining := rest } x = x := by
      rw [CMPAccept.purchased_eq_min]
      exact min_eq_right hlt.le
    rw [hpart] at h1
    obtain ⟨hbalance, hreserve⟩ := hmoved hx h1
    rw [if_neg (not_le.mpr hlt)] at hself
    refine .inr ⟨hlt, hself.symm, hother, ?_, ?_, ?_, hstep.single h.single, hstep.solvent h.solvent⟩
    · have hnames := hfollows.names
      simp only [hpart] at hnames
      split_ifs at hnames with hpos
      · refine .inr (SameNames.trans ?_ hnames)
        rcases h.names with hsame | hsame
        · exact hsame.creditName buyer p
        · exact (sameNames_creditName_again s₀ buyer p).trans (hsame.creditName buyer p)
      · rcases h.names with hsame | hsame
        · exact .inl (hsame.trans hnames)
        · exact .inr (hsame.trans hnames)
    · show getTokenBalance s₁ buyer p .balance = _
      rw [hbalance, h.balance]
      ring
    · show getTokenBalance s₁ seller p .acceptReserve = _
      rw [hreserve, h.reserve]
      ring

theorem paymentRound_none
    (hnone : ∀ out ∈ outs, dexPayableAccept s out.1 buyer = none)
    (hround : paymentRound buyer block payments s outs = some s') : s' = s := by
  induction outs with
  | nil => exact (Option.some.inj hround).symm
  | cons out rest ih =>
    obtain ⟨rc, s₁, h1, h2⟩ := (paymentRound_cons out rest).mp hround
    obtain rfl := dexPayment_none (hnone out (.head _)) h1
    exact ih (fun out' hout' => hnone out' (.tail _ hout')) h2

theorem paymentRound_unpayable (hsub : ∀ out ∈ outs, out ∈ payments)
    (hfound : dexPayableAccept s seller buyer = some (p, accept))
    (halone : ∀ out ∈ payments, out.1 ≠ seller → dexPayableAccept s out.1 buyer = none)
    (hnot : Token.isPayable s p accept payments = false)
    (hround : paymentRound buyer block payments s outs = some s') : s' = s := by
  induction outs with
  | nil => exact (Option.some.inj hround).symm
  | cons out rest ih =>
    obtain ⟨rc, s₁, h1, h2⟩ := (paymentRound_cons out rest).mp hround
    have hsame : s₁ = s := by
      by_cases hne : out.1 = seller
      · rcases dexPayment_spec h1 with ⟨rfl, -⟩ | ⟨q, a, -, -, hq, hopen, -⟩
        · rfl
        · rw [hne, hfound] at hq
          cases hq
          rw [hnot] at hopen
          cases hopen
      · exact dexPayment_none (halone out (hsub out (.head _)) hne) h1
    rw [hsame] at h2
    exact ih (fun out' hout' => hsub out' (.tail _ hout')) h2

theorem Bargain.accept_of_pay {b : Bargain} {out : Address × Int} {payee : Address} {x : CMPAccept}
    (h : (b.pay buyer block payments out).accept payee = some (p, x)) :
    ∃ y, b.accept payee = some (p, y) := by
  unfold Bargain.pay at h
  cases hown : b.accept out.1 with
  | none =>
    rw [hown] at h
    exact ⟨x, h⟩
  | some own =>
    obtain ⟨q, a⟩ := own
    rw [hown] at h
    by_cases hopen : Token.isPayable b.names q a payments = true
    · simp only [if_pos hopen] at h
      by_cases hp : payee = out.1
      · subst hp
        rw [Function.update_self] at h
        split_ifs at h with hle
        obtain ⟨rfl, -⟩ := Prod.mk.inj (Option.some.inj h)
        exact ⟨a, hown⟩
      · rw [Function.update_of_ne hp] at h
        exact ⟨x, h⟩
    · simp only [if_neg hopen] at h
      exact ⟨x, h⟩

theorem payable_of_pay (hsingle : SingleOffer s)
    (hpay : dexPayment s seller buyer paid block payments = some (rc, s')) {payee : Address}
    {x : CMPAccept} (hx : dexPayableAccept s' payee buyer = some (p, x)) :
    ∃ y, dexPayableAccept s payee buyer = some (p, y) := by
  rw [← ((follows_bargain hsingle buyer).pay hpay).accept payee] at hx
  exact Bargain.accept_of_pay hx

theorem paymentRound_elsewhere (hsingle : SingleOffer s)
    (hno : ∀ out ∈ outs, ∀ x, dexPayableAccept s out.1 buyer ≠ some (p, x))
    (hround : paymentRound buyer block payments s outs = some s') :
    getTokenBalance s' buyer p .balance = getTokenBalance s buyer p .balance := by
  induction outs generalizing s with
  | nil => rw [Option.some.inj hround]
  | cons out rest ih =>
    obtain ⟨rc, s₁, h1, h2⟩ := (paymentRound_cons out rest).mp hround
    have hrest := ih ((dexPayment_step h1).single hsingle) (fun out' hout' x hx => by
      obtain ⟨y, hy⟩ := payable_of_pay hsingle h1 hx
      exact hno out' (.tail _ hout') y hy) h2
    refine hrest.trans ?_
    rcases dexPayment_spec h1 with ⟨rfl, -⟩ | ⟨q, a, x, s₂, hfound, -, -, hmove, hcase⟩
    · rfl
    have hq : p ≠ q := fun heq => hno out (.head _) a (heq ▸ hfound)
    have hbal : getTokenBalance s₂ buyer p .balance = getTokenBalance s buyer p .balance := by
      by_cases hpos : 0 < a.purchased x
      · rw [purchase_balance hpos hmove, if_neg fun hc => hq hc.2, add_zero]
      · rw [transferIfPositive_of_nonpos (not_lt.mp hpos) hmove]
    rw [← hbal]
    rcases hcase with ⟨-, hframe, -⟩ | ⟨-, rfl⟩
    · rw [hframe]
      rfl
    · rfl

/-- What payments to the seller are worth together. -/
def worthOf (s₀ : State) (seller : Address) (p : PropertyId) (accept : CMPAccept) (block : Nat)
    (outs : List (Address × Int)) : Int :=
  (outs.map fun out =>
    if out.1 = seller then (Token.dexAmountBought s₀ seller p accept out.2 block).getD 0 else 0).sum

theorem worthOf_cons (out : Address × Int) (outs : List (Address × Int)) :
    worthOf s₀ seller p accept block (out :: outs) =
      (if out.1 = seller then (Token.dexAmountBought s₀ seller p accept out.2 block).getD 0 else 0) +
        worthOf s₀ seller p accept block outs :=
  List.sum_cons

theorem worthOf_append (outs outs' : List (Address × Int)) :
    worthOf s₀ seller p accept block (outs ++ outs') =
      worthOf s₀ seller p accept block outs + worthOf s₀ seller p accept block outs' := by
  unfold worthOf
  rw [List.map_append, List.sum_append]

theorem worthOf_nonneg
    (hworth : ∀ paid x, Token.dexAmountBought s₀ seller p accept paid block = some x → 0 ≤ x)
    (outs : List (Address × Int)) : 0 ≤ worthOf s₀ seller p accept block outs := by
  induction outs with
  | nil => exact le_refl _
  | cons out rest ih =>
    rw [worthOf_cons]
    refine add_nonneg ?_ ih
    split_ifs
    · cases hb : Token.dexAmountBought s₀ seller p accept out.2 block with
      | none => exact le_refl _
      | some x => exact hworth out.2 x hb
    · exact le_refl _

/-- **A round of payments** buys what they are worth, up to what is left. -/
theorem Waiting.round (hsub : ∀ out ∈ outs, out ∈ payments)
    (hsteady : Token.dexRoyalties (creditName s₀ buyer p) p accept.rpdDesiredOriginal =
      Token.dexRoyalties s₀ p accept.rpdDesiredOriginal)
    (hpayable : Token.isPayable s₀ p accept payments = true)
    (hworth : ∀ paid x, Token.dexAmountBought s₀ seller p accept paid block = some x → 0 ≤ x)
    (h : Waiting s₀ s seller buyer p accept payments rest) (hrest : 0 < rest)
    (hround : paymentRound buyer block payments s outs = some s') :
    rest ≤ worthOf s₀ seller p accept block outs ∧ PaidOff s₀ s' seller buyer p accept payments ∨
      worthOf s₀ seller p accept block outs < rest ∧
        Waiting s₀ s' seller buyer p accept payments (rest - worthOf s₀ seller p accept block outs) := by
  induction outs generalizing s rest with
  | nil =>
    cases hround
    refine .inr ⟨hrest, ?_⟩
    rw [show worthOf s₀ seller p accept block [] = 0 from rfl, sub_zero]
    exact h
  | cons out outs ih =>
    obtain ⟨rc, s₁, h1, h2⟩ := (paymentRound_cons out outs).mp hround
    have hsub' : ∀ out' ∈ outs, out' ∈ payments := fun out' hout' => hsub out' (.tail _ hout')
    rw [worthOf_cons]
    by_cases hne : out.1 = seller
    · rw [hne] at h1
      obtain ⟨x, hx, hcase⟩ := h.pay hrest hsteady hpayable (hworth out.2) h1
      rw [if_pos hne, hx, Option.getD_some]
      have hnonneg := worthOf_nonneg hworth outs
      rcases hcase with ⟨hle, hoff⟩ | ⟨hlt, hwait⟩
      · obtain rfl := paymentRound_none (fun out' hout' => hoff.closed out' (hsub' out' hout')) h2
        exact .inl ⟨by omega, hoff⟩
      · rcases ih hsub' hwait (by omega) h2 with ⟨hle, hoff⟩ | ⟨hmore, hwait⟩
        · exact .inl ⟨by omega, hoff⟩
        · refine .inr ⟨by omega, ?_⟩
          rw [← sub_sub]
          exact hwait
    · obtain rfl := dexPayment_none (h.alone out (hsub out (.head _)) hne) h1
      rw [if_neg hne, zero_add]
      exact ih hsub' h hrest h2

/-! ### Payments are carried out -/

theorem purchase_isSome {amount : Int} (hsolvent : Solvent s)
    (hreserved : amount ≤ getTokenBalance s seller p .acceptReserve)
    (hroom : getTokenBalance s buyer p .balance + amount ≤ i64Max) :
    ∃ s₁, transferIfPositive s p amount (seller, .acceptReserve) (buyer, .balance) = some s₁ := by
  by_cases hpos : 0 < amount
  · have hdebit : ∃ s₁, assertTally s seller p (-amount) .acceptReserve = some s₁ :=
      assertTally_isSome (by omega) (fun hc => by omega) (fun _ => by unfold i64Min; omega) (fun _ => by omega)
        (fun hc => by simp at hc)
    obtain ⟨s₁, h1⟩ := hdebit
    have hbal : getTokenBalance s₁ buyer p .balance = getTokenBalance s buyer p .balance := by
      rw [(assertTally_spec h1).balance]
      simp
    have hnonneg := hsolvent.nonneg buyer p .balance (by simp)
    have hcredit : ∃ s₂, assertTally s₁ buyer p amount .balance = some s₂ :=
      assertTally_isSome (by omega) (fun _ => by omega) (fun hc => by omega) (fun _ => by omega)
        (fun _ hc => by omega)
    obtain ⟨s₂, h2⟩ := hcredit
    refine ⟨s₂, ?_⟩
    rw [transferIfPositive, if_pos hpos, transferTally, h1]
    exact h2
  · exact ⟨s, if_neg hpos⟩

theorem Waiting.exists_pay (h : Waiting s₀ s seller buyer p accept payments rest)
    (hsteady : Token.dexRoyalties (creditName s₀ buyer p) p accept.rpdDesiredOriginal =
      Token.dexRoyalties s₀ p accept.rpdDesiredOriginal)
    (hpayable : Token.isPayable s₀ p accept payments = true)
    (hreserved : accept.acceptAmountRemaining ≤ getTokenBalance s₀ seller p .acceptReserve)
    (hroom : getTokenBalance s₀ buyer p .balance + accept.acceptAmountRemaining ≤ i64Max)
    (hbought : Token.dexAmountBought s₀ seller p accept paid block = some x) :
    ∃ rc s', dexPayment s seller buyer paid block payments = some (rc, s') := by
  rw [← h.isPayable hsteady] at hpayable
  rw [← h.dexAmountBought hsteady] at hbought
  have hbalance := h.balance
  have hreserve := h.reserve
  refine exists_dexPayment h.found hpayable hbought ?_
  have hpurchased : CMPAccept.purchased { accept with acceptAmountRemaining := rest } x = min rest x :=
    CMPAccept.purchased_eq_min _ _
  rw [hpurchased]
  exact purchase_isSome h.solvent (by omega) (by omega)

theorem exists_pay_none (hnone : dexPayableAccept s seller buyer = none) :
    dexPayment s seller buyer paid block payments = some (dexErrorPayment - 1, s) := by
  rw [dexPayment, hnone]

theorem exists_round_none
    (hnone : ∀ out ∈ outs, dexPayableAccept s out.1 buyer = none) :
    paymentRound buyer block payments s outs = some s :=
  paymentRound_of_idle fun out hout => ⟨_, exists_pay_none (hnone out hout)⟩

/-- A round is carried out if every payment to the seller has a definite worth. -/
theorem Waiting.exists_round (hsub : ∀ out ∈ outs, out ∈ payments)
    (hsteady : Token.dexRoyalties (creditName s₀ buyer p) p accept.rpdDesiredOriginal =
      Token.dexRoyalties s₀ p accept.rpdDesiredOriginal)
    (hpayable : Token.isPayable s₀ p accept payments = true)
    (hworth : ∀ paid x, Token.dexAmountBought s₀ seller p accept paid block = some x → 0 ≤ x)
    (hreserved : accept.acceptAmountRemaining ≤ getTokenBalance s₀ seller p .acceptReserve)
    (hroom : getTokenBalance s₀ buyer p .balance + accept.acceptAmountRemaining ≤ i64Max)
    (hpriced : ∀ out ∈ outs, out.1 = seller →
      (Token.dexAmountBought s₀ seller p accept out.2 block).isSome = true)
    (h : Waiting s₀ s seller buyer p accept payments rest) (hrest : 0 < rest) :
    ∃ s', paymentRound buyer block payments s outs = some s' := by
  induction outs generalizing s rest with
  | nil => exact ⟨s, rfl⟩
  | cons out outs ih =>
    have hsub' : ∀ out' ∈ outs, out' ∈ payments := fun out' hout' => hsub out' (.tail _ hout')
    have hpriced' := fun out' hout' => hpriced out' (List.mem_cons_of_mem out hout')
    by_cases hne : out.1 = seller
    · obtain ⟨x, hx⟩ := Option.isSome_iff_exists.mp (hpriced out (.head _) hne)
      obtain ⟨rc, s₁, h1⟩ := h.exists_pay hsteady hpayable hreserved hroom hx
      obtain ⟨y, hy, hcase⟩ := h.pay hrest hsteady hpayable (hworth out.2) h1
      obtain rfl := Option.some.inj (hx.symm.trans hy)
      rw [← hne] at h1
      rcases hcase with ⟨-, hoff⟩ | ⟨hlt, hwait⟩
      · have hidle : paymentRound buyer block payments s₁ outs = some s₁ :=
          exists_round_none fun out' hout' => hoff.closed out' (hsub' out' hout')
        exact ⟨s₁, (paymentRound_cons out outs).mpr ⟨rc, s₁, h1, hidle⟩⟩
      · obtain ⟨s', hs'⟩ := ih hsub' hpriced' hwait (by omega)
        exact ⟨s', (paymentRound_cons out outs).mpr ⟨rc, s₁, h1, hs'⟩⟩
    · have hnone := h.alone out (hsub out (.head _)) hne
      obtain ⟨s', hs'⟩ := ih hsub' hpriced' h hrest
      exact ⟨s', (paymentRound_cons out outs).mpr ⟨_, s, exists_pay_none hnone, hs'⟩⟩

end

/-! ### What the wallet builds -/

section
variable {w : DexWallet} {s : State} {seller buyer dest : Address} {nChange : Int} {vout : List (Address × Int)}

theorem paymentsOf_eq (s : State) (vout : List (Address × Int)) :
    paymentsOf s vout = vout.filter fun out => out.1 ≠ s.cfg.exodusAddress := by
  unfold paymentsOf paymentOutputs
  rw [List.filterMap_map]
  induction vout with
  | nil => rfl
  | cons out rest ih =>
    by_cases hexodus : out.1 = s.cfg.exodusAddress
    · rw [List.filter_cons_of_neg (by simpa using hexodus), List.filterMap_cons_none, ih]
      exact if_pos hexodus
    · rw [List.filter_cons_of_pos (by simpa using hexodus), List.filterMap_cons_some, ih]
      exact if_neg hexodus

theorem mergeChange_filter (dest : Address) (nChange : Int) (vout : List (Address × Int)) (a : Address) :
    (mergeChange dest nChange vout).filter (fun out => out.1 = a) =
      if dest = a then mergeChange dest nChange (vout.filter fun out => out.1 = a)
      else vout.filter fun out => out.1 = a := by
  induction vout with
  | nil => split_ifs <;> rfl
  | cons out rest ih =>
    rw [mergeChange]
    by_cases hout : out.1 = dest
    · rw [if_pos hout]
      by_cases ha : dest = a
      · rw [if_pos ha, List.filter_cons_of_pos (by simp [hout, ha]), List.filter_cons_of_pos (by simp [hout, ha]),
          mergeChange, if_pos hout]
      · rw [if_neg ha, List.filter_cons_of_neg (by simp [hout, ha]), List.filter_cons_of_neg (by simp [hout, ha])]
    · rw [if_neg hout]
      by_cases ha : out.1 = a
      · have hne : ¬ dest = a := fun hc => hout (ha.trans hc.symm)
        rw [List.filter_cons_of_pos (by simp [ha]), ih, if_neg hne, if_neg hne,
          List.filter_cons_of_pos (by simp [ha])]
      · rw [List.filter_cons_of_neg (by simp [ha]), ih, List.filter_cons_of_neg (by simp [ha])]

theorem insertIdx_filter {x : Address × Int} {a : Address} (hne : x.1 ≠ a) (i : Nat) (vout : List (Address × Int)) :
    (vout.insertIdx i x).filter (fun out => out.1 = a) = vout.filter fun out => out.1 = a := by
  induction vout generalizing i with
  | nil =>
    cases i with
    | zero => rw [List.insertIdx_zero, List.filter_cons_of_neg (by simpa using hne)]
    | succ i => rfl
  | cons out rest ih =>
    cases i with
    | zero => rw [List.insertIdx_zero, List.filter_cons_of_neg (by simpa using hne)]
    | succ i => rw [List.insertIdx_succ_cons, List.filter_cons, List.filter_cons, ih]

/-- Change touches the outputs to an address only by what it merges into the first of them. -/
theorem addChange_filter (w : DexWallet) (dest : Address) (nChange : Int) (vout : List (Address × Int))
    {a : Address} (hin : ∃ out ∈ vout, out.1 = a) :
    (w.addChange dest nChange vout).filter (fun out => out.1 = a) = (vout.filter fun out => out.1 = a) ∨
      0 < nChange ∧ (w.addChange dest nChange vout).filter (fun out => out.1 = a) =
        mergeChange a nChange (vout.filter fun out => out.1 = a) := by
  unfold DexWallet.addChange
  split_ifs with hneg hany hdust
  · exact .inl rfl
  · rw [mergeChange_filter]
    split_ifs with ha
    · exact .inr ⟨not_le.mp hneg, by rw [ha]⟩
    · exact .inl rfl
  · exact .inl rfl
  · by_cases ha : dest = a
    · obtain ⟨out, hout, rfl⟩ := hin
      exact absurd (List.any_eq_true.mpr ⟨out, hout, decide_eq_true ha.symm⟩) hany
    · exact .inl (insertIdx_filter ha _ _)

theorem mem_addChange {out : Address × Int} (h : out ∈ w.addChange dest nChange vout) :
    out.1 = dest ∨ ∃ out' ∈ vout, out'.1 = out.1 := by
  have hmerge : ∀ {l : List (Address × Int)}, out ∈ mergeChange dest nChange l → ∃ out' ∈ l, out'.1 = out.1 := by
    intro l
    induction l with
    | nil => exact fun hout => absurd hout List.not_mem_nil
    | cons x rest ih =>
      intro hout
      rw [mergeChange] at hout
      split_ifs at hout with hx
      · rcases List.mem_cons.mp hout with rfl | hout
        · exact ⟨x, .head _, rfl⟩
        · exact ⟨out, .tail _ hout, rfl⟩
      · rcases List.mem_cons.mp hout with rfl | hout
        · exact ⟨out, .head _, rfl⟩
        · obtain ⟨out', hout', heq⟩ := ih hout
          exact ⟨out', .tail _ hout', heq⟩
  unfold DexWallet.addChange at h
  split_ifs at h
  · exact .inr ⟨out, h, rfl⟩
  · exact .inr (hmerge h)
  · exact .inr ⟨out, h, rfl⟩
  · rcases List.eq_or_mem_of_mem_insertIdx h with rfl | hout
    · exact .inl rfl
    · exact .inr ⟨out, hout, rfl⟩

variable {n : Int} {percentage : Nat} {receiver : String}

/-- The address that royalties go to. -/
def royaltiesTo (s : State) (receiver : String) : Address :=
  if isUsernameValid receiver then getUsernameAddress s receiver else receiver

/-- What `CreateDExTransaction` asks the wallet to pay. -/
def dexRecipients (w : DexWallet) (s : State) (seller : Address) (n royalties : Int) (receiver : String) :
    List (Address × Int) :=
  [(s.cfg.exodusAddress, w.dustThreshold s.cfg.exodusAddress), (w.encoded seller, n - royalties)] ++
    if 0 < royalties then [(w.encoded (royaltiesTo s receiver), royalties)] else []

theorem createDExTransaction_spec
    (h : createDExTransaction w s buyer seller n percentage receiver = some vout) :
    ∃ nChange, vout = w.addChange (w.encoded buyer) nChange
        (dexRecipients w s seller n (royaltiesOn percentage n) receiver) ∧
      n - royaltiesOn percentage n + max nChange 0 ≤ i64Max ∧ 0 ≤ n - royaltiesOn percentage n := by
  unfold createDExTransaction DexWallet.createTransaction at h
  generalize hr : royaltiesOn percentage n = royalties at h ⊢
  change (if ((dexRecipients w s seller n royalties receiver).any fun rec =>
      rec.2 < 0 || rec.2 < w.dustThreshold rec.1) = true then none
    else if w.nValueIn < ((dexRecipients w s seller n royalties receiver).map Prod.snd).sum + w.nFeeRet then none
    else some (w.addChange (w.encoded buyer) (w.nValueIn -
      ((dexRecipients w s seller n royalties receiver).map Prod.snd).sum - w.nFeeRet)
      (dexRecipients w s seller n royalties receiver))) = some vout at h
  split_ifs at h with hdust hfunds
  rw [Bool.not_eq_true, List.any_eq_false] at hdust
  have hnonneg : ∀ rec ∈ dexRecipients w s seller n royalties receiver, 0 ≤ rec.2 := by
    intro rec hrec
    have hpos := hdust rec hrec
    rw [Bool.not_eq_true, Bool.or_eq_false_iff] at hpos
    exact not_lt.mp (of_decide_eq_false hpos.1)
  have hexodus := hnonneg (s.cfg.exodusAddress, w.dustThreshold s.cfg.exodusAddress) (by simp [dexRecipients])
  have hseller := hnonneg (w.encoded seller, n - royalties) (by simp [dexRecipients])
  have hsum : n - royalties ≤ ((dexRecipients w s seller n royalties receiver).map Prod.snd).sum := by
    unfold dexRecipients
    rw [List.map_append, List.sum_append]
    have hmore : 0 ≤ ((if 0 < royalties then [(w.encoded (royaltiesTo s receiver), royalties)] else []).map
        Prod.snd).sum := by
      split_ifs with hpos
      · simpa using hpos.le
      · simp
    simp only [List.map_cons, List.map_nil, List.sum_cons, List.sum_nil]
    simp only at hexodus
    omega
  have hin := w.nValueIn_le
  refine ⟨_, (Option.some.inj h).symm, ?_, hseller⟩
  generalize ((dexRecipients w s seller n royalties receiver).map Prod.snd).sum = nValue at hsum hfunds
  simp only at hseller
  omega

section
variable (hbuilt : createDExTransaction w s buyer seller n percentage receiver = some vout)
include hbuilt

/-- The payments to the seller: one of the amount without the royalties, or with change, and the
royalties, if they go to the seller. -/
theorem seller_payments
    (hencoded : w.encoded seller = seller) (hexodus : seller ≠ s.cfg.exodusAddress) :
    ∃ v, n - royaltiesOn percentage n ≤ v ∧ v ≤ i64Max ∧
      (paymentsOf s vout).filter (fun out => out.1 = seller) =
        (seller, v) :: if 0 < royaltiesOn percentage n ∧ w.encoded (royaltiesTo s receiver) = seller then
          [(seller, royaltiesOn percentage n)] else [] := by
  obtain ⟨nChange, rfl, hmax, -⟩ := createDExTransaction_spec hbuilt
  generalize royaltiesOn percentage n = royalties at hmax ⊢
  have hboth : (paymentsOf s (w.addChange (w.encoded buyer) nChange
      (dexRecipients w s seller n royalties receiver))).filter (fun out => out.1 = seller) =
      (w.addChange (w.encoded buyer) nChange (dexRecipients w s seller n royalties receiver)).filter
        fun out => out.1 = seller := by
    rw [paymentsOf_eq, List.filter_filter]
    refine List.filter_congr fun out _ => ?_
    by_cases hseller : out.1 = seller
    · simp [hseller, hexodus]
    · simp [hseller]
  have hown : (dexRecipients w s seller n royalties receiver).filter (fun out => out.1 = seller) =
      (seller, n - royalties) :: if 0 < royalties ∧ w.encoded (royaltiesTo s receiver) = seller then
          [(seller, royalties)] else [] := by
    unfold dexRecipients
    rw [hencoded, List.filter_append, List.filter_cons_of_neg (by simpa using hexodus.symm),
      List.filter_cons_of_pos (by simp)]
    by_cases hpos : 0 < royalties
    · by_cases hto : w.encoded (royaltiesTo s receiver) = seller
      · simp [hpos, hto]
      · simp [hpos, hto]
    · simp [hpos]
  have hin : ∃ out ∈ dexRecipients w s seller n royalties receiver, out.1 = seller :=
    ⟨(w.encoded seller, n - royalties), by simp [dexRecipients], hencoded⟩
  rw [hboth]
  rcases addChange_filter w (w.encoded buyer) nChange _ hin with heq | ⟨hpos, heq⟩
  · exact ⟨n - royalties, le_refl _, by omega, heq.trans hown⟩
  · refine ⟨n - royalties + nChange, by omega, by omega, heq.trans ?_⟩
    rw [hown, mergeChange, if_pos rfl]

theorem encoded_of_payment
    {out : Address × Int} (hout : out ∈ paymentsOf s vout) : w.encoded out.1 = out.1 := by
  obtain ⟨nChange, rfl, -, -⟩ := createDExTransaction_spec hbuilt
  rw [paymentsOf_eq, List.mem_filter, decide_eq_true_iff] at hout
  rcases mem_addChange hout.1 with hdest | ⟨out', hout', heq⟩
  · rw [hdest, w.encoded_encoded]
  · rw [← heq]
    unfold dexRecipients at hout'
    rcases List.mem_append.mp hout' with hmem | hmem
    · rcases List.mem_cons.mp hmem with rfl | hmem
      · exact absurd heq.symm hout.2
      · rw [List.mem_singleton.mp hmem, w.encoded_encoded]
    · split_ifs at hmem with hpos
      · rw [List.mem_singleton.mp hmem, w.encoded_encoded]
      · cases hmem

end

end

/-! ### The tokens arrive -/

section
variable {w : DexWallet} {s : State} {seller buyer : Address} {p : PropertyId} {accept : CMPAccept}
  {block : Nat} {vout payments outs : List (Address × Int)} {n : Int}

theorem worthOf_filter (outs : List (Address × Int)) :
    worthOf s seller p accept block (outs.filter fun out => out.1 = seller) =
      worthOf s seller p accept block outs := by
  induction outs with
  | nil => rfl
  | cons out rest ih =>
    by_cases hout : out.1 = seller
    · rw [List.filter_cons_of_pos (by simpa using hout), worthOf_cons, worthOf_cons, ih]
    · rw [List.filter_cons_of_neg (by simpa using hout), worthOf_cons, ih, if_neg hout, zero_add]

theorem royalties_exact {percentage : Nat} {amount : Int} (hamount : 0 ≤ amount)
    (hfits : amount * percentage ≤ i64Max) :
    (toI64 (amount * percentage)).tdiv 100 = amount * percentage / 100 ∧
      royaltiesOn percentage amount = amount * percentage / 100 := by
  have hnonneg : 0 ≤ amount * percentage := mul_nonneg hamount (Int.natCast_nonneg _)
  have hexact : toI64 (amount * percentage) = amount * percentage :=
    toI64_of_inI64 ⟨by unfold i64Min; omega, hfits⟩
  have hdiv : (toI64 (amount * percentage)).tdiv 100 = amount * percentage / 100 := by
    rw [hexact, Int.tdiv_eq_ediv_of_nonneg hnonneg]
  refine ⟨hdiv, ?_⟩
  unfold royaltiesOn
  split_ifs with hpos
  · exact hdiv
  · have hzero : percentage = 0 := by omega
    rw [hzero]
    simp

/-- What the outputs are computed from. -/
structure Terms (s : State) (p : PropertyId) (accept : CMPAccept) (n : Int) : Prop where
  offered_pos : 0 < accept.offerAmountOriginal
  price_pos : 0 < accept.rpdDesiredOriginal
  rest_pos : 0 < accept.acceptAmountRemaining
  amount_pos : 0 < n
  amount_le : n ≤ accept.rpdDesiredOriginal

theorem Terms.royalties (h : Terms s p accept n)
    (hexact : accept.rpdDesiredOriginal * ((getSP s p).getD {}).royaltiesPercentage ≤ i64Max)
    (hpercent : ((getSP s p).getD {}).royaltiesPercentage ≤ 99) :
    0 ≤ royaltiesOn ((getSP s p).getD {}).royaltiesPercentage n ∧
      royaltiesOn ((getSP s p).getD {}).royaltiesPercentage n < n ∧
      royaltiesOn ((getSP s p).getD {}).royaltiesPercentage n ≤
        (dexRoyalties s p accept.rpdDesiredOriginal).2 ∧
      (dexRoyalties s p accept.rpdDesiredOriginal).2 ≤ i64Max := by
  obtain ⟨-, hprice, -, hamount, hle⟩ := h
  show _ ∧ _ ∧ _ ≤ (toI64 (accept.rpdDesiredOriginal *
    ((getSP s p).getD {}).royaltiesPercentage)).tdiv 100 ∧ (toI64 (accept.rpdDesiredOriginal *
    ((getSP s p).getD {}).royaltiesPercentage)).tdiv 100 ≤ i64Max
  generalize ((getSP s p).getD {}).royaltiesPercentage = percentage at hexact hpercent ⊢
  have hcast : (percentage : Int) ≤ 99 := by exact_mod_cast hpercent
  have hnonneg : (0 : Int) ≤ percentage := Int.natCast_nonneg _
  have hmono : n * percentage ≤ accept.rpdDesiredOriginal * percentage := mul_le_mul_of_nonneg_right hle hnonneg
  have hpart : n * percentage ≤ n * 99 := mul_le_mul_of_nonneg_left hcast hamount.le
  have hzero : 0 ≤ n * percentage := mul_nonneg hamount.le hnonneg
  rw [(royalties_exact hamount.le (hmono.trans hexact)).2, (royalties_exact hprice.le hexact).1]
  refine ⟨by omega, by omega, Int.ediv_le_ediv (by decide) hmono, ?_⟩
  omega

theorem dexAmountBought_spec (hmath : isFeatureActivated s.params Feature.dexmath.id block = true)
    (h : dexAmountBought s seller p accept v block = some x) :
    x = accept.tokensFor (dexAmountPaid s seller p accept v) ∧ 0 ≤ x ∧
      0 ≤ dexAmountPaid s seller p accept v := by
  unfold dexAmountBought at h
  rw [if_pos hmath] at h
  obtain ⟨hx, hnonneg⟩ := calculateDExPurchase_spec h
  refine ⟨hx, hnonneg, ?_⟩
  simp only [calculateDExPurchase, do_eq_some] at h
  obtain ⟨-, -, -, -, paid, hpaid, -⟩ := h
  have := convertTo256_spec hpaid
  omega

/-- **One round is worth the amount**, if the first payment to the seller has a definite worth;
and then all of them have. -/
theorem worth_of_built (hmath : isFeatureActivated s.params Feature.dexmath.id block = true)
    (hpercent : ((getSP s p).getD {}).royaltiesPercentage ≤ 99) (hterms : Terms s p accept n)
    (hbargain : OneBargain s seller buyer p accept (paymentsOf s vout))
    (hbuilt : createDExTransaction w s buyer seller n ((getSP s p).getD {}).royaltiesPercentage
      ((getSP s p).getD {}).royaltiesReceiver = some vout)
    (hencoded : w.encoded seller = seller) (hexodus : seller ≠ s.cfg.exodusAddress)
    (hroyalties : dexRoyaltiesPaid s p accept.rpdDesiredOriginal (paymentsOf s vout) = true)
    (hpriced : ∀ out ∈ (paymentsOf s vout).find? fun out => out.1 = seller,
      (dexAmountBought s seller p accept out.2 block).isSome = true) :
    accept.tokensFor n ≤ worthOf s seller p accept block (paymentsOf s vout) ∧
      ∀ out ∈ paymentsOf s vout, out.1 = seller →
        (dexAmountBought s seller p accept out.2 block).isSome = true := by
  obtain ⟨hr0, hrn, hrdue, hduemax⟩ := hterms.royalties hbargain.exact_ hpercent
  obtain ⟨v, hv, hvmax, hsellers⟩ := seller_payments hbuilt hencoded hexodus
  generalize hr : royaltiesOn ((getSP s p).getD {}).royaltiesPercentage n = r at hr0 hrn hrdue hv hsellers
  have hto : royaltiesTo s ((getSP s p).getD {}).royaltiesReceiver =
      (dexRoyalties s p accept.rpdDesiredOriginal).1 := rfl
  rw [hto] at hsellers
  have hfirst : (paymentsOf s vout).find? (fun out => out.1 = seller) = some (seller, v) := by
    rw [← List.head?_filter, hsellers]
    rfl
  obtain ⟨x, hx⟩ := Option.isSome_iff_exists.mp (hpriced (seller, v) hfirst)
  obtain ⟨hxworth, hx0, hpaid0⟩ := dexAmountBought_spec hmath hx
  have hmem : ∀ out ∈ paymentsOf s vout, out.1 = seller →
      out ∈ (paymentsOf s vout).filter fun out => out.1 = seller := fun out hout hseller =>
    List.mem_filter.mpr ⟨hout, decide_eq_true hseller⟩
  rw [← worthOf_filter, hsellers, worthOf_cons, if_pos rfl, hx, Option.getD_some]
  rw [hsellers] at hmem
  unfold dexAmountPaid at hxworth hpaid0
  generalize hdue : dexRoyalties s p accept.rpdDesiredOriginal = due at hrdue hduemax hsellers hmem hxworth hpaid0
  obtain ⟨payee, dueAmount⟩ := due
  simp only at hrdue hduemax hsellers hmem hxworth hpaid0
  by_cases hself : seller = payee
  · -- the royalties go to the seller, who gets both outputs
    rw [if_neg (not_not.mpr hself)] at hxworth
    rw [← hself, hencoded] at hmem ⊢
    by_cases hpos : 0 < r
    · rw [if_pos ⟨hpos, rfl⟩] at hmem ⊢
      have hrest : dexAmountBought s seller p accept r block = some (accept.tokensFor r) := by
        unfold dexAmountBought dexAmountPaid
        rw [if_pos hmath, hdue]
        simp only [if_neg (not_not.mpr hself)]
        refine calculateDExPurchase_eq_some hterms.offered_pos.le hterms.price_pos hpos.le ?_
        have hle := tokensFor_mono hterms.offered_pos.le hterms.price_pos
          (hrn.le.trans hterms.amount_le)
        rw [tokensFor_price hterms.price_pos] at hle
        exact hle.trans hbargain.fits
      rw [worthOf_cons, if_pos rfl, hrest, Option.getD_some, show worthOf s seller p accept block [] = 0 from rfl,
        add_zero]
      constructor
      · calc accept.tokensFor n = accept.tokensFor (n - r + r) := by rw [sub_add_cancel]
          _ ≤ accept.tokensFor (n - r) + accept.tokensFor r := tokensFor_add_le _ _
          _ ≤ x + accept.tokensFor r := by
              rw [hxworth]
              exact add_le_add_left (tokensFor_mono hterms.offered_pos.le hterms.price_pos hv) _
      · intro out hout hseller
        rcases List.mem_cons.mp (hmem out hout hseller) with rfl | hout
        · rw [hx]
          rfl
        · rw [List.mem_singleton.mp hout, hrest]
          rfl
    · rw [if_neg fun hc => hpos hc.1] at hmem ⊢
      constructor
      · rw [show worthOf s seller p accept block [] = 0 from rfl, add_zero, hxworth]
        exact tokensFor_mono hterms.offered_pos.le hterms.price_pos (by omega)
      · intro out hout hseller
        rw [List.mem_singleton.mp (hmem out hout hseller), hx]
        rfl
  · -- the royalties go to someone else, and count as paid
    rw [if_pos hself] at hxworth hpaid0
    have hsum : toI64 (v + dueAmount) = v + dueAmount :=
      toI64_add_exact (by omega) hvmax (by omega) hduemax hpaid0
    rw [hsum] at hxworth
    have hone : ¬ (0 < r ∧ w.encoded payee = seller) := by
      rintro ⟨hpos, hcoded⟩
      rw [dexRoyaltiesPaid, hdue] at hroyalties
      rw [Bool.or_eq_true, List.any_eq_true] at hroyalties
      rcases hroyalties with hzero | ⟨out, hout, hmatch⟩
      · rw [beq_iff_eq] at hzero
        rw [hzero] at hr
        rw [← hr] at hpos
        exact lt_irrefl (0 : Int) hpos
      · rw [Bool.and_eq_true, beq_iff_eq] at hmatch
        have hfixed := encoded_of_payment hbuilt hout
        rw [hmatch.1, hcoded] at hfixed
        exact hself hfixed
    rw [if_neg hone] at hmem ⊢
    constructor
    · rw [show worthOf s seller p accept block [] = 0 from rfl, add_zero, hxworth]
      exact tokensFor_mono hterms.offered_pos.le hterms.price_pos (by omega)
    · intro out hout hseller
      rw [List.mem_singleton.mp (hmem out hout hseller), hx]
      rfl

theorem sendTokenDexPay_spec (hk : s.accepts.find? ⟨seller, p, buyer⟩ = some accept)
    (hwithin : accept.acceptAmountRemaining ≤ accept.offerAmountOriginal)
    (h : sendTokenDexPay w s buyer seller p n = some vout) :
    Terms s p accept n ∧ createDExTransaction w s buyer seller n ((getSP s p).getD {}).royaltiesPercentage
      ((getSP s p).getD {}).royaltiesReceiver = some vout := by
  unfold sendTokenDexPay at h
  by_cases hn : n ≤ 0
  · rw [if_pos hn] at h
    cases h
  rw [if_neg hn, hk] at h
  simp only [Option.bind_eq_bind, Option.bind_some, Option.bind_eq_some_iff] at h
  obtain ⟨due, hdue, h⟩ := h
  by_cases hmore : due < n
  · rw [if_pos hmore] at h
    cases h
  rw [if_neg hmore] at h
  obtain ⟨hO, hD, hR, hle⟩ := calculateDesiredRPD_spec (not_le.mp hn) (not_lt.mp hmore) hdue
  by_cases hless : (!isPropertyDivisible s p && decide (n < due)) = true
  · rw [if_pos hless] at h
    cases h
  rw [if_neg hless] at h
  exact ⟨⟨hO, hD, hR, not_le.mp hn, hle hwithin⟩, h⟩

theorem Waiting.first_priced {s₀ s' : State} {rest : Int} (hsub : ∀ out ∈ outs, out ∈ payments)
    (hsteady : Token.dexRoyalties (creditName s₀ buyer p) p accept.rpdDesiredOriginal =
      Token.dexRoyalties s₀ p accept.rpdDesiredOriginal)
    (hpayable : Token.isPayable s₀ p accept payments = true)
    (hworth : ∀ paid x, Token.dexAmountBought s₀ seller p accept paid block = some x → 0 ≤ x)
    (h : Waiting s₀ s seller buyer p accept payments rest) (hrest : 0 < rest)
    (hround : paymentRound buyer block payments s outs = some s') :
    ∀ out ∈ outs.find? fun out => out.1 = seller,
      (Token.dexAmountBought s₀ seller p accept out.2 block).isSome = true := by
  induction outs with
  | nil => exact fun out hout => by cases hout
  | cons first outs ih =>
    obtain ⟨rc, s₁, h1, h2⟩ := (paymentRound_cons first outs).mp hround
    intro out hout
    by_cases hne : first.1 = seller
    · rw [List.find?_cons_of_pos (by simpa using hne)] at hout
      cases hout
      rw [hne] at h1
      obtain ⟨x, hx, -⟩ := h.pay hrest hsteady hpayable (hworth first.2) h1
      rw [hx]
      rfl
    · rw [List.find?_cons_of_neg (by simpa using hne)] at hout
      obtain rfl := dexPayment_none (h.alone first (hsub first (.head _)) hne) h1
      exact ih (fun out' hout' => hsub out' (.tail _ hout')) h2 out hout

end

/-! ### A payment in full, one in part, and one to the Exodus address -/

/-- A wallet with three coins of one RPD. -/
def threeCoins : DexWallet where
  encoded := id
  encoded_encoded _ := rfl
  dustThreshold _ := 5460
  nValueIn := 300000000
  nValueIn_le := by decide
  nFeeRet := 10000
  nChangePosInOut := 0

/-- A divisible token is offered for four RPD, and half of it is accepted. -/
def halfAcceptedRun : List Event :=
  [.blockBegin 1 1500000000 1, .packet { dexIssue with propType := 2 } issuanceEnv,
    .packet { dexSell with amountDesired := 400000000 } issuanceEnv, .packet dexAccept issuanceEnv]

/-- The accept of `halfAcceptedRun`. -/
def soldHalf : CMPAccept := ⟨2 ^ 59, 2 ^ 59, 10, 3, 2 ^ 60, 400000000, 3, 1⟩

/-- A work of one token whose royalties go to the Exodus address. -/
def exodusRoyalties : CMPTransaction :=
  { dexIssue with
    nValue := 1
    propType := 1
    ticker := "ONE"
    royaltiesPercentage := 10
    royaltiesReceiver := "exodus" }

def exodusRoyaltiesRun : List Event :=
  [.blockBegin 1 1500000000 1, .packet exodusRoyalties issuanceEnv,
    .packet { dexSell with nValue := 1, amountDesired := 200000000 } issuanceEnv,
    .packet { dexAccept with nValue := 1 } issuanceEnv]

end Rapids.Token
