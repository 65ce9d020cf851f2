import Rapids.Token.Dex
import Rapids.Lib.Run

/-!
# Rapids.Token.DexSound

What the operations of the traditional exchange do, and the **reserve
invariant** they keep.

Each operation has one inversion lemma (`*_cases`) that lists everything it can
do. From these follow, once for each operation, an `ExchangeStep` (no tokens
appear or vanish, nothing outside the exchange moves) and the preservation of
`DexInv`: what is reserved for accepts is what the accepts still wait for, a
sell reserve belongs to an open offer, and a seller has one open offer at most.
-/

namespace Rapids.Token

open Rapids.Lib OrdMap

variable {s s' : State} {p : PropertyId} {seller buyer : Address} {rc amount fee desired paid : Int}
  {block window : Nat} {txid : Hash} {payments : List (Address × Int)} {src dst : Bucket}
  {accept : CMPAccept}

/-! ### Exchange steps -/

/-- One open offer for each seller. -/
def SingleOffer (s : State) : Prop :=
  ∀ k k', s.offers.contains k = true → s.offers.contains k' = true → k.seller = k'.seller → k = k'

/-- A step of the traditional exchange, as seen from outside. -/
structure ExchangeStep (s s' : State) : Prop where
  frame : s' = { s with tally := s'.tally, offers := s'.offers, accepts := s'.accepts }
  metadexReserve : ∀ a q, getTokenBalance s' a q .metadexReserve = getTokenBalance s a q .metadexReserve
  supply : ∀ q, supply s' q = supply s q
  solvent : Solvent s → Solvent s'
  single : SingleOffer s → SingleOffer s'

theorem ExchangeStep.refl (s : State) : ExchangeStep s s :=
  ⟨rfl, fun _ _ => rfl, fun _ => rfl, id, id⟩

variable {blockNow : Nat} {l : List (AcceptKey × CMPAccept)} {s₁ : State} {sender : Address}

theorem ExchangeStep.trans {s₂ s₃ : State} (h : ExchangeStep s₁ s₂) (h' : ExchangeStep s₂ s₃) :
    ExchangeStep s₁ s₃ := by
  refine ⟨?_, fun a q => (h'.metadexReserve a q).trans (h.metadexReserve a q),
    fun q => (h'.supply q).trans (h.supply q), fun hs => h'.solvent (h.solvent hs),
    fun hs => h'.single (h.single hs)⟩
  rw [h'.frame, h.frame]

theorem ExchangeStep.of_tally_eq (h : s' = { s with offers := s'.offers, accepts := s'.accepts })
    (hsingle : SingleOffer s → SingleOffer s') : ExchangeStep s s' := by
  refine ⟨?_, fun a q => ?_, fun q => ?_, fun hs => hs.of_eq (fun a q t => ?_) fun q => ?_, hsingle⟩
  · rw [h]
  · rw [h]; rfl
  · rw [h]; rfl
  · rw [h]; rfl
  · rw [h]; rfl

theorem Moved.exchangeStep
    (h : Moved s s' p amount src dst) (hs : src.2 ≠ .metadexReserve) (hd : dst.2 ≠ .metadexReserve) :
    ExchangeStep s s' := by
  refine ⟨?_, fun a q => ?_, h.supply, h.solvent, fun hs => ?_⟩
  · rw [h.frame]
  · obtain ⟨a₁, t₁⟩ := src
    obtain ⟨a₂, t₂⟩ := dst
    have h1 : TallyType.metadexReserve ≠ t₁ := fun hc => hs hc.symm
    have h2 : TallyType.metadexReserve ≠ t₂ := fun hc => hd hc.symm
    rw [h.balance]
    simp [h1, h2]
  · rw [h.frame]
    exact hs

theorem transferIfPositive_moved (ha : 0 ≤ amount) (hsrc : src.2 ≠ .pending) (hdst : dst.2 ≠ .pending)
    (h : transferIfPositive s p amount src dst = some s') : Moved s s' p amount src dst := by
  unfold transferIfPositive at h
  split_ifs at h with hpos
  · exact transferTally_moved hsrc hdst h
  · simp only [Option.some.injEq] at h
    subst h
    rw [le_antisymm (not_lt.mp hpos) ha]
    exact Moved.refl

theorem transferIfPositive_step (hsrc : src.2 ≠ .pending ∧ src.2 ≠ .metadexReserve)
    (hdst : dst.2 ≠ .pending ∧ dst.2 ≠ .metadexReserve)
    (h : transferIfPositive s p amount src dst = some s') : ExchangeStep s s' := by
  unfold transferIfPositive at h
  split_ifs at h
  · exact (transferTally_moved hsrc.1 hdst.1 h).exchangeStep hsrc.2 hdst.2
  · simp only [Option.some.injEq] at h
    rw [h]
    exact ExchangeStep.refl _

/-! ### What each operation can do -/

theorem dexHasOffer_eq_false (h : dexHasOffer s seller = false)
    {k : OfferKey} (hk : s.offers.contains k = true) : k.seller ≠ seller := by
  intro heq
  cases hf : s.offers.find? k with
  | none => simp [contains, hf] at hk
  | some o =>
    have hmem := mem_entries_iff.mpr hf
    unfold dexHasOffer at h
    rw [List.any_eq_false] at h
    exact h _ hmem (by simp [heq])

theorem dexOfferCreate_cases
    (h : dexOfferCreate s seller p amount block desired fee window txid = some (rc, s')) :
    (rc < 0 ∧ s' = s) ∨
    (rc = 0 ∧ dexHasOffer s seller = false ∧ ∃ offered price s₁, 0 < offered ∧
      transferTally s p offered (seller, .balance) (seller, .sellofferReserve) = some s₁ ∧
      s' = s₁.putOffer ⟨seller, p⟩ ⟨block, offered, p, price, fee, window, txid⟩) := by
  unfold dexOfferCreate at h
  by_cases h1 : window = 0
  · rw [if_pos h1] at h
    exact .inl (rejected (by decide) h)
  rw [if_neg h1] at h
  by_cases h2 : desired = 0
  · rw [if_pos h2] at h
    exact .inl (rejected (by decide) h)
  rw [if_neg h2] at h
  by_cases h3 : dexOfferExists s seller p = true
  · rw [if_pos h3] at h
    exact .inl (rejected (by decide) h)
  rw [if_neg h3] at h
  by_cases h4 : dexHasOffer s seller = true
  · rw [if_pos h4] at h
    exact .inl (rejected (by decide) h)
  rw [if_neg h4] at h
  by_cases h5 : isFeatureActivated s.params Feature.dexmath.id block = true ∧
      getTokenBalance s seller p .balance < amount
  · rw [if_pos h5] at h
    exact .inl (rejected (by decide) h)
  rw [if_neg h5] at h
  by_cases h6 : 0 < (if getTokenBalance s seller p .balance < amount then
      getTokenBalance s seller p .balance else amount)
  · rw [if_pos h6] at h
    simp only [do_eq_some, pure_eq_some, Prod.mk.injEq] at h
    obtain ⟨s₁, h₁, rfl, rfl⟩ := h
    exact .inr ⟨rfl, by simpa using h4, _, _, s₁, h6, h₁, rfl⟩
  · rw [if_neg h6] at h
    exact .inl (rejected (by decide) h)

theorem dexOfferCreate_refused_iff (hno : dexHasOffer s seller = false)
    (h : dexOfferCreate s seller p amount block desired fee window txid = some (rc, s')) :
    rc < 0 ↔ window = 0 ∨ desired = 0 ∨
      (isFeatureActivated s.params Feature.dexmath.id block = true ∧
        getTokenBalance s seller p .balance < amount) ∨
      getTokenBalance s seller p .balance ≤ 0 ∨ amount ≤ 0 := by
  unfold dexOfferCreate at h
  by_cases h1 : window = 0
  · rw [if_pos h1] at h
    exact ⟨fun _ => .inl h1, fun _ => (rejected (by decide) h).1⟩
  rw [if_neg h1] at h
  by_cases h2 : desired = 0
  · rw [if_pos h2] at h
    exact ⟨fun _ => .inr (.inl h2), fun _ => (rejected (by decide) h).1⟩
  rw [if_neg h2] at h
  have h3 : ¬ dexOfferExists s seller p = true := fun hc => by
    unfold dexOfferExists at hc
    exact dexHasOffer_eq_false hno hc rfl
  rw [if_neg h3, if_neg (by simp [hno])] at h
  by_cases h5 : isFeatureActivated s.params Feature.dexmath.id block = true ∧
      getTokenBalance s seller p .balance < amount
  · rw [if_pos h5] at h
    exact ⟨fun _ => .inr (.inr (.inl h5)), fun _ => (rejected (by decide) h).1⟩
  rw [if_neg h5] at h
  by_cases h6 : 0 < (if getTokenBalance s seller p .balance < amount then
      getTokenBalance s seller p .balance else amount)
  · rw [if_pos h6] at h
    simp only [do_eq_some, pure_eq_some, Prod.mk.injEq] at h
    obtain ⟨s₁, -, rfl, -⟩ := h
    have hpos : ¬ (getTokenBalance s seller p .balance ≤ 0 ∨ amount ≤ 0) := by
      split_ifs at h6 <;> omega
    simp [h1, h2, h5, hpos]
  · rw [if_neg h6] at h
    have hneg : getTokenBalance s seller p .balance ≤ 0 ∨ amount ≤ 0 := by
      split_ifs at h6 <;> omega
    exact ⟨fun _ => .inr (.inr (.inr hneg)), fun _ => (rejected (by decide) h).1⟩

theorem dexOfferDestroy_cases (h : dexOfferDestroy s seller p = some (rc, s')) :
    (rc < 0 ∧ s' = s ∧ dexOfferExists s seller p = false) ∨
    (rc = 0 ∧ dexOfferExists s seller p = true ∧ ∃ s₁,
      transferIfPositive s p (getTokenBalance s seller p .sellofferReserve)
        (seller, .sellofferReserve) (seller, .balance) = some s₁ ∧
      s' = s₁.eraseOffer ⟨seller, p⟩) := by
  unfold dexOfferDestroy at h
  cases he : dexOfferExists s seller p with
  | false =>
    simp only [he, Bool.not_false, if_true, Option.some.injEq, Prod.mk.injEq] at h
    exact .inl ⟨by rw [← h.1]; decide, h.2.symm, rfl⟩
  | true =>
    simp only [he, Bool.not_true, Bool.false_eq_true, if_false, do_eq_some, pure_eq_some,
      Prod.mk.injEq] at h
    obtain ⟨s₁, h1, rfl, rfl⟩ := h
    exact .inr ⟨rfl, rfl, s₁, h1, rfl⟩

theorem dexOfferUpdate_cases
    (h : dexOfferUpdate s seller p amount block desired fee window txid = some (rc, s')) :
    (rc < 0 ∧ s' = s ∧ dexOfferExists s seller p = false) ∨
    (dexOfferExists s seller p = true ∧ ∃ s₁, dexOfferDestroy s seller p = some (0, s₁) ∧
      dexOfferCreate s₁ seller p amount block desired fee window txid = some (rc, s')) := by
  unfold dexOfferUpdate at h
  cases he : dexOfferExists s seller p with
  | false =>
    simp only [he, Bool.not_false, if_true, Option.some.injEq, Prod.mk.injEq] at h
    exact .inl ⟨by rw [← h.1]; decide, h.2.symm, rfl⟩
  | true =>
    simp only [he, Bool.not_true, Bool.false_eq_true, if_false, do_eq_some, Prod.exists] at h
    obtain ⟨rc₁, s₁, h1, h⟩ := h
    rcases dexOfferDestroy_cases h1 with ⟨-, -, hne⟩ | ⟨rfl, -, -⟩
    · rw [he] at hne
      cases hne
    · rw [if_pos rfl] at h
      exact .inr ⟨rfl, s₁, h1, h⟩

theorem dexAcceptCreate_cases (h : dexAcceptCreate s buyer seller p amount block fee = some (rc, s')) :
    (rc < 0 ∧ s' = s) ∨
    (rc = 0 ∧ s.accepts.find? ⟨seller, p, buyer⟩ = none ∧
      ∃ offer reserved s₁, s.offers.find? ⟨seller, p⟩ = some offer ∧ 0 < reserved ∧
        transferTally s p reserved (seller, .sellofferReserve) (seller, .acceptReserve) = some s₁ ∧
        s' = s₁.putAccept ⟨seller, p, buyer⟩
          ⟨reserved, reserved, offer.blocktimelimit, offer.property, offer.offerAmountOriginal,
            offer.rpdDesiredOriginal, offer.txid, block⟩) := by
  unfold dexAcceptCreate at h
  cases ho : s.offers.find? ⟨seller, p⟩ with
  | none =>
    rw [ho] at h
    exact .inl (rejected (by decide) h)
  | some offer =>
    simp only [ho] at h
    by_cases h1 : s.accepts.contains ⟨seller, p, buyer⟩ = true
    · rw [if_pos h1] at h
      exact .inl (rejected (by decide) h)
    rw [if_neg h1] at h
    by_cases h2 : fee < offer.minFee
    · rw [if_pos h2] at h
      exact .inl (rejected (by decide) h)
    rw [if_neg h2] at h
    by_cases h3 : 0 < (if amount ≤ getTokenBalance s seller p .sellofferReserve then amount
        else getTokenBalance s seller p .sellofferReserve)
    · rw [if_pos h3] at h
      simp only [do_eq_some, pure_eq_some, Prod.mk.injEq] at h
      obtain ⟨s₁, h₁, rfl, rfl⟩ := h
      exact .inr ⟨rfl, by simpa [contains] using h1, offer, _, s₁, rfl, h3, h₁, rfl⟩
    · rw [if_neg h3] at h
      exact .inl (rejected (by decide) h)

theorem dexAcceptDestroy_cases (h : dexAcceptDestroy s buyer seller p = some (rc, s')) :
    (rc < 0 ∧ s' = s ∧ s.accepts.find? ⟨seller, p, buyer⟩ = none) ∨
    (rc = 0 ∧ ∃ accept s₁, s.accepts.find? ⟨seller, p, buyer⟩ = some accept ∧
      transferIfPositive s p accept.acceptAmountRemaining (seller, .acceptReserve)
        (seller, acceptReturnsTo s seller p accept) = some s₁ ∧
      s' = s₁.eraseAccept ⟨seller, p, buyer⟩) := by
  unfold dexAcceptDestroy at h
  cases ha : s.accepts.find? ⟨seller, p, buyer⟩ with
  | none =>
    simp only [ha, Option.some.injEq, Prod.mk.injEq] at h
    exact .inl ⟨by rw [← h.1]; decide, h.2.symm, rfl⟩
  | some accept =>
    simp only [ha, do_eq_some, pure_eq_some, Prod.mk.injEq] at h
    obtain ⟨s₁, h1, rfl, rfl⟩ := h
    exact .inr ⟨rfl, accept, s₁, rfl, h1, rfl⟩

theorem dexPayment_cases (h : dexPayment s seller buyer paid block payments = some (rc, s')) :
    (rc < 0 ∧ s' = s) ∨
    (∃ p accept bought s₁, dexPayableAccept s seller buyer = some (p, accept) ∧
      dexAmountBought s seller p accept paid block = some bought ∧
      transferIfPositive s p (accept.purchased bought) (seller, .acceptReserve)
        (buyer, .balance) = some s₁ ∧
      rc = (if 0 < accept.purchased bought then 0 else dexErrorPayment) ∧
      (if accept.acceptAmountRemaining ≤ accept.purchased bought then
        dexFinish (s₁.putAccept ⟨seller, p, buyer⟩ (accept.reduce (accept.purchased bought)))
          seller buyer p
      else some (s₁.putAccept ⟨seller, p, buyer⟩ (accept.reduce (accept.purchased bought)))) =
        some s') := by
  unfold dexPayment at h
  cases hp : dexPayableAccept s seller buyer with
  | none =>
    rw [hp] at h
    exact .inl (rejected (by decide) h)
  | some pa =>
    obtain ⟨p, accept⟩ := pa
    simp only [hp] at h
    by_cases h1 : accept.rpdDesiredOriginal = 0
    · rw [if_pos h1] at h
      exact .inl (rejected (by decide) h)
    rw [if_neg h1] at h
    by_cases h2 : (!dexRoyaltiesPaid s p accept.rpdDesiredOriginal payments) = true
    · rw [if_pos h2] at h
      exact .inl (rejected (by decide) h)
    rw [if_neg h2] at h
    simp only [do_eq_some] at h
    obtain ⟨bought, hb, s₁, h₁, h⟩ := h
    refine .inr ⟨p, accept, bought, s₁, rfl, hb, h₁, ?_⟩
    by_cases hfin : accept.acceptAmountRemaining ≤ accept.purchased bought
    · rw [if_pos hfin] at h ⊢
      simp only [Option.map_eq_some_iff, Prod.mk.injEq] at h
      obtain ⟨s₂, h₂, hrc, rfl⟩ := h
      exact ⟨hrc.symm, h₂⟩
    · rw [if_neg hfin] at h ⊢
      simp only [Option.some.injEq, Prod.mk.injEq] at h ⊢
      exact ⟨h.1.symm, h.2⟩

/-! ### The reserve invariant -/

/-- What one accept counts for a seller and a property. -/
def acceptWeight (a : Address) (p : PropertyId) (k : AcceptKey) (accept : CMPAccept) : Int :=
  if k.seller = a ∧ k.property = p then accept.acceptAmountRemaining else 0

/-- What the accepts on a seller's tokens still wait for. -/
def acceptedOf (s : State) (a : Address) (p : PropertyId) : Int := s.accepts.sumBy (acceptWeight a p)

structure DexInv (s : State) : Prop where
  /-- What is reserved for accepts is what they wait for. -/
  acceptReserve : ∀ a p, getTokenBalance s a p .acceptReserve = acceptedOf s a p
  /-- Tokens are reserved for sale by open offers only. -/
  sellReserve : ∀ a p, 0 < getTokenBalance s a p .sellofferReserve → dexOfferExists s a p = true
  single : SingleOffer s
  nonneg : ∀ k accept, s.accepts.find? k = some accept → 0 ≤ accept.acceptAmountRemaining

section
variable (s : State)

variable (k : AcceptKey)

theorem acceptedOf_putAccept (x : CMPAccept) (a : Address) (p : PropertyId) :
    acceptedOf (s.putAccept k x) a p =
      acceptedOf s a p + acceptWeight a p k x - weightAt (acceptWeight a p) k (s.accepts.find? k) :=
  OrdMap.sumBy_insert _ _ _ _

theorem acceptedOf_eraseAccept (a : Address) (p : PropertyId) :
    acceptedOf (s.eraseAccept k) a p =
      acceptedOf s a p - weightAt (acceptWeight a p) k (s.accepts.find? k) :=
  OrdMap.sumBy_erase _ _ _

@[simp] theorem getTokenBalance_putOffer (k : OfferKey) (o : CMPOffer) (a : Address)
    (q : PropertyId) (t : TallyType) :
    getTokenBalance (s.putOffer k o) a q t = getTokenBalance s a q t := rfl

@[simp] theorem getTokenBalance_eraseOffer (k : OfferKey) (a : Address)
    (q : PropertyId) (t : TallyType) :
    getTokenBalance (s.eraseOffer k) a q t = getTokenBalance s a q t := rfl

@[simp] theorem getTokenBalance_putAccept (x : CMPAccept) (a : Address)
    (q : PropertyId) (t : TallyType) :
    getTokenBalance (s.putAccept k x) a q t = getTokenBalance s a q t := rfl

@[simp] theorem getTokenBalance_eraseAccept (a : Address)
    (q : PropertyId) (t : TallyType) :
    getTokenBalance (s.eraseAccept k) a q t = getTokenBalance s a q t := rfl

end

theorem Moved.books
    (h : Moved s s' p amount src dst) : s'.offers = s.offers ∧ s'.accepts = s.accepts := by
  rw [h.frame]
  exact ⟨rfl, rfl⟩

theorem putOffer_step {k : OfferKey} (o : CMPOffer) (hno : dexHasOffer s k.seller = false) :
    ExchangeStep s (s.putOffer k o) := by
  refine ExchangeStep.of_tally_eq rfl fun hs k₁ k₂ h1 h2 hkk => ?_
  simp only [State.putOffer, contains_insert, Bool.or_eq_true, decide_eq_true_eq] at h1 h2
  rcases h1 with rfl | h1 <;> rcases h2 with rfl | h2
  · rfl
  · exact absurd hkk.symm (dexHasOffer_eq_false hno h2)
  · exact absurd hkk (dexHasOffer_eq_false hno h1)
  · exact hs k₁ k₂ h1 h2 hkk

theorem eraseOffer_step (s : State) (k : OfferKey) : ExchangeStep s (s.eraseOffer k) := by
  refine ExchangeStep.of_tally_eq rfl fun hs k₁ k₂ h1 h2 hkk => ?_
  simp only [State.eraseOffer, contains_erase, Bool.and_eq_true] at h1 h2
  exact hs k₁ k₂ h1.2 h2.2 hkk

theorem putAccept_step (s : State) (k : AcceptKey) (x : CMPAccept) :
    ExchangeStep s (s.putAccept k x) :=
  ExchangeStep.of_tally_eq rfl id

theorem eraseAccept_step (s : State) (k : AcceptKey) : ExchangeStep s (s.eraseAccept k) :=
  ExchangeStep.of_tally_eq rfl id

theorem acceptedOf_congr (h : s'.accepts = s.accepts) (a : Address) (p : PropertyId) :
    acceptedOf s' a p = acceptedOf s a p := by
  simp [acceptedOf, h]

/-! ### Offers keep the invariant -/

theorem dexOfferCreate_step
    (h : dexOfferCreate s seller p amount block desired fee window txid = some (rc, s')) :
    ExchangeStep s s' := by
  rcases dexOfferCreate_cases h with ⟨-, rfl⟩ | ⟨-, hno, offered, price, s₁, -, h1, rfl⟩
  · exact ExchangeStep.refl _
  · have mv := transferTally_moved (by simp) (by simp) h1
    refine (mv.exchangeStep (by simp) (by simp)).trans (putOffer_step _ ?_)
    rw [dexHasOffer, mv.books.1]
    exact hno

theorem dexOfferCreate_inv (hi : DexInv s)
    (h : dexOfferCreate s seller p amount block desired fee window txid = some (rc, s')) :
    DexInv s' := by
  have hsingle := (dexOfferCreate_step h).single hi.single
  rcases dexOfferCreate_cases h with ⟨-, rfl⟩ | ⟨-, -, offered, price, s₁, -, h1, rfl⟩
  · exact hi
  have mv := transferTally_moved (by simp) (by simp) h1
  obtain ⟨hoff, hacc⟩ := mv.books
  refine ⟨fun a q => ?_, fun a q hq => ?_, hsingle, fun k x hx => ?_⟩
  · have : acceptedOf (s₁.putOffer ⟨seller, p⟩ ⟨block, offered, p, price, fee, window, txid⟩) a q =
        acceptedOf s a q := acceptedOf_congr hacc a q
    rw [this, getTokenBalance_putOffer, mv.balance, ← hi.acceptReserve]
    simp
  · simp only [dexOfferExists, State.putOffer, contains_insert, hoff]
    by_cases hk : (⟨a, q⟩ : OfferKey) = ⟨seller, p⟩
    · simp [hk]
    · rw [getTokenBalance_putOffer, mv.balance] at hq
      have hne : ¬ (a = seller ∧ q = p) := by simpa using hk
      have := hi.sellReserve a q (by simpa [hne] using hq)
      simpa [hk, dexOfferExists] using this
  · exact hi.nonneg k x (by rw [← hacc]; exact hx)

theorem dexOfferDestroy_step (h : dexOfferDestroy s seller p = some (rc, s')) : ExchangeStep s s' := by
  rcases dexOfferDestroy_cases h with ⟨-, rfl, -⟩ | ⟨-, -, s₁, h1, rfl⟩
  · exact ExchangeStep.refl _
  · exact (transferIfPositive_step (by simp) (by simp) h1).trans (eraseOffer_step _ _)

theorem dexOfferDestroy_inv
    (hi : DexInv s) (hs : Solvent s) (h : dexOfferDestroy s seller p = some (rc, s')) :
    DexInv s' := by
  have hsingle := (dexOfferDestroy_step h).single hi.single
  rcases dexOfferDestroy_cases h with ⟨-, rfl, -⟩ | ⟨-, -, s₁, h1, rfl⟩
  · exact hi
  have mv := transferIfPositive_moved (hs.nonneg _ _ _ (by simp)) (by simp) (by simp) h1
  obtain ⟨hoff, hacc⟩ := mv.books
  refine ⟨fun a q => ?_, fun a q hq => ?_, hsingle, fun k x hx => ?_⟩
  · have : acceptedOf (s₁.eraseOffer ⟨seller, p⟩) a q = acceptedOf s a q := acceptedOf_congr hacc a q
    rw [this, getTokenBalance_eraseOffer, mv.balance, ← hi.acceptReserve]
    simp
  · rw [getTokenBalance_eraseOffer, mv.balance] at hq
    by_cases hk : a = seller ∧ q = p
    · -- the whole reserve was returned
      obtain ⟨rfl, rfl⟩ := hk
      simp at hq
    · have := hi.sellReserve a q (by simpa [hk] using hq)
      simpa [dexOfferExists, State.eraseOffer, contains_erase, hoff, hk] using this
  · exact hi.nonneg k x (by rw [← hacc]; exact hx)

theorem dexOfferUpdate_step
    (h : dexOfferUpdate s seller p amount block desired fee window txid = some (rc, s')) :
    ExchangeStep s s' := by
  rcases dexOfferUpdate_cases h with ⟨-, rfl, -⟩ | ⟨-, s₁, h1, h2⟩
  · exact ExchangeStep.refl _
  · exact (dexOfferDestroy_step h1).trans (dexOfferCreate_step h2)

theorem dexOfferUpdate_inv (hi : DexInv s)
    (hs : Solvent s)
    (h : dexOfferUpdate s seller p amount block desired fee window txid = some (rc, s')) :
    DexInv s' := by
  rcases dexOfferUpdate_cases h with ⟨-, rfl, -⟩ | ⟨-, s₁, h1, h2⟩
  · exact hi
  · exact dexOfferCreate_inv (dexOfferDestroy_inv hi hs h1) h2

/-! ### Accepts keep the invariant -/

theorem dexAcceptCreate_step
    (h : dexAcceptCreate s buyer seller p amount block fee = some (rc, s')) : ExchangeStep s s' := by
  rcases dexAcceptCreate_cases h with ⟨-, rfl⟩ | ⟨-, -, offer, reserved, s₁, -, -, h1, rfl⟩
  · exact ExchangeStep.refl _
  · exact ((transferTally_moved (by simp) (by simp) h1).exchangeStep (by simp) (by simp)).trans
      (putAccept_step _ _ _)

theorem dexAcceptCreate_inv (hi : DexInv s)
    (h : dexAcceptCreate s buyer seller p amount block fee = some (rc, s')) : DexInv s' := by
  have hsingle := (dexAcceptCreate_step h).single hi.single
  rcases dexAcceptCreate_cases h with ⟨-, rfl⟩ | ⟨-, hnone, offer, reserved, s₁, ho, hpos, h1, rfl⟩
  · exact hi
  have mv := transferTally_moved (by simp) (by simp) h1
  obtain ⟨hoff, hacc⟩ := mv.books
  refine ⟨fun a q => ?_, fun a q hq => ?_, hsingle, fun k x hx => ?_⟩
  · rw [acceptedOf_putAccept, hacc, hnone, getTokenBalance_putAccept, mv.balance,
      acceptedOf_congr hacc, ← hi.acceptReserve]
    by_cases hk : a = seller ∧ q = p
    · obtain ⟨rfl, rfl⟩ := hk
      simp [acceptWeight]
    · have hk' : ¬ (seller = a ∧ p = q) := fun hc => hk ⟨hc.1.symm, hc.2.symm⟩
      simp [acceptWeight, hk, hk']
  · rw [getTokenBalance_putAccept, mv.balance] at hq
    have hex : dexOfferExists s₁ a q = true := by
      by_cases hk : a = seller ∧ q = p
      · obtain ⟨rfl, rfl⟩ := hk
        simp [dexOfferExists, contains, hoff, ho]
      · have := hi.sellReserve a q (by simpa [hk] using hq)
        simpa [dexOfferExists, hoff] using this
    exact hex
  · simp only [State.putAccept, find?_insert, hacc] at hx
    split_ifs at hx with hk
    · simp only [Option.some.injEq] at hx
      subst hx
      exact hpos.le
    · exact hi.nonneg k x hx

theorem acceptReturnsTo_cases (s : State) (seller : Address) (p : PropertyId) (accept : CMPAccept) :
    acceptReturnsTo s seller p accept = .balance ∨
      (acceptReturnsTo s seller p accept = .sellofferReserve ∧ dexOfferExists s seller p = true) := by
  unfold acceptReturnsTo
  cases ho : s.offers.find? ⟨seller, p⟩ with
  | none => exact .inl rfl
  | some offer =>
    dsimp only
    split_ifs
    · exact .inr ⟨rfl, by simp [dexOfferExists, contains, ho]⟩
    · exact .inl rfl

theorem dexAcceptDestroy_moved (hi : DexInv s) (ha : s.accepts.find? ⟨seller, p, buyer⟩ = some accept)
    (h : transferIfPositive s p accept.acceptAmountRemaining (seller, .acceptReserve)
      (seller, acceptReturnsTo s seller p accept) = some s₁) :
    Moved s s₁ p accept.acceptAmountRemaining (seller, .acceptReserve)
      (seller, acceptReturnsTo s seller p accept) := by
  refine transferIfPositive_moved (hi.nonneg _ _ ha) (by simp) ?_ h
  rcases acceptReturnsTo_cases s seller p accept with hr | ⟨hr, -⟩ <;> simp [hr]

theorem dexAcceptDestroy_step
    (h : dexAcceptDestroy s buyer seller p = some (rc, s')) : ExchangeStep s s' := by
  rcases dexAcceptDestroy_cases h with ⟨-, rfl, -⟩ | ⟨-, accept, s₁, ha, h1, rfl⟩
  · exact ExchangeStep.refl _
  · refine (transferIfPositive_step (by simp) ?_ h1).trans (eraseAccept_step _ _)
    rcases acceptReturnsTo_cases s seller p accept with hr | ⟨hr, -⟩ <;> simp [hr]

theorem dexAcceptDestroy_inv
    (hi : DexInv s) (h : dexAcceptDestroy s buyer seller p = some (rc, s')) : DexInv s' := by
  have hsingle := (dexAcceptDestroy_step h).single hi.single
  rcases dexAcceptDestroy_cases h with ⟨-, rfl, -⟩ | ⟨-, accept, s₁, ha, h1, rfl⟩
  · exact hi
  have mv := dexAcceptDestroy_moved hi ha h1
  obtain ⟨hoff, hacc⟩ := mv.books
  have hret := acceptReturnsTo_cases s seller p accept
  refine ⟨fun a q => ?_, fun a q hq => ?_, hsingle, fun k x hx => ?_⟩
  · rw [acceptedOf_eraseAccept, hacc, ha, getTokenBalance_eraseAccept, mv.balance,
      acceptedOf_congr hacc, ← hi.acceptReserve]
    have hne : TallyType.acceptReserve ≠ acceptReturnsTo s seller p accept := by
      rcases hret with hr | ⟨hr, -⟩ <;> simp [hr]
    by_cases hk : a = seller ∧ q = p
    · obtain ⟨rfl, rfl⟩ := hk
      simp [acceptWeight, hne]
    · have hk' : ¬ (seller = a ∧ p = q) := fun hc => hk ⟨hc.1.symm, hc.2.symm⟩
      simp [acceptWeight, hk, hk', hne]
  · rw [getTokenBalance_eraseAccept, mv.balance] at hq
    have hex : dexOfferExists s a q = true := by
      rcases hret with hr | ⟨hr, hopen⟩
      · exact hi.sellReserve a q (by simpa [hr] using hq)
      · by_cases hk : a = seller ∧ q = p
        · obtain ⟨rfl, rfl⟩ := hk
          exact hopen
        · exact hi.sellReserve a q (by simpa [hr, hk] using hq)
    simpa [dexOfferExists, State.eraseAccept, hoff] using hex
  · simp only [State.eraseAccept, find?_erase, hacc] at hx
    split_ifs at hx
    exact hi.nonneg k x hx

/-! ### The expiry loop -/

/-- What destroying the expired accepts preserves, the loop over them does. -/
theorem eraseExpiredAcceptsLoop_invariant {I : State → Prop}
    (hstep : ∀ s, ∀ e ∈ l, ∀ rc s', e.2.isExpired blockNow = true →
      I s → dexAcceptDestroy s e.1.buyer e.1.seller e.1.property = some (rc, s') → I s')
    (hi : I s) (h : eraseExpiredAcceptsLoop blockNow l s = some s') : I s' := by
  induction l generalizing s with
  | nil =>
    cases h
    exact hi
  | cons e rest ih =>
    obtain ⟨key, accept⟩ := e
    have hrest := fun s e he => hstep s e (List.mem_cons_of_mem (key, accept) he)
    rw [eraseExpiredAcceptsLoop] at h
    split_ifs at h with hexp
    · simp only [do_eq_some, Prod.exists] at h
      obtain ⟨rc, s₁, h1, h2⟩ := h
      exact ih hrest (hstep s (key, accept) (.head _) rc s₁ hexp hi h1) h2
    · exact ih hrest hi h

theorem eraseExpiredAcceptsLoop_step
    (h : eraseExpiredAcceptsLoop blockNow l s = some s') : ExchangeStep s s' :=
  eraseExpiredAcceptsLoop_invariant
    (fun _ _ _ _ _ _ hi h1 => hi.trans (dexAcceptDestroy_step h1)) (ExchangeStep.refl s) h

theorem eraseExpiredAcceptsLoop_inv (hi : DexInv s)
    (h : eraseExpiredAcceptsLoop blockNow l s = some s') : DexInv s' :=
  eraseExpiredAcceptsLoop_invariant (fun _ _ _ _ _ _ hi h1 => dexAcceptDestroy_inv hi h1) hi h

/-! ### Payments keep the invariant -/

theorem dexFinish_cases (h : dexFinish s seller buyer p = some s') :
    ∃ rc s₁, dexAcceptDestroy s buyer seller p = some (rc, s₁) ∧
      (s' = s₁ ∨ ∃ rc', dexOfferDestroy s₁ seller p = some (rc', s')) := by
  simp only [dexFinish, do_eq_some, Prod.exists] at h
  obtain ⟨rc, s₁, h1, h⟩ := h
  refine ⟨rc, s₁, h1, ?_⟩
  split_ifs at h
  · simp only [Option.map_eq_some_iff, Prod.exists, exists_eq_right] at h
    exact .inr h
  · simp only [Option.some.injEq] at h
    exact .inl h.symm

theorem dexFinish_step (h : dexFinish s seller buyer p = some s') : ExchangeStep s s' := by
  obtain ⟨rc, s₁, h1, rfl | ⟨rc', h2⟩⟩ := dexFinish_cases h
  · exact dexAcceptDestroy_step h1
  · exact (dexAcceptDestroy_step h1).trans (dexOfferDestroy_step h2)

theorem dexFinish_inv (hi : DexInv s)
    (hs : Solvent s) (h : dexFinish s seller buyer p = some s') : DexInv s' := by
  obtain ⟨rc, s₁, h1, rfl | ⟨rc', h2⟩⟩ := dexFinish_cases h
  · exact dexAcceptDestroy_inv hi h1
  · exact dexOfferDestroy_inv (dexAcceptDestroy_inv hi h1) ((dexAcceptDestroy_step h1).solvent hs) h2

theorem dexPayment_step
    (h : dexPayment s seller buyer paid block payments = some (rc, s')) : ExchangeStep s s' := by
  rcases dexPayment_cases h with ⟨-, rfl⟩ | ⟨p, accept, bought, s₁, -, -, h1, -, h2⟩
  · exact ExchangeStep.refl _
  · have hput := putAccept_step s₁ ⟨seller, p, buyer⟩ (accept.reduce (accept.purchased bought))
    have hpaid := (transferIfPositive_step (by simp) (by simp) h1).trans hput
    split_ifs at h2
    · exact hpaid.trans (dexFinish_step h2)
    · simp only [Option.some.injEq] at h2
      exact h2 ▸ hpaid

/-- Does the floating-point amount of a purchase fit a signed 64-bit integer? -/
def legacyPurchaseFits (amountOffered amountDesired amountPaid : Int) : Bool :=
  decide (0 ≤ legacyCalculateDExPurchase amountOffered amountDesired amountPaid)

/-- Is the payment computed in integers, or does it fit? -/
def paymentFits (s : State) (seller buyer : Address) (paid : Int) (block : Nat) : Bool :=
  isFeatureActivated s.params Feature.dexmath.id block ||
    (dexPayableAccept s seller buyer).all fun found =>
      legacyPurchaseFits found.2.offerAmountOriginal found.2.rpdDesiredOriginal
        (dexAmountPaid s seller found.1 found.2 paid)

theorem calculateDExPurchase_nonneg {offered x : Int}
    (h : calculateDExPurchase offered desired paid = some x) : 0 ≤ x := by
  simp only [calculateDExPurchase, do_eq_some] at h
  obtain ⟨_, -, _, -, _, -, y, -, hy⟩ := h
  obtain ⟨rfl, -⟩ := convertTo64_spec hy
  exact Int.natCast_nonneg y

theorem paymentFits_nonneg {bought : Int}
    (hf : paymentFits s seller buyer paid block = true)
    (hp : dexPayableAccept s seller buyer = some (p, accept))
    (hb : dexAmountBought s seller p accept paid block = some bought) : 0 ≤ bought := by
  unfold dexAmountBought at hb
  split_ifs at hb with hmath
  · exact calculateDExPurchase_nonneg hb
  · simp only [Option.some.injEq] at hb
    rw [← hb]
    rw [paymentFits, hp, Option.all_some, Bool.or_eq_true] at hf
    exact of_decide_eq_true (hf.resolve_left hmath)

theorem dexPayableAccept_find? (h : dexPayableAccept s seller buyer = some (p, accept)) :
    s.accepts.find? ⟨seller, p, buyer⟩ = some accept := by
  simp only [dexPayableAccept, do_eq_some, pure_eq_some, Prod.mk.injEq] at h
  obtain ⟨q, -, acc, hacc, rfl, rfl⟩ := h
  exact hacc

theorem reduceAccept_inv
    {x : Int} (hi : DexInv s) (ha : s.accepts.find? ⟨seller, p, buyer⟩ = some accept)
    (hx : x ≤ accept.acceptAmountRemaining)
    (mv : Moved s s₁ p x (seller, .acceptReserve) (buyer, .balance)) :
    DexInv (s₁.putAccept ⟨seller, p, buyer⟩ (accept.reduce x)) := by
  obtain ⟨hoff, hacc⟩ := mv.books
  have hsingle : SingleOffer (s₁.putAccept ⟨seller, p, buyer⟩ (accept.reduce x)) :=
    ((mv.exchangeStep (by simp) (by simp)).trans (putAccept_step _ _ _)).single hi.single
  refine ⟨fun a q => ?_, fun a q hq => ?_, hsingle, fun k y hy => ?_⟩
  · rw [acceptedOf_putAccept, hacc, ha, getTokenBalance_putAccept, mv.balance,
      acceptedOf_congr hacc, ← hi.acceptReserve]
    by_cases hk : a = seller ∧ q = p
    · obtain ⟨rfl, rfl⟩ := hk
      simp only [acceptWeight, CMPAccept.reduce, weightAt_some, and_self, if_true, Prod.mk.injEq,
        reduceCtorEq, and_false, false_and, if_false]
      omega
    · have hk' : ¬ (seller = a ∧ p = q) := fun hc => hk ⟨hc.1.symm, hc.2.symm⟩
      simp [acceptWeight, hk, hk']
  · rw [getTokenBalance_putAccept, mv.balance] at hq
    have := hi.sellReserve a q (by simpa using hq)
    simpa [dexOfferExists, State.putAccept, hoff] using this
  · simp only [State.putAccept, find?_insert, hacc] at hy
    split_ifs at hy
    · simp only [Option.some.injEq] at hy
      subst hy
      simp only [CMPAccept.reduce]
      omega
    · exact hi.nonneg k y hy

theorem dexPayment_inv (hi : DexInv s) (hs : Solvent s)
    (hf : paymentFits s seller buyer paid block = true)
    (h : dexPayment s seller buyer paid block payments = some (rc, s')) : DexInv s' := by
  rcases dexPayment_cases h with ⟨-, rfl⟩ | ⟨p, accept, bought, s₁, hp, hb, h1, -, h2⟩
  · exact hi
  have ha := dexPayableAccept_find? hp
  have hrem := hi.nonneg _ _ ha
  have hbought := paymentFits_nonneg hf hp hb
  have hx : 0 ≤ accept.purchased bought ∧ accept.purchased bought ≤ accept.acceptAmountRemaining := by
    unfold CMPAccept.purchased
    split_ifs <;> omega
  have mv := transferIfPositive_moved hx.1 (by simp) (by simp) h1
  have hi2 := reduceAccept_inv hi ha hx.2 mv
  split_ifs at h2
  · exact dexFinish_inv hi2 ((putAccept_step _ _ _).solvent (mv.solvent hs)) h2
  · simp only [Option.some.injEq] at h2
    exact h2 ▸ hi2

/-! ### All payments of a transaction -/

/-- Does every payment of a transaction fit, in the state it finds? -/
def paymentsFit (sender : Address) (payments : List (Address × Int)) (block : Nat) :
    List (Address × Int) → State → Bool
  | [], _ => true
  | out :: rest, s =>
    paymentFits s out.1 sender out.2 block &&
      (dexPayment s out.1 sender out.2 block payments).all fun r =>
        paymentsFit sender payments block rest r.2

theorem paymentLoop_step
    {l : List (Address × Int)}
    (h : l.foldlM (fun s out => (dexPayment s out.1 sender out.2 block payments).map Prod.snd) s =
      some s') : ExchangeStep s s' := by
  refine run_invariant (fun s₁ out s₂ hi hs => ?_) (ExchangeStep.refl s) h
  obtain ⟨⟨rc, s₃⟩, h1, rfl⟩ := Option.map_eq_some_iff.mp hs
  exact hi.trans (dexPayment_step h1)

theorem paymentLoop_inv
    {l : List (Address × Int)} (hi : DexInv s) (hs : Solvent s)
    (hf : paymentsFit sender payments block l s = true)
    (h : l.foldlM (fun s out => (dexPayment s out.1 sender out.2 block payments).map Prod.snd) s =
      some s') : DexInv s' := by
  induction l generalizing s with
  | nil =>
    simp only [List.foldlM_nil, Option.pure_def, Option.some.injEq] at h
    exact h ▸ hi
  | cons out rest ih =>
    simp only [List.foldlM_cons, do_eq_some, Option.map_eq_some_iff, Prod.exists, exists_eq_right] at h
    obtain ⟨s₁, ⟨rc, h1⟩, h2⟩ := h
    simp only [paymentsFit, h1, Option.all_some, Bool.and_eq_true] at hf
    exact ih (dexPayment_inv hi hs hf.1 h1) ((dexPayment_step h1).solvent hs) hf.2 h2

/-! ### Which accepts stay -/

/-- Every open accept is still there, as it was. -/
def KeepsAccepts (s s' : State) : Prop :=
  ∀ k accept, s.accepts.find? k = some accept → s'.accepts.find? k = some accept

theorem KeepsAccepts.of_eq (h : s'.accepts = s.accepts) : KeepsAccepts s s' :=
  fun k accept hk => by rwa [h]

theorem transferIfPositive_accepts (hsrc : src.2 ≠ .pending) (hdst : dst.2 ≠ .pending)
    (h : transferIfPositive s p amount src dst = some s') : s'.accepts = s.accepts := by
  unfold transferIfPositive at h
  split_ifs at h
  · exact (transferTally_moved hsrc hdst h).books.2
  · simp only [Option.some.injEq] at h
    rw [h]

theorem dexOfferCreate_accepts
    (h : dexOfferCreate s seller p amount block desired fee window txid = some (rc, s')) :
    s'.accepts = s.accepts := by
  rcases dexOfferCreate_cases h with ⟨-, rfl⟩ | ⟨-, -, _, _, s₁, -, h1, rfl⟩
  · rfl
  · exact (transferTally_moved (by simp) (by simp) h1).books.2

theorem dexOfferDestroy_accepts
    (h : dexOfferDestroy s seller p = some (rc, s')) : s'.accepts = s.accepts := by
  rcases dexOfferDestroy_cases h with ⟨-, rfl, -⟩ | ⟨-, -, s₁, h1, rfl⟩
  · rfl
  · have hacc := transferIfPositive_accepts (by simp) (by simp) h1
    exact hacc

theorem dexOfferUpdate_accepts
    (h : dexOfferUpdate s seller p amount block desired fee window txid = some (rc, s')) :
    s'.accepts = s.accepts := by
  rcases dexOfferUpdate_cases h with ⟨-, rfl, -⟩ | ⟨-, s₁, h1, h2⟩
  · rfl
  · exact (dexOfferCreate_accepts h2).trans (dexOfferDestroy_accepts h1)

theorem dexAcceptCreate_keeps
    (h : dexAcceptCreate s buyer seller p amount block fee = some (rc, s')) : KeepsAccepts s s' := by
  rcases dexAcceptCreate_cases h with ⟨-, rfl⟩ | ⟨-, hnone, _, _, s₁, -, -, h1, rfl⟩
  · exact KeepsAccepts.of_eq rfl
  · intro k accept hk
    have hne : k ≠ ⟨seller, p, buyer⟩ := fun hc => by simp [hc, hnone] at hk
    rw [State.putAccept, find?_insert_ne _ _ hne,
      (transferTally_moved (by simp) (by simp) h1).books.2]
    exact hk

theorem dexAcceptDestroy_accepts (h : dexAcceptDestroy s buyer seller p = some (rc, s')) :
    s'.accepts = s.accepts.erase ⟨seller, p, buyer⟩ := by
  rcases dexAcceptDestroy_cases h with ⟨-, rfl, hnone⟩ | ⟨-, accept, s₁, -, h1, rfl⟩
  · rw [erase_eq_self hnone]
  · have hdst : acceptReturnsTo s seller p accept ≠ .pending := by
      unfold acceptReturnsTo
      split
      · split_ifs <;> simp
      · simp
    rw [State.eraseAccept, transferIfPositive_accepts (by simp) hdst h1]

theorem dexPayment_accepts
    (h : dexPayment s seller buyer paid block payments = some (rc, s')) {k : AcceptKey}
    (hk : k.buyer ≠ buyer) : s'.accepts.find? k = s.accepts.find? k := by
  rcases dexPayment_cases h with ⟨-, rfl⟩ | ⟨p, accept, bought, s₁, -, -, h1, -, h2⟩
  · rfl
  have hne : k ≠ ⟨seller, p, buyer⟩ := fun hc => hk (by rw [hc])
  have hput : ∀ x, (s₁.putAccept ⟨seller, p, buyer⟩ x).accepts.find? k = s.accepts.find? k := fun x => by
    rw [State.putAccept, find?_insert_ne _ _ hne,
      transferIfPositive_accepts (by simp) (by simp) h1]
  split_ifs at h2
  · obtain ⟨rc₁, s₂, h3, hcase⟩ := dexFinish_cases h2
    have hfin : s₂.accepts.find? k = s.accepts.find? k := by
      rw [dexAcceptDestroy_accepts h3, find?_erase_ne _ hne, hput]
    rcases hcase with rfl | ⟨rc₂, h4⟩
    · exact hfin
    · rw [dexOfferDestroy_accepts h4, hfin]
  · simp only [Option.some.injEq] at h2
    rw [← h2, hput]

theorem paymentLoop_accepts
    {l : List (Address × Int)} {k : AcceptKey} (hk : k.buyer ≠ sender)
    (h : l.foldlM (fun s out => (dexPayment s out.1 sender out.2 block payments).map Prod.snd) s =
      some s') : s'.accepts.find? k = s.accepts.find? k := by
  refine run_invariant (I := fun s₁ => s₁.accepts.find? k = s.accepts.find? k)
    (fun s₁ out s₂ hi hs => ?_) rfl h
  obtain ⟨⟨rc, s₃⟩, h1, rfl⟩ := Option.map_eq_some_iff.mp hs
  exact (dexPayment_accepts h1 hk).trans hi

theorem eraseExpiredAcceptsLoop_accepts {k : AcceptKey} (hl : ∀ e ∈ l, e.1 = k → e.2.isExpired blockNow = false)
    (h : eraseExpiredAcceptsLoop blockNow l s = some s') : s'.accepts.find? k = s.accepts.find? k := by
  refine eraseExpiredAcceptsLoop_invariant (I := fun s₁ => s₁.accepts.find? k = s.accepts.find? k)
    (fun s₁ e he rc s₂ hexp hi h1 => ?_) rfl h
  have hne : k ≠ e.1 := fun hc => by
    have := hl e he hc.symm
    rw [hexp] at this
    cases this
  rw [dexAcceptDestroy_accepts h1]
  exact (find?_erase_ne _ hne).trans hi

end Rapids.Token
