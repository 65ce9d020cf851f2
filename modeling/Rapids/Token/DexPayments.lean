import Rapids.Token.Reserves

/-!
# Rapids.Token.DexPayments

**How often a payment counts.** The loop over the payment outputs stands twice in
`HandleDExPayments`, so every output is offered to `DEx_payment` twice. The second round
does nothing exactly if the first one leaves nothing to buy.

A **bargain** is what the payments of one buyer are about: the accept that is open with
each seller, and who holds the usernames that royalties go to. `Bargain.pay` counts one
payment against it, without any tokens; the code's payments follow it step by step
(`Follows`). What the code does beyond that moves in one direction only: a purchase raises
a balance that no payment lowers, and accepts disappear but never come back. So a round
that ends where it began has done nothing on the way.
-/

namespace Rapids.Token

open Rapids.Lib OrdMap

variable {b : Bargain} {accept : CMPAccept} {outs : List (Address × Int)}

/-! ### Usernames -/

/-- Which records there are, without what they hold. -/
def recordsOf (m : TallyMap) : OrdMap Address (OrdMap PropertyId Unit) :=
  m.mapVal fun t => t.mapVal fun _ => ()

/-- Same properties, same rules, same records: all that royalties depend on. -/
structure SameNames (s s' : State) : Prop where
  sp : s'.sp = s.sp
  cfg : s'.cfg = s.cfg
  params : s'.params = s.params
  records : recordsOf s'.tally = recordsOf s.tally

variable {s s₁ s' : State}

theorem SameNames.refl (s : State) : SameNames s s := ⟨rfl, rfl, rfl, rfl⟩

theorem SameNames.trans {s'' : State} (h : SameNames s s') (h' : SameNames s' s'') : SameNames s s'' :=
  ⟨h'.sp.trans h.sp, h'.cfg.trans h.cfg, h'.params.trans h.params, h'.records.trans h.records⟩

/-- Is there a record of the property, before a property 0? -/
def holdsRecord (p : PropertyId) (r : OrdMap PropertyId Unit) : Bool :=
  (r.entries.takeWhile fun e => e.1 != 0).any fun e => e.1 == p

theorem getUsernameAddress_eq (s : State) (username : String) :
    getUsernameAddress s username =
      if isUsernameValid username && findSPByTicker s username != 0 then
        (((recordsOf s.tally).entries.find? fun e =>
            holdsRecord (findSPByTicker s username) e.2).map Prod.fst).getD
          (((recordsOf s.tally).last?.map Prod.fst).getD "")
      else "" := by
  have hfind : ((recordsOf s.tally).entries.find? fun e =>
        holdsRecord (findSPByTicker s username) e.2).map Prod.fst =
      (s.tally.entries.find? fun e => (e.2.entries.takeWhile fun e => e.1 != 0).any fun e =>
        e.1 == findSPByTicker s username).map Prod.fst := by
    show ((s.tally.entries.map (Prod.map id _)).find? _).map _ = _
    rw [List.find?_map, Option.map_map]
    congr 1
    congr 1
    funext e
    show ((e.2.entries.map (Prod.map id _)).takeWhile _).any _ = _
    rw [List.takeWhile_map, List.any_map]
    rfl
  have hlast : (recordsOf s.tally).last?.map Prod.fst = s.tally.last?.map Prod.fst := by
    show ((s.tally.entries.map (Prod.map id _)).getLast?).map _ = _
    rw [List.getLast?_map, Option.map_map]
    rfl
  rw [hfind, hlast]
  unfold getUsernameAddress
  dsimp only
  cases s.tally.entries.find? _ <;> rfl

theorem SameNames.getUsernameAddress (h : SameNames s s') (username : String) :
    getUsernameAddress s' username = getUsernameAddress s username := by
  rw [getUsernameAddress_eq, getUsernameAddress_eq, findSPByTicker, findSPByTicker, h.sp, h.records]

theorem SameNames.dexRoyalties (h : SameNames s s') (p : PropertyId) (amount : Int) :
    dexRoyalties s' p amount = dexRoyalties s p amount := by
  unfold Token.dexRoyalties Token.getSP
  rw [h.sp, h.cfg]
  simp [h.getUsernameAddress]

theorem SameNames.dexRoyaltiesPaid (h : SameNames s s') (p : PropertyId) (amount : Int)
    (payments : List (Address × Int)) :
    dexRoyaltiesPaid s' p amount payments = dexRoyaltiesPaid s p amount payments := by
  unfold Token.dexRoyaltiesPaid
  rw [h.dexRoyalties, Token.getSP, Token.getSP, h.sp, h.cfg]

theorem SameNames.dexAmountBought (h : SameNames s s') (seller : Address) (p : PropertyId)
    (accept : CMPAccept) (paid : Int) (block : Nat) :
    dexAmountBought s' seller p accept paid block = dexAmountBought s seller p accept paid block := by
  unfold Token.dexAmountBought dexAmountPaid
  rw [h.dexRoyalties, h.params]

/-! ### Records of a purchase -/

variable {who seller buyer : Address} {p : PropertyId} {amount : Int} {tt : TallyType}

/-- The records after an address got one of the property. -/
def addRecord (r : OrdMap Address (OrdMap PropertyId Unit)) (who : Address) (p : PropertyId) :
    OrdMap Address (OrdMap PropertyId Unit) :=
  r.insert who (((r.find? who).getD ∅).insert p ())

theorem recordsOf_insert (m : TallyMap) (who : Address) (p : PropertyId) (x : BalanceRecord) :
    recordsOf (m.insert who (((m.find? who).getD ∅).insert p x)) = addRecord (recordsOf m) who p := by
  unfold recordsOf addRecord
  rw [mapVal_insert, mapVal_insert, find?_mapVal]
  cases m.find? who <;> rfl

theorem assertTally_records (h : assertTally s who p amount tt = some s') :
    recordsOf s'.tally = addRecord (recordsOf s.tally) who p := by
  unfold assertTally at h
  cases hu : updateTallyMap s who p amount tt with
  | none =>
    rw [hu] at h
    cases h
  | some r =>
    obtain ⟨ok, s₂⟩ := r
    cases ok with
    | false =>
      rw [hu] at h
      cases h
    | true =>
      rw [hu] at h
      obtain rfl : s₂ = s' := Option.some.inj h
      unfold updateTallyMap at hu
      split_ifs at hu with h0 hf
      · cases hu
      · simp only [Option.some.injEq, Prod.mk.injEq] at hu
        obtain ⟨hok, rfl⟩ := hu
        obtain ⟨-, -, -, htally⟩ := updateMoney_ok (Prod.ext hok rfl)
        exact (congrArg (fun t => recordsOf (s.tally.insert who t)) htally).trans
          (recordsOf_insert _ _ _ _)

theorem addRecord_eq_self (h : getTokenBalance s who p tt ≠ 0) :
    addRecord (recordsOf s.tally) who p = recordsOf s.tally := by
  rw [getTokenBalance_eq, CMPTally.getMoney] at h
  cases ht : s.tally.find? who with
  | none =>
    rw [ht] at h
    exact absurd (by cases tt <;> rfl) h
  | some t =>
    cases hr : t.find? p with
    | none =>
      rw [ht, Option.getD_some, hr] at h
      exact absurd (by cases tt <;> rfl) h
    | some r =>
      have hfind : (recordsOf s.tally).find? who = some (t.mapVal fun _ => ()) := by
        rw [recordsOf, find?_mapVal, ht]
        rfl
      have hrec : (t.mapVal fun _ => ()).find? p = some () := by
        rw [find?_mapVal, hr]
        rfl
      rw [addRecord, hfind, Option.getD_some, insert_eq_self hrec, insert_eq_self hfind]

/-- The names after the buyer got a record of the property. -/
def creditName (s : State) (buyer : Address) (p : PropertyId) : State :=
  { s with tally := s.tally.insert buyer (((s.tally.find? buyer).getD ∅).insert p {}) }

theorem transferTally_names (hpos : 0 < amount)
    (h : transferTally s p amount (seller, .acceptReserve) (buyer, .balance) = some s') :
    SameNames (creditName s buyer p) s' := by
  simp only [transferTally, do_eq_some] at h
  obtain ⟨s₁, h1, h2⟩ := h
  have t₁ := assertTally_spec h1
  have t₂ := assertTally_spec h2
  have hheld : getTokenBalance s seller p .acceptReserve ≠ 0 := by
    have := t₁.nonneg (by simp)
    omega
  refine ⟨?_, ?_, ?_, ?_⟩
  · rw [t₂.frame, t₁.frame]
    rfl
  · rw [t₂.frame, t₁.frame]
    rfl
  · rw [t₂.frame, t₁.frame]
    rfl
  · rw [assertTally_records h2, assertTally_records h1, addRecord_eq_self hheld]
    exact (recordsOf_insert _ _ _ _).symm

theorem SameNames.creditName (h : SameNames s s') (buyer : Address) (p : PropertyId) :
    SameNames (creditName s buyer p) (creditName s' buyer p) := by
  refine ⟨h.sp, h.cfg, h.params, ?_⟩
  show recordsOf (s'.tally.insert _ _) = recordsOf (s.tally.insert _ _)
  rw [recordsOf_insert, recordsOf_insert, h.records]

/-! ### What a payment does -/

variable {paid : Int} {block : Nat} {payments : List (Address × Int)} {rc : Int}

/-- Is the accept open to payments: does it have a price, and are its royalties paid? -/
def isPayable (s : State) (p : PropertyId) (accept : CMPAccept) (payments : List (Address × Int)) : Bool :=
  decide (accept.rpdDesiredOriginal ≠ 0) && dexRoyaltiesPaid s p accept.rpdDesiredOriginal payments

/-- An accept that has been paid for ends without a move of tokens, and so does the offer, if
nothing of it is left. -/
theorem dexFinish_paid (hacc : s.accepts.find? ⟨seller, p, buyer⟩ = some accept)
    (h0 : accept.acceptAmountRemaining = 0) (h : dexFinish s seller buyer p = some s') :
    s' = { s with offers := s'.offers, accepts := s.accepts.erase ⟨seller, p, buyer⟩ } ∧
      (s'.offers = s.offers ∨ s'.offers = s.offers.erase ⟨seller, p⟩) := by
  have hdestroy : dexAcceptDestroy s buyer seller p = some (0, s.eraseAccept ⟨seller, p, buyer⟩) := by
    rw [dexAcceptDestroy, hacc]
    show (transferIfPositive s p accept.acceptAmountRemaining _ _).bind _ = _
    rw [h0, transferIfPositive, if_neg (by decide)]
    rfl
  unfold dexFinish at h
  rw [hdestroy] at h
  simp only [Option.bind_eq_bind, Option.bind_some] at h
  split_ifs at h with hempty
  · rw [Option.map_eq_some_iff] at h
    obtain ⟨⟨rc, s₂⟩, hoffer, rfl⟩ := h
    rcases dexOfferDestroy_cases hoffer with ⟨-, rfl, -⟩ | ⟨-, -, s₁, h1, rfl⟩
    · exact ⟨rfl, .inl rfl⟩
    · rw [getTokenBalance_eraseAccept, hempty.1, transferIfPositive, if_neg (by decide)] at h1
      cases h1
      exact ⟨rfl, .inr rfl⟩
  · cases h
    exact ⟨rfl, .inl rfl⟩

/-- **What a payment can do**: nothing, if there is no accept or it is not payable; else it buys
up to what is left of the accept, which then ends or waits for the rest. -/
theorem dexPayment_spec (h : dexPayment s seller buyer paid block payments = some (rc, s')) :
    (s' = s ∧ ∀ p accept, dexPayableAccept s seller buyer = some (p, accept) →
        isPayable s p accept payments = false) ∨
      ∃ p accept bought s₁, dexPayableAccept s seller buyer = some (p, accept) ∧
        isPayable s p accept payments = true ∧
        dexAmountBought s seller p accept paid block = some bought ∧
        transferIfPositive s p (accept.purchased bought) (seller, .acceptReserve) (buyer, .balance) =
          some s₁ ∧
        ((accept.acceptAmountRemaining ≤ bought ∧
            s' = { s₁ with offers := s'.offers, accepts := s₁.accepts.erase ⟨seller, p, buyer⟩ } ∧
            (s'.offers = s₁.offers ∨ s'.offers = s₁.offers.erase ⟨seller, p⟩)) ∨
          (bought < accept.acceptAmountRemaining ∧
            s' = s₁.putAccept ⟨seller, p, buyer⟩ (accept.reduce bought))) := by
  unfold dexPayment at h
  cases hp : dexPayableAccept s seller buyer with
  | none =>
    rw [hp] at h
    exact .inl ⟨(Prod.mk.inj (Option.some.inj h)).2.symm, fun p accept hc => by cases hc⟩
  | some pa =>
    obtain ⟨p, accept⟩ := pa
    simp only [hp] at h
    by_cases h1 : accept.rpdDesiredOriginal = 0
    · rw [if_pos h1] at h
      refine .inl ⟨(Prod.mk.inj (Option.some.inj h)).2.symm, fun q x hc => ?_⟩
      cases hc
      rw [isPayable, h1]
      rfl
    rw [if_neg h1] at h
    by_cases h2 : (!dexRoyaltiesPaid s p accept.rpdDesiredOriginal payments) = true
    · rw [if_pos h2] at h
      refine .inl ⟨(Prod.mk.inj (Option.some.inj h)).2.symm, fun q x hc => ?_⟩
      cases hc
      have hunpaid : dexRoyaltiesPaid s p accept.rpdDesiredOriginal payments = false := by simpa using h2
      rw [isPayable, hunpaid, Bool.and_false]
    rw [if_neg h2] at h
    simp only [do_eq_some] at h
    obtain ⟨bought, hb, s₁, h₁, h⟩ := h
    have hpay : isPayable s p accept payments = true := by
      rw [isPayable, decide_eq_true h1, Bool.true_and]
      simpa using h2
    refine .inr ⟨p, accept, bought, s₁, rfl, hpay, hb, h₁, ?_⟩
    by_cases hle : accept.acceptAmountRemaining ≤ bought
    · have hall : accept.purchased bought = accept.acceptAmountRemaining := by
        unfold CMPAccept.purchased
        split_ifs <;> omega
      rw [hall, if_pos (le_refl _), Option.map_eq_some_iff] at h
      obtain ⟨s₂, hfin, hs⟩ := h
      obtain ⟨-, rfl⟩ := Prod.mk.inj hs
      obtain ⟨hframe, hoffers⟩ := dexFinish_paid (find?_insert_self _ _ _)
        (Int.sub_self _) hfin
      refine .inl ⟨hle, hframe.trans ?_, hoffers⟩
      show { s₁ with offers := _, accepts := (s₁.accepts.insert _ _).erase _ } = _
      rw [erase_insert]
    · have hpart : accept.purchased bought = bought := if_neg fun hc => hle hc.le
      rw [hpart, if_neg hle] at h
      exact .inr ⟨not_le.mp hle, (Prod.mk.inj (Option.some.inj h)).2.symm⟩

theorem exists_dexPayment {bought : Int}
    (hfound : dexPayableAccept s seller buyer = some (p, accept))
    (hpay : isPayable s p accept payments = true)
    (hbought : dexAmountBought s seller p accept paid block = some bought)
    (hmove : ∃ s₁, transferIfPositive s p (accept.purchased bought) (seller, .acceptReserve) (buyer, .balance) =
      some s₁) :
    ∃ rc s', dexPayment s seller buyer paid block payments = some (rc, s') := by
  obtain ⟨s₁, h1⟩ := hmove
  rw [isPayable, Bool.and_eq_true] at hpay
  have hprice : ¬ accept.rpdDesiredOriginal = 0 := of_decide_eq_true hpay.1
  have hpaid : dexRoyaltiesPaid s p accept.rpdDesiredOriginal payments = true := hpay.2
  unfold dexPayment
  rw [hfound]
  simp only [if_neg hprice, hpaid, Bool.not_true, Bool.false_eq_true, if_false, hbought,
    Option.bind_eq_bind, Option.bind_some, h1]
  by_cases hfin : accept.acceptAmountRemaining ≤ accept.purchased bought
  · have hzero : (accept.reduce (accept.purchased bought)).acceptAmountRemaining = 0 := by
      have hle : accept.purchased bought ≤ accept.acceptAmountRemaining := by
        rw [CMPAccept.purchased_eq_min]
        exact min_le_left _ _
      show accept.acceptAmountRemaining - accept.purchased bought = 0
      omega
    have hput : (s₁.putAccept ⟨seller, p, buyer⟩ (accept.reduce (accept.purchased bought))).accepts.find?
        ⟨seller, p, buyer⟩ = some (accept.reduce (accept.purchased bought)) :=
      find?_insert_self _ _ _
    obtain ⟨s₂, h2, -⟩ := dexFinish_of_zero hput hzero
    rw [if_pos hfin, h2]
    exact ⟨_, _, rfl⟩
  · rw [if_neg hfin]
    exact ⟨_, _, rfl⟩

/-! ### One direction -/

/-- No balance falls, no accept appears, and where no balance rises, no accept waits for less. -/
structure Onward (s s' : State) : Prop where
  balance : ∀ a q, getTokenBalance s a q .balance ≤ getTokenBalance s' a q .balance
  accept : ∀ k x', s'.accepts.find? k = some x' → ∃ x, s.accepts.find? k = some x ∧
    ((∀ a q, getTokenBalance s' a q .balance = getTokenBalance s a q .balance) →
      x.acceptAmountRemaining ≤ x'.acceptAmountRemaining)

theorem Onward.refl (s : State) : Onward s s :=
  ⟨fun _ _ => le_refl _, fun _ x hx => ⟨x, hx, fun _ => le_refl _⟩⟩

theorem Onward.trans {s'' : State} (h : Onward s s') (h' : Onward s' s'') : Onward s s'' := by
  refine ⟨fun a q => (h.balance a q).trans (h'.balance a q), fun k x'' hx'' => ?_⟩
  obtain ⟨x', hx', hle'⟩ := h'.accept k x'' hx''
  obtain ⟨x, hx, hle⟩ := h.accept k x' hx'
  refine ⟨x, hx, fun hsame => ?_⟩
  have hmid : ∀ a q, getTokenBalance s' a q .balance = getTokenBalance s a q .balance := fun a q =>
    le_antisymm ((h'.balance a q).trans (hsame a q).le) (h.balance a q)
  have hend : ∀ a q, getTokenBalance s'' a q .balance = getTokenBalance s' a q .balance := fun a q =>
    (hsame a q).trans (hmid a q).symm
  exact (hle hmid).trans (hle' hend)

theorem purchase_balance (hpos : 0 < amount)
    (h : transferIfPositive s p amount (seller, .acceptReserve) (buyer, .balance) = some s₁) (a : Address)
    (q : PropertyId) :
    getTokenBalance s₁ a q .balance =
      getTokenBalance s a q .balance + if a = buyer ∧ q = p then amount else 0 := by
  have hmoved := transferIfPositive_moved hpos.le (by simp) (by simp) h
  rw [hmoved.balance]
  simp

theorem transferIfPositive_of_nonpos (hle : amount ≤ 0)
    (h : transferIfPositive s p amount (seller, .acceptReserve) (buyer, .balance) = some s₁) : s₁ = s := by
  rw [transferIfPositive, if_neg (not_lt.mpr hle)] at h
  exact (Option.some.inj h).symm

theorem purchase_onward
    (h : transferIfPositive s p amount (seller, .acceptReserve) (buyer, .balance) = some s₁) (a : Address)
    (q : PropertyId) : getTokenBalance s a q .balance ≤ getTokenBalance s₁ a q .balance := by
  by_cases hpos : 0 < amount
  · rw [purchase_balance hpos h]
    split_ifs <;> omega
  · rw [transferIfPositive_of_nonpos (not_lt.mp hpos) h]

theorem dexPayment_onward (h : dexPayment s seller buyer paid block payments = some (rc, s')) :
    Onward s s' := by
  rcases dexPayment_spec h with ⟨rfl, -⟩ | ⟨p, accept, bought, s₁, hp, -, -, h1, hcase⟩
  · exact Onward.refl _
  have hacc := dexPayableAccept_find? hp
  have hbooks : s₁.accepts = s.accepts := transferIfPositive_accepts (by simp) (by simp) h1
  rcases hcase with ⟨-, hframe, -⟩ | ⟨hlt, rfl⟩
  · have htally : ∀ a q, getTokenBalance s' a q .balance = getTokenBalance s₁ a q .balance := fun a q => by
      rw [hframe]
      rfl
    refine ⟨fun a q => ?_, fun k x' hx' => ⟨x', ?_, fun _ => le_refl _⟩⟩
    · rw [htally]
      exact purchase_onward h1 a q
    · rw [hframe] at hx'
      have hx' : (s₁.accepts.erase _).find? k = some x' := hx'
      rw [find?_erase, hbooks] at hx'
      split_ifs at hx' with hk
      exact hx'
  · refine ⟨fun a q => purchase_onward h1 a q, fun k x' hx' => ?_⟩
    have hx' : (s₁.accepts.insert _ _).find? k = some x' := hx'
    rw [find?_insert, hbooks] at hx'
    split_ifs at hx' with hk
    · refine ⟨accept, hk ▸ hacc, fun hsame => ?_⟩
      -- a positive purchase would have raised the buyer's balance
      have hnot : ¬ 0 < accept.purchased bought := fun hpos => by
        have hbuyer := purchase_balance hpos h1 buyer p
        rw [if_pos ⟨rfl, rfl⟩] at hbuyer
        have hsame : getTokenBalance s₁ buyer p .balance = getTokenBalance s buyer p .balance := hsame buyer p
        omega
      have hpart : accept.purchased bought = bought := if_neg (not_lt.mpr hlt.le)
      rw [hpart] at hnot
      rw [← Option.some.inj hx', CMPAccept.reduce]
      show accept.acceptAmountRemaining ≤ accept.acceptAmountRemaining - bought
      omega
    · exact ⟨x', hx', fun _ => le_refl _⟩

theorem dexPayment_idle (h : dexPayment s seller buyer paid block payments = some (rc, s'))
    (hback : Onward s' s) : s' = s := by
  have honward := dexPayment_onward h
  have hsame : ∀ a q, getTokenBalance s' a q .balance = getTokenBalance s a q .balance := fun a q =>
    le_antisymm (hback.balance a q) (honward.balance a q)
  rcases dexPayment_spec h with ⟨hs, -⟩ | ⟨p, accept, bought, s₁, hp, -, -, h1, hcase⟩
  · exact hs
  have hacc := dexPayableAccept_find? hp
  obtain ⟨x', hx', hle⟩ := hback.accept _ _ hacc
  rcases hcase with ⟨-, hframe, -⟩ | ⟨hlt, rfl⟩
  · rw [hframe] at hx'
    have hx' : (s₁.accepts.erase _).find? _ = some x' := hx'
    rw [find?_erase_self] at hx'
    cases hx'
  · have hx' : (s₁.accepts.insert _ _).find? _ = some x' := hx'
    rw [find?_insert_self] at hx'
    have hremaining := hle fun a q => (hsame a q).symm
    rw [← Option.some.inj hx'] at hremaining
    have hremaining : accept.acceptAmountRemaining - bought ≤ accept.acceptAmountRemaining := hremaining
    have hpart : accept.purchased bought = bought := if_neg (not_lt.mpr hlt.le)
    have hnot : ¬ 0 < bought := fun hpos => by
      rw [hpart] at h1
      have hbuyer := purchase_balance hpos h1 buyer p
      rw [if_pos ⟨rfl, rfl⟩] at hbuyer
      have hsame : getTokenBalance s₁ buyer p .balance = getTokenBalance s buyer p .balance := hsame buyer p
      omega
    obtain rfl : bought = 0 := by omega
    obtain rfl := transferIfPositive_of_nonpos hpart.le h1
    rw [State.putAccept, CMPAccept.reduce, Int.sub_zero, insert_eq_self hacc]

/-! ### The round of payments -/

/-- One round: every output is offered as a payment. -/
def paymentRound (buyer : Address) (block : Nat) (payments : List (Address × Int)) (s : State)
    (outs : List (Address × Int)) : Option State :=
  outs.foldlM (fun s out => (dexPayment s out.1 buyer out.2 block payments).map Prod.snd) s

theorem paymentRound_cons (out : Address × Int) (outs : List (Address × Int)) :
    paymentRound buyer block payments s (out :: outs) = some s' ↔
      ∃ rc s₁, dexPayment s out.1 buyer out.2 block payments = some (rc, s₁) ∧
        paymentRound buyer block payments s₁ outs = some s' := by
  simp only [paymentRound, List.foldlM_cons, do_eq_some, Option.map_eq_some_iff, Prod.exists,
    exists_eq_right]
  constructor
  · rintro ⟨s₁, ⟨rc, h⟩, h'⟩
    exact ⟨rc, s₁, h, h'⟩
  · rintro ⟨rc, s₁, h, h'⟩
    exact ⟨s₁, ⟨rc, h⟩, h'⟩

theorem paymentRound_onward
    (h : paymentRound buyer block payments s outs = some s') : Onward s s' := by
  induction outs generalizing s with
  | nil =>
    cases h
    exact Onward.refl _
  | cons out rest ih =>
    obtain ⟨rc, s₁, h1, h2⟩ := (paymentRound_cons out rest).mp h
    exact (dexPayment_onward h1).trans (ih h2)

theorem paymentRound_idle
    (h : paymentRound buyer block payments s outs = some s') (hback : Onward s' s) :
    ∀ out ∈ outs, ∃ rc, dexPayment s out.1 buyer out.2 block payments = some (rc, s) := by
  induction outs with
  | nil => exact fun out hout => absurd hout List.not_mem_nil
  | cons out rest ih =>
    obtain ⟨rc, s₁, h1, h2⟩ := (paymentRound_cons out rest).mp h
    obtain rfl := dexPayment_idle h1 ((paymentRound_onward h2).trans hback)
    intro out' hout'
    rcases List.mem_cons.mp hout' with rfl | hrest
    · exact ⟨rc, h1⟩
    · exact ih h2 out' hrest

theorem paymentRound_of_idle
    (h : ∀ out ∈ outs, ∃ rc, dexPayment s out.1 buyer out.2 block payments = some (rc, s)) :
    paymentRound buyer block payments s outs = some s := by
  induction outs with
  | nil => rfl
  | cons out rest ih =>
    obtain ⟨rc, h1⟩ := h out (.head _)
    exact (paymentRound_cons out rest).mpr
      ⟨rc, s, h1, ih fun out' hout' => h out' (.tail _ hout')⟩

/-! ### Bargains -/

/-- **What the payments of one buyer are about**: the open accept with each seller, and a state
that has the holders of the usernames. -/
structure Bargain where
  accept : Address → Option (PropertyId × CMPAccept)
  names : State

/-- The bargain in a state. -/
def bargain (s : State) (buyer : Address) : Bargain :=
  ⟨fun seller => dexPayableAccept s seller buyer, s⟩

/-- Count one payment: what it buys is taken off the accept, which ends when nothing is left. -/
def Bargain.pay (buyer : Address) (block : Nat) (payments : List (Address × Int)) (b : Bargain)
    (out : Address × Int) : Bargain :=
  match b.accept out.1 with
  | none => b
  | some (p, accept) =>
    if isPayable b.names p accept payments then
      let bought := (dexAmountBought b.names out.1 p accept out.2 block).getD 0
      { accept := Function.update b.accept out.1
          (if accept.acceptAmountRemaining ≤ bought then none else some (p, accept.reduce bought))
        names := if 0 < accept.purchased bought then creditName b.names buyer p else b.names }
    else b

/-- Does a payment buy nothing: is there no accept with its seller, or one that is not payable,
or does the amount buy no token? -/
def Bargain.settled (block : Nat) (payments : List (Address × Int)) (b : Bargain) (out : Address × Int) :
    Bool :=
  match b.accept out.1 with
  | none => true
  | some (p, accept) =>
    !isPayable b.names p accept payments ||
      (decide (dexAmountBought b.names out.1 p accept out.2 block = some 0) &&
        decide (0 < accept.acceptAmountRemaining))

theorem Bargain.settled_of_none {out : Address × Int} (h : b.accept out.1 = none) :
    b.settled block payments out = true := by
  rw [Bargain.settled, h]

theorem Bargain.settled_of_some {out : Address × Int}
    (h : b.accept out.1 = some (p, accept)) :
    b.settled block payments out = true ↔ isPayable b.names p accept payments = true →
      dexAmountBought b.names out.1 p accept out.2 block = some 0 ∧ 0 < accept.acceptAmountRemaining := by
  rw [Bargain.settled, h]
  simp only [Bool.or_eq_true, Bool.not_eq_true', Bool.and_eq_true, decide_eq_true_iff]
  cases isPayable b.names p accept payments <;> simp

theorem dexPayment_idle_iff :
    (∃ rc, dexPayment s seller buyer paid block payments = some (rc, s)) ↔
      (bargain s buyer).settled block payments (seller, paid) = true := by
  cases hp : dexPayableAccept s seller buyer with
  | none =>
    refine iff_of_true ⟨dexErrorPayment - 1, ?_⟩ (Bargain.settled_of_none hp)
    rw [dexPayment, hp]
  | some pa =>
    obtain ⟨p, accept⟩ := pa
    have hacc := dexPayableAccept_find? hp
    rw [Bargain.settled_of_some (show (bargain s buyer).accept (seller, paid).1 = some (p, accept) from hp)]
    constructor
    · rintro ⟨rc, h⟩ hpay
      rcases dexPayment_spec h with ⟨-, hnot⟩ | ⟨q, x, bought, s₁, hq, -, hb, h₁, hcase⟩
      · exact absurd hpay (Bool.eq_false_iff.mp (hnot p accept hp))
      obtain ⟨rfl, rfl⟩ := Prod.mk.inj (Option.some.inj (hp.symm.trans hq))
      have hacc' := hacc
      rcases hcase with ⟨-, hframe, -⟩ | ⟨hlt, hs⟩
      · rw [hframe] at hacc'
        have hacc' : (s₁.accepts.erase _).find? _ = some accept := hacc'
        rw [find?_erase_self] at hacc'
        cases hacc'
      · rw [hs] at hacc'
        have hacc' : (s₁.accepts.insert _ _).find? _ = some accept := hacc'
        rw [find?_insert_self] at hacc'
        have hrest := congrArg CMPAccept.acceptAmountRemaining (Option.some.inj hacc')
        have hrest : accept.acceptAmountRemaining - bought = accept.acceptAmountRemaining := hrest
        obtain rfl : bought = 0 := by omega
        exact ⟨hb, hlt⟩
    · intro hsettled
      by_cases h1 : accept.rpdDesiredOriginal = 0
      · refine ⟨dexErrorPayment - 2, ?_⟩
        rw [dexPayment, hp]
        exact if_pos h1
      by_cases h2 : (!dexRoyaltiesPaid s p accept.rpdDesiredOriginal payments) = true
      · refine ⟨dexErrorPayment - 3, ?_⟩
        rw [dexPayment, hp]
        exact (if_neg h1).trans (if_pos h2)
      have hpay : isPayable s p accept payments = true := by
        rw [isPayable, decide_eq_true h1, Bool.true_and]
        simpa using h2
      obtain ⟨hb, hpos⟩ := hsettled hpay
      have hb : dexAmountBought s seller p accept paid block = some 0 := hb
      have hpart : accept.purchased 0 = 0 := if_neg (not_lt.mpr hpos.le)
      have hsame : s.putAccept ⟨seller, p, buyer⟩ (accept.reduce 0) = s := by
        rw [State.putAccept, CMPAccept.reduce, Int.sub_zero, insert_eq_self hacc]
      refine ⟨dexErrorPayment, ?_⟩
      rw [dexPayment, hp]
      refine (if_neg h1).trans ((if_neg h2).trans ?_)
      rw [hb]
      simp [hpart, transferIfPositive, hsame, if_neg (not_le.mpr hpos)]

/-! ### The code follows the bargain -/

theorem dexPayableAccept_found (hs : SingleOffer s) :
    dexPayableAccept s seller buyer = some (p, accept) ↔
      s.offers.contains ⟨seller, p⟩ = true ∧ s.accepts.find? ⟨seller, p, buyer⟩ = some accept := by
  simp only [dexPayableAccept, do_eq_some, pure_eq_some, Prod.mk.injEq]
  constructor
  · rintro ⟨q, hq, x, hx, rfl, rfl⟩
    exact ⟨(dexGetTokenForSale_iff hs).mp hq, hx⟩
  · rintro ⟨hc, hx⟩
    exact ⟨p, (dexGetTokenForSale_iff hs).mpr hc, accept, hx, rfl, rfl⟩

/-- The state is where the bargain says: same names, same open accepts. -/
structure Follows (buyer : Address) (b : Bargain) (s : State) : Prop where
  names : SameNames b.names s
  accept : ∀ seller, b.accept seller = dexPayableAccept s seller buyer
  single : SingleOffer s

theorem follows_bargain (hs : SingleOffer s) (buyer : Address) : Follows buyer (bargain s buyer) s :=
  ⟨SameNames.refl s, fun _ => rfl, hs⟩

theorem Follows.isPayable (h : Follows buyer b s) (p : PropertyId) (accept : CMPAccept) :
    isPayable b.names p accept payments = isPayable s p accept payments := by
  unfold Token.isPayable
  rw [h.names.dexRoyaltiesPaid]

theorem Follows.settled (h : Follows buyer b s) (out : Address × Int) :
    b.settled block payments out = (bargain s buyer).settled block payments out := by
  have hown := h.accept out.1
  cases hp : dexPayableAccept s out.1 buyer with
  | none =>
    rw [hp] at hown
    rw [Bargain.settled_of_none hown, Bargain.settled_of_none hp]
  | some pa =>
    obtain ⟨p, accept⟩ := pa
    rw [hp] at hown
    rw [Bool.eq_iff_iff, Bargain.settled_of_some hown, h.isPayable, ← h.names.dexAmountBought]
    exact (Bargain.settled_of_some (b := bargain s buyer) hp).symm

/-- Other sellers' accepts are not touched, and the seller's own is what `own` says. -/
theorem accept_update {own : Option (PropertyId × CMPAccept)} (h : Follows buyer b s)
    (hself : dexPayableAccept s' seller buyer = own)
    (hother : ∀ a, a ≠ seller → dexPayableAccept s' a buyer = dexPayableAccept s a buyer) (a : Address) :
    Function.update b.accept seller own a = dexPayableAccept s' a buyer := by
  by_cases ha : a = seller
  · rw [ha, Function.update_self, hself]
  · rw [Function.update_of_ne ha, hother a ha, h.accept]

section
variable (h : transferIfPositive s p amount (seller, .acceptReserve) (buyer, .balance) = some s₁)
include h

theorem transferIfPositive_books
    :
    s₁.offers = s.offers ∧ s₁.accepts = s.accepts := by
  unfold transferIfPositive at h
  split_ifs at h
  · exact (transferTally_moved (by simp) (by simp) h).books
  · cases h
    exact ⟨rfl, rfl⟩

theorem transferIfPositive_names
    :
    SameNames (if 0 < amount then creditName s buyer p else s) s₁ := by
  unfold transferIfPositive at h
  split_ifs at h ⊢ with hpos
  · exact transferTally_names hpos h
  · cases h
    exact SameNames.refl s

end

theorem payable_congr (hs : SingleOffer s) (hs' : SingleOffer s')
    (hoffers : ∀ q, s'.offers.contains ⟨seller, q⟩ = s.offers.contains ⟨seller, q⟩)
    (haccepts : ∀ q, s'.accepts.find? ⟨seller, q, buyer⟩ = s.accepts.find? ⟨seller, q, buyer⟩) :
    dexPayableAccept s' seller buyer = dexPayableAccept s seller buyer := by
  refine Option.ext fun pa => ?_
  obtain ⟨q, x⟩ := pa
  rw [dexPayableAccept_found hs, dexPayableAccept_found hs', hoffers, haccepts]

/-- An accept that has ended is found no more, whether its offer stays or not. -/
theorem payable_closed (hs : SingleOffer s) (hs' : SingleOffer s')
    (hoffer : s.offers.contains ⟨seller, p⟩ = true)
    (hoffers : s'.offers = s.offers ∨ s'.offers = s.offers.erase ⟨seller, p⟩)
    (haccepts : s'.accepts = s.accepts.erase ⟨seller, p, buyer⟩) :
    dexPayableAccept s' seller buyer = none := by
  cases hp : dexPayableAccept s' seller buyer with
  | none => rfl
  | some pa =>
    obtain ⟨q, x⟩ := pa
    obtain ⟨hq, hx⟩ := (dexPayableAccept_found hs').mp hp
    have hq : s.offers.contains ⟨seller, q⟩ = true := by
      rcases hoffers with hoffers | hoffers
      · rw [← hoffers, hq]
      · rw [hoffers, contains_erase, Bool.and_eq_true] at hq
        exact hq.2
    obtain rfl : q = p := congrArg OfferKey.property (hs _ _ hq hoffer rfl)
    rw [haccepts, find?_erase_self] at hx
    cases hx

/-- **One payment**, by the code and by the bargain. -/
theorem Follows.pay {b : Bargain} (h : Follows buyer b s)
    (hpay : dexPayment s seller buyer paid block payments = some (rc, s')) :
    Follows buyer (b.pay buyer block payments (seller, paid)) s' := by
  have hown := h.accept seller
  have hsingle' := (dexPayment_step hpay).single h.single
  rcases dexPayment_spec hpay with ⟨rfl, hnot⟩ | ⟨p, accept, bought, s₁, hp, hopen, hb, h1, hcase⟩
  · -- refused: the bargain does not change either
    cases hp : dexPayableAccept s' seller buyer with
    | none =>
      rw [hp] at hown
      rw [Bargain.pay, hown]
      exact h
    | some pa =>
      obtain ⟨p, accept⟩ := pa
      rw [hp] at hown
      rw [Bargain.pay, hown]
      show Follows buyer (if Token.isPayable b.names p accept payments then _ else b) s'
      rw [h.isPayable, hnot p accept hp]
      exact h
  · rw [hp] at hown
    have hoffer := ((dexPayableAccept_found h.single).mp hp).1
    have hb' : dexAmountBought b.names seller p accept paid block = some bought := by
      rw [← h.names.dexAmountBought, hb]
    have hstep : b.pay buyer block payments (seller, paid) =
        { accept := Function.update b.accept seller
            (if accept.acceptAmountRemaining ≤ bought then none else some (p, accept.reduce bought))
          names := if 0 < accept.purchased bought then creditName b.names buyer p else b.names } := by
      rw [Bargain.pay, hown]
      show (if Token.isPayable b.names p accept payments then _ else b) = _
      rw [h.isPayable, hopen, if_pos rfl, hb', Option.getD_some]
    have hnames : SameNames (if 0 < accept.purchased bought then creditName b.names buyer p else b.names) s₁ := by
      refine SameNames.trans ?_ (transferIfPositive_names h1)
      split_ifs
      · exact h.names.creditName buyer p
      · exact h.names
    obtain ⟨hoffers1, haccepts1⟩ := transferIfPositive_books h1
    rw [hstep]
    rcases hcase with ⟨hle, hframe, hoffers⟩ | ⟨hlt, rfl⟩
    · -- the accept ends
      rw [if_pos hle]
      have hacc : s'.accepts = s.accepts.erase ⟨seller, p, buyer⟩ := by
        rw [hframe, ← haccepts1]
      refine ⟨?_, fun a => (accept_update h ?_ ?_ a), hsingle'⟩
      · refine hnames.trans ?_
        rw [hframe]
        exact ⟨rfl, rfl, rfl, rfl⟩
      · exact payable_closed h.single hsingle' hoffer (hoffers1 ▸ hoffers) hacc
      · intro a ha
        refine payable_congr h.single hsingle' (fun q => ?_) fun q => ?_
        · rcases hoffers with hoffers | hoffers
          · rw [hoffers, hoffers1]
          · rw [hoffers, hoffers1, contains_erase]
            simp [ha]
        · rw [hacc, find?_erase_ne]
          simp [ha]
    · -- the accept waits for the rest
      rw [if_neg (not_le.mpr hlt)]
      refine ⟨hnames.trans ⟨rfl, rfl, rfl, rfl⟩, fun a => (accept_update h ?_ ?_ a), hsingle'⟩
      · refine (dexPayableAccept_found hsingle').mpr ⟨?_, find?_insert_self _ _ _⟩
        show s₁.offers.contains _ = true
        rw [hoffers1, hoffer]
      · intro a ha
        refine payable_congr h.single hsingle' (fun q => ?_) fun q => ?_
        · show s₁.offers.contains _ = _
          rw [hoffers1]
        · show (s₁.accepts.insert _ _).find? _ = _
          rw [find?_insert_ne, haccepts1]
          simp [ha]

theorem Follows.round (h : Follows buyer b s)
    (hround : paymentRound buyer block payments s outs = some s') :
    Follows buyer (outs.foldl (Bargain.pay buyer block payments) b) s' := by
  induction outs generalizing s b with
  | nil =>
    cases hround
    exact h
  | cons out rest ih =>
    obtain ⟨rc, s₁, h1, h2⟩ := (paymentRound_cons out rest).mp hround
    exact ih (h.pay h1) h2

/-! ### Once and twice -/

/-- The outputs that are offered as payments: those to an address that is not the Exodus address. -/
def paymentOutputs (s : State) (vout : List (Option Address × Int)) : List (Address × Int) :=
  vout.filterMap fun out =>
    out.1.bind fun dest => if dest = s.cfg.exodusAddress then none else some (dest, out.2)

theorem handleDExPayments_eq (outs : List (Address × Int)) :
    handleDExPayments s buyer outs block =
      (paymentRound buyer block outs s outs).bind fun s₁ => paymentRound buyer block outs s₁ outs := by
  rw [handleDExPayments, List.foldlM_append]
  rfl

/-- **Each payment counts once if and only if** one round settles the bargain: counted once and
in order, the payments to a seller use up the accept, or they buy nothing. One open offer for
each seller holds in every reachable state (`Core.single`). -/
theorem payments_counted_once_iff (hs : SingleOffer s) {vout : List (Option Address × Int)}
    (hround : paymentRound buyer block (paymentOutputs s vout) s (paymentOutputs s vout) = some s₁) :
    handleDExPayments s buyer (paymentOutputs s vout) block = some s₁ ↔
      ∀ out ∈ paymentOutputs s vout,
        ((paymentOutputs s vout).foldl (Bargain.pay buyer block (paymentOutputs s vout))
          (bargain s buyer)).settled block (paymentOutputs s vout) out = true := by
  generalize paymentOutputs s vout = outs at hround ⊢
  have hfollows := (follows_bargain hs buyer).round hround
  have hidle : ∀ out : Address × Int,
      (∃ rc, dexPayment s₁ out.1 buyer out.2 block outs = some (rc, s₁)) ↔
        (outs.foldl (Bargain.pay buyer block outs) (bargain s buyer)).settled block outs out = true :=
    fun out => by rw [hfollows.settled, dexPayment_idle_iff]
  rw [handleDExPayments_eq, hround, Option.bind_some]
  constructor
  · intro hagain out hout
    exact (hidle out).mp (paymentRound_idle hagain (Onward.refl s₁) out hout)
  · intro hsettled
    exact paymentRound_of_idle fun out hout => (hidle out).mpr (hsettled out hout)

/-- Four units of RPD for all tokens, and an accept of half of them. -/
def pricedRun : List Event :=
  [.blockBegin 1 1500000000 1, .packet dexIssue issuanceEnv,
    .packet { dexSell with amountDesired := 4 } issuanceEnv, .packet dexAccept issuanceEnv]

/-- The accept is paid in full. -/
theorem payments_counted_once_full :
    ∃ n s₁, run step (Node.initial exchangeCfg) pricedRun = some n ∧
      paymentRound "buyer" 1 [("seller", 2)] n.state [("seller", 2)] = some s₁ ∧
      getTokenBalance s₁ "buyer" 3 .balance = 2 ^ 59 ∧
      handleDExPayments n.state "buyer" [("seller", 2)] 1 = some s₁ := by
  have hrun : (run step (Node.initial exchangeCfg) pricedRun).map (fun n =>
      (paymentOutputs n.state [(some "seller", 2)],
        (paymentRound "buyer" 1 [("seller", 2)] n.state [("seller", 2)]).map
          (fun s => getTokenBalance s "buyer" 3 .balance),
        ([("seller", 2)].foldl (Bargain.pay "buyer" 1 [("seller", 2)]) (bargain n.state "buyer")).settled 1
          [("seller", 2)] ("seller", 2))) = some ([("seller", 2)], some (2 ^ 59), true) := by decide +kernel
  obtain ⟨n, hn, hvals⟩ := Option.map_eq_some_iff.mp hrun
  simp only [Prod.mk.injEq] at hvals
  obtain ⟨houts, hround, hsettled⟩ := hvals
  obtain ⟨s₁, hs₁, hbal⟩ := Option.map_eq_some_iff.mp hround
  refine ⟨n, s₁, hn, hs₁, hbal, ?_⟩
  have honce := (payments_counted_once_iff (run_inv hn).core.single (houts.symm ▸ hs₁)).mpr
    (houts.symm ▸ fun out hout => (List.mem_singleton.mp hout) ▸ hsettled)
  rwa [houts] at honce

/-- One unit for an accept that two would pay: it buys a quarter of the tokens once, and the
handler credits half of them. -/
theorem payments_counted_twice :
    ∃ n s₁ s₂, run step (Node.initial exchangeCfg) pricedRun = some n ∧
      paymentRound "buyer" 1 [("seller", 1)] n.state [("seller", 1)] = some s₁ ∧
      getTokenBalance s₁ "buyer" 3 .balance = 2 ^ 58 ∧
      handleDExPayments n.state "buyer" [("seller", 1)] 1 = some s₂ ∧
      getTokenBalance s₂ "buyer" 3 .balance = 2 ^ 59 ∧ s₂ ≠ s₁ := by
  have hrun : (run step (Node.initial exchangeCfg) pricedRun).map (fun n =>
      ((paymentRound "buyer" 1 [("seller", 1)] n.state [("seller", 1)]).map
          (fun s => getTokenBalance s "buyer" 3 .balance),
        (handleDExPayments n.state "buyer" [("seller", 1)] 1).map
          (fun s => getTokenBalance s "buyer" 3 .balance))) = some (some (2 ^ 58), some (2 ^ 59)) := by
    decide +kernel
  obtain ⟨n, hn, hvals⟩ := Option.map_eq_some_iff.mp hrun
  obtain ⟨hround, hhandle⟩ := Prod.mk.inj hvals
  obtain ⟨s₁, hs₁, hbal₁⟩ := Option.map_eq_some_iff.mp hround
  obtain ⟨s₂, hs₂, hbal₂⟩ := Option.map_eq_some_iff.mp hhandle
  refine ⟨n, s₁, s₂, hn, hs₁, hbal₁, hs₂, hbal₂, fun heq => ?_⟩
  rw [heq, hbal₁] at hbal₂
  exact absurd hbal₂ (by decide)

end Rapids.Token
