import Rapids.Token.Conservation

/-!
# Rapids.Token.Reserves

The traditional exchange over whole runs: its **reserves**, and whether an
accept **stays payable**.

`DexInv` holds along every run in which the payments fit 64 bits. The integer
computation of `DEXMATH` guarantees this; the older floating-point one does
not, and an overpayment then *raises* what the accept waits for.
-/

namespace Rapids.Token

open Rapids.Lib OrdMap

variable {s : State} {accept : CMPAccept} {k : AcceptKey} {n : Node}

/-! ### Reserves -/

/-- A step whose payments, if any, fit 64 bits. -/
def fitStep : Node → Event → Option Node := guarded (fun n e => fitsEvent n.state e) step

theorem fitStep_inv {n' : Node} {e : Event} (hi : NodeInv n) (hd : DexInv n.state)
    (h : fitStep n e = some n') : NodeInv n' ∧ DexInv n'.state := by
  obtain ⟨hfit, hs⟩ := guarded_eq_some.mp h
  obtain ⟨hnext, hh, -⟩ := step_eq_some.mp hs
  exact ⟨step_inv hi hs, handle_dexInv (hi.core.mono (e.isNext_block hnext)) hfit hh hd⟩

theorem run_dexInv {cfg : Config} {es : List Event}
    (h : run fitStep (Node.initial cfg) es = some n) : NodeInv n ∧ DexInv n.state :=
  run_invariant (I := fun n => NodeInv n ∧ DexInv n.state) (fun _ _ _ hi hs => fitStep_inv hi.1 hi.2 hs)
    ⟨initial_inv cfg, initial_dexInv cfg⟩ h

/-- In every state a run reaches, the accept reserve is what the open accepts
wait for, a sell reserve belongs to an open offer, and no seller has two
offers. -/
theorem reserves_match_books {cfg : Config} {es : List Event} {n : Node}
    (hrun : run fitStep (Node.initial cfg) es = some n) :
    (∀ seller p, getTokenBalance n.state seller p .acceptReserve = acceptedOf n.state seller p) ∧
      (∀ seller p, 0 < getTokenBalance n.state seller p .sellofferReserve →
        dexOfferExists n.state seller p = true) ∧
      ∀ seller p p', dexOfferExists n.state seller p = true → dexOfferExists n.state seller p' = true →
        p = p' := by
  obtain ⟨-, hd⟩ := run_dexInv hrun
  refine ⟨hd.acceptReserve, hd.sellReserve, fun seller p p' hp hp' => ?_⟩
  exact congrArg OfferKey.property (hd.single ⟨seller, p⟩ ⟨seller, p'⟩ hp hp' rfl)

/-! ### An overpaid accept -/

def exchangeCfg : Config := { regtestCfg with activationAllowSender := ["admin"] }

/-- A packet of the first block. -/
def dexTx (sender : Address) (type idx : Nat) : CMPTransaction where
  txid := idx
  block := 1
  blockTime := 1500000000
  txIdx := idx
  sender := sender
  type := type

/-- `2 ^ 60` indivisible tokens. -/
def dexIssue : CMPTransaction :=
  { dexTx "seller" 50 1 with
    nValue := 2 ^ 60
    ecosystem := 1
    propType := 1
    name := "Many"
    ticker := "MANY" }

/-- The integer computation is switched off. -/
def dexmathOff : CMPTransaction := { dexTx "admin" 65533 2 with version := 0xFFFF, featureId := 5 }

/-- All tokens for one unit of RPD. -/
def dexSell : CMPTransaction :=
  { dexTx "seller" 20 3 with
    version := 1
    property := 3
    nValue := 2 ^ 60
    amountDesired := 1
    blocktimelimit := 10
    subaction := subactionNew }

def dexAccept : CMPTransaction :=
  { dexTx "buyer" 22 4 with receiver := "seller", property := 3, nValue := 2 ^ 59 }

/-- Half of the offer is accepted. -/
def acceptedRun : List Event :=
  [.blockBegin 1 1500000000 1, .packet dexIssue issuanceEnv, .packet dexSell issuanceEnv,
    .packet dexAccept issuanceEnv]

/-- As before, without `DEXMATH`, and paid fifteen times over. -/
def overpaidRun : List Event :=
  [.blockBegin 1 1500000000 1, .packet dexIssue issuanceEnv, .packet dexmathOff issuanceEnv,
    .packet dexSell issuanceEnv, .packet dexAccept issuanceEnv, .payment 1 "buyer" [("seller", 15)]]

theorem reserves_match_accepted :
    ∃ n, run fitStep (Node.initial exchangeCfg) acceptedRun = some n ∧
      acceptedOf n.state "seller" 3 = 2 ^ 59 ∧
      getTokenBalance n.state "seller" 3 .acceptReserve = acceptedOf n.state "seller" 3 := by
  have hrun : (run fitStep (Node.initial exchangeCfg) acceptedRun).map
      (fun n => acceptedOf n.state "seller" 3) = some (2 ^ 59) := by decide +kernel
  obtain ⟨n, hn, hacc⟩ := Option.map_eq_some_iff.mp hrun
  exact ⟨n, hn, hacc, (reserves_match_books hn).1 "seller" 3⟩

/-- Fifteen times `2 ^ 60` is a negative signed integer: each of the two rounds
adds `2 ^ 60` to what the accept waits for, and nothing to the reserve. -/
theorem reserves_mismatch_overpaid :
    ¬ ∀ (cfg : Config) (es : List Event) (n : Node), run step (Node.initial cfg) es = some n →
      (∀ seller p, getTokenBalance n.state seller p .acceptReserve = acceptedOf n.state seller p) ∧
        (∀ seller p, 0 < getTokenBalance n.state seller p .sellofferReserve →
          dexOfferExists n.state seller p = true) ∧
        ∀ seller p p', dexOfferExists n.state seller p = true →
          dexOfferExists n.state seller p' = true → p = p' := by
  intro h
  have hrun : (run step (Node.initial exchangeCfg) overpaidRun).map (fun n =>
      (getTokenBalance n.state "seller" 3 .acceptReserve, acceptedOf n.state "seller" 3)) =
      some (2 ^ 59, 5 * 2 ^ 59) := by decide +kernel
  obtain ⟨n, hn, hval⟩ := Option.map_eq_some_iff.mp hrun
  obtain ⟨hres, hacc⟩ := Prod.mk.inj hval
  have heq := (h exchangeCfg overpaidRun n hn).1 "seller" 3
  rw [hres, hacc] at heq
  exact absurd heq (by decide)

/-! ### Payable accepts

A payment is matched to an accept through the seller's open offer, so an accept
whose offer is gone stays in the book and cannot be paid. -/

/-- Does the event leave the accept alone? It is no payment by the buyer, and no
end of a block at which the window is over. -/
def Event.spares (k : AcceptKey) (accept : CMPAccept) : Event → Bool
  | .payment _ sender _ => sender != k.buyer
  | .blockEnd height _ => !accept.isExpired height
  | _ => true

theorem PacketStep.keepsAccepts {s' : State} {tx : CMPTransaction} {env : TxEnv} {rc : Int}
    (h : PacketStep s tx env rc s') : KeepsAccepts s s' := by
  cases h with
  | rejected _ => exact .of_eq rfl
  | settled he _ _ => exact .of_eq he.accepts
  | created hcr _ _ => exact .of_eq hcr.effect.accepts
  | exchanged hx _ _ => exact hx.2.2
  | traded he _ hst _ _ =>
    refine .of_eq (Eq.trans ?_ he.accepts)
    rw [hst.frame]

theorem handle_keepsAccept {s' : State} {e : Event}
    (hc : Core s e.block) (hspare : e.spares k accept = true)
    (hk : s.accepts.find? k = some accept) (h : handle s e = some s') :
    s'.accepts.find? k = some accept := by
  cases e with
  | blockBegin height time hash =>
    obtain ⟨minted, he⟩ := handlerBlockBegin_effect hc.feesUpTo h
    rwa [he.accepts]
  | payment block sender outputs =>
    have hne : k.buyer ≠ sender := fun heq => by simp [Event.spares, heq] at hspare
    rwa [paymentLoop_accepts hne h]
  | packet tx env =>
    obtain ⟨rc, h⟩ := handle_packet h
    exact (interpretPacket_step hc.solvent hc.feesUpTo h).keepsAccepts k accept hk
  | blockEnd height time =>
    obtain ⟨s₁, s₂, h1, h2, rfl⟩ := handlerBlockEnd_cases h
    have hc1 := (eraseExpiredAcceptsLoop_step h1).core hc
    obtain ⟨minted, he⟩ := calculateAndUpdateDevmsc_effect hc1.feesUpTo h2
    have hopen : ∀ e ∈ s.accepts.entries, e.1 = k → e.2.isExpired height = false := fun e hmem heq => by
      have hfind : s.accepts.find? k = some e.2 := heq ▸ mem_entries_iff.mp hmem
      rw [hk, Option.some.injEq] at hfind
      rw [← hfind]
      simpa [Event.spares] using hspare
    rw [(checkExpiredAlerts_effect height time he.feesUpTo).1.accepts, he.accepts,
      eraseExpiredAcceptsLoop_accepts hopen h1, hk]

/-- A step that meets both conditions, on identifiers and on payments. -/
def soundStep : Node → Event → Option Node :=
  guarded (fun n e => freshEvent n.state e && fitsEvent n.state e) step

/-- A sound step that spares an accept. -/
def sparingStep (k : AcceptKey) (accept : CMPAccept) : Node → Event → Option Node :=
  guarded (fun _ e => e.spares k accept) soundStep

/-- All three invariants. -/
structure SoundNode (n : Node) : Prop where
  inv : NodeInv n
  dex : DexInv n.state
  ledger : LedgerInv n.state

theorem soundStep_inv {n' : Node} {e : Event} (hi : SoundNode n) (h : soundStep n e = some n') :
    SoundNode n' := by
  obtain ⟨hok, hs⟩ := guarded_eq_some.mp h
  rw [Bool.and_eq_true] at hok
  have hd := fitStep_inv hi.inv hi.dex (guarded_eq_some.mpr ⟨hok.2, hs⟩)
  have hl := freshStep_ledger hi.inv hi.ledger (guarded_eq_some.mpr ⟨hok.1, hs⟩)
  exact ⟨hd.1, hd.2, hl.2⟩

theorem run_sound {cfg : Config} {es : List Event}
    (h : run soundStep (Node.initial cfg) es = some n) : SoundNode n :=
  run_invariant (fun _ _ _ hi hs => soundStep_inv hi hs)
    ⟨initial_inv cfg, initial_dexInv cfg, initial_ledgerInv cfg⟩ h

theorem run_keepsAccept {es : List Event} {n' : Node}
    (hi : SoundNode n) (hk : n.state.accepts.find? k = some accept)
    (h : run (sparingStep k accept) n es = some n') :
    SoundNode n' ∧ n'.state.accepts.find? k = some accept := by
  refine run_invariant (I := fun n => SoundNode n ∧ n.state.accepts.find? k = some accept)
    (fun n e n' hi hs => ?_) ⟨hi, hk⟩ h
  obtain ⟨hspare, hs⟩ := guarded_eq_some.mp hs
  refine ⟨soundStep_inv hi.1 hs, ?_⟩
  obtain ⟨hnext, hh, -⟩ := step_eq_some.mp (guarded_eq_some.mp hs).2
  exact handle_keepsAccept (hi.1.inv.core.mono (e.isNext_block hnext)) hspare hi.2 hh

/-- The tokens a payment buys under the price the accept recorded. A price of
nothing buys no definite amount. -/
def amountBought (s : State) (k : AcceptKey) (accept : CMPAccept) (paid : Int) (block : Nat) :
    Option Int :=
  if accept.rpdDesiredOriginal = 0 then none
  else dexAmountBought s k.seller k.property accept paid block

/-- The payment finds the accept, and the buyer gets what it buys, up to what is
left. -/
def Credited (s : State) (k : AcceptKey) (accept : CMPAccept) (paid : Int) (block : Nat)
    (payments : List (Address × Int)) : Prop :=
  dexPayableAccept s k.seller k.buyer = some (k.property, accept) ∧
    ∃ bought rc s', amountBought s k accept paid block = some bought ∧
      dexPayment s k.seller k.buyer paid block payments = some (rc, s') ∧
      getTokenBalance s' k.buyer k.property .balance =
        getTokenBalance s k.buyer k.property .balance + min accept.acceptAmountRemaining bought

theorem CMPAccept.purchased_eq_min (accept : CMPAccept) (bought : Int) :
    accept.purchased bought = min accept.acceptAmountRemaining bought := by
  unfold CMPAccept.purchased
  split_ifs <;> omega

theorem dexGetTokenForSale_iff (hs : SingleOffer s) {seller : Address} {p : PropertyId} :
    dexGetTokenForSale s seller = some p ↔ dexOfferExists s seller p = true := by
  unfold dexGetTokenForSale
  cases hf : s.offers.entries.find? fun o => o.1.seller == seller with
  | none =>
    simp only [Option.map_none, reduceCtorEq, false_iff, Bool.not_eq_true]
    cases hex : dexOfferExists s seller p with
    | false => rfl
    | true =>
      obtain ⟨o, ho⟩ := Option.isSome_iff_exists.mp hex
      have := List.find?_eq_none.mp hf _ (mem_entries_iff.mpr ho)
      simp at this
  | some e =>
    have hseller : e.1.seller = seller := by simpa using List.find?_some hf
    have hmem : s.offers.contains e.1 = true := by
      simp [contains, mem_entries_iff.mp (List.mem_of_find?_eq_some hf)]
    simp only [Option.map_some, Option.some.injEq]
    constructor
    · rintro rfl
      rw [← hseller]
      exact hmem
    · intro hex
      exact congrArg OfferKey.property (hs e.1 ⟨seller, p⟩ hmem hex hseller)

theorem dexPayableAccept_iff (hs : SingleOffer s)
    (hk : s.accepts.find? k = some accept) :
    dexPayableAccept s k.seller k.buyer = some (k.property, accept) ↔
      dexOfferExists s k.seller k.property = true := by
  rw [← dexGetTokenForSale_iff hs]
  simp only [dexPayableAccept, do_eq_some, pure_eq_some, Prod.mk.injEq]
  constructor
  · rintro ⟨p, hp, a, -, rfl, -⟩
    exact hp
  · intro hp
    exact ⟨k.property, hp, accept, hk, rfl, rfl⟩

theorem dexFinish_of_zero {seller buyer : Address} {p : PropertyId}
    (ha : s.accepts.find? ⟨seller, p, buyer⟩ = some accept) (h0 : accept.acceptAmountRemaining = 0) :
    ∃ s', dexFinish s seller buyer p = some s' ∧ s'.tally = s.tally := by
  have hd : dexAcceptDestroy s buyer seller p = some (0, s.eraseAccept ⟨seller, p, buyer⟩) := by
    simp [dexAcceptDestroy, ha, h0, transferIfPositive]
  unfold dexFinish
  rw [hd]
  simp only [Option.bind_eq_bind, Option.bind_some]
  split_ifs with hz
  · cases hex : dexOfferExists (s.eraseAccept ⟨seller, p, buyer⟩) seller p with
    | false =>
      refine ⟨s.eraseAccept ⟨seller, p, buyer⟩, ?_, rfl⟩
      simp [dexOfferDestroy, hex]
    | true =>
      refine ⟨(s.eraseAccept ⟨seller, p, buyer⟩).eraseOffer ⟨seller, p⟩, ?_, rfl⟩
      simp [dexOfferDestroy, hex, transferIfPositive, hz.1]
  · exact ⟨_, rfl, rfl⟩

theorem DexInv.remaining_le (hi : DexInv s)
    (hk : s.accepts.find? k = some accept) :
    accept.acceptAmountRemaining ≤ getTokenBalance s k.seller k.property .acceptReserve := by
  rw [hi.acceptReserve]
  have hle : acceptWeight k.seller k.property k accept ≤ acceptedOf s k.seller k.property := by
    unfold acceptedOf sumBy
    refine le_sumEntries (fun e he => ?_) (mem_entries_iff.mpr hk)
    have := hi.nonneg e.1 e.2 (mem_entries_iff.mp he)
    unfold acceptWeight
    split_ifs <;> omega
  simpa [acceptWeight] using hle

theorem payOut_isSome (hd : DexInv s) (hl : LedgerInv s) (hk : s.accepts.find? k = some accept) {amount : Int}
    (hle : amount ≤ accept.acceptAmountRemaining) :
    ∃ s', transferIfPositive s k.property amount (k.seller, .acceptReserve) (k.buyer, .balance) =
      some s' := by
  unfold transferIfPositive
  split_ifs with hpos
  · have hres := hd.remaining_le hk
    have hdebit : ∃ s₁, assertTally s k.seller k.property (-amount) .acceptReserve = some s₁ :=
      assertTally_isSome (by omega) (fun hc => by omega) (fun _ => by unfold i64Min; omega)
        (fun _ => by omega) (fun hc => by simp at hc)
    obtain ⟨s₁, h1⟩ := hdebit
    have t := assertTally_spec h1
    have hsol := t.solvent hl.solvent
    -- what the seller gave up leaves room for it in the buyer's balance
    have hbal := hsol.balance_le_supply k.buyer k.property
    have hnn := hsol.nonneg k.buyer k.property .balance (by simp)
    have hsup := t.supply_eq k.property
    simp only [ne_eq, reduceCtorEq, not_false_eq_true, and_self, if_true] at hsup
    have hb := hl.bounded k.property
    have hcredit : ∃ s₂, assertTally s₁ k.buyer k.property amount .balance = some s₂ :=
      assertTally_isSome (by omega) (fun _ => by omega) (fun hc => by omega) (fun _ => by omega)
        (fun _ hc => by omega)
    obtain ⟨s₂, h2⟩ := hcredit
    exact ⟨s₂, by simp [transferTally, h1, h2]⟩
  · exact ⟨s, rfl⟩

theorem credited_of_open (hd : DexInv s) (hl : LedgerInv s) {paid : Int} {block : Nat} {payments : List (Address × Int)} {bought : Int}
    (hk : s.accepts.find? k = some accept) (hr : 0 < accept.acceptAmountRemaining)
    (hroy : dexRoyaltiesPaid s k.property accept.rpdDesiredOriginal payments = true)
    (hopen : dexOfferExists s k.seller k.property = true)
    (hb : amountBought s k accept paid block = some bought) (h0 : 0 ≤ bought) :
    Credited s k accept paid block payments := by
  have hpay := (dexPayableAccept_iff hd.single hk).mpr hopen
  refine ⟨hpay, bought, ?_⟩
  unfold amountBought at hb
  split_ifs at hb with hprice
  have hpur : 0 ≤ accept.purchased bought ∧ accept.purchased bought ≤ accept.acceptAmountRemaining := by
    rw [accept.purchased_eq_min]
    omega
  obtain ⟨s₁, h1⟩ := payOut_isSome hd hl hk hpur.2
  have mv := transferIfPositive_moved hpur.1 (by simp) (by simp) h1
  have hbal : getTokenBalance s₁ k.buyer k.property .balance =
      getTokenBalance s k.buyer k.property .balance + min accept.acceptAmountRemaining bought := by
    rw [mv.balance, ← accept.purchased_eq_min]
    simp
  have hamount : amountBought s k accept paid block = some bought := by
    rw [amountBought, if_neg hprice, hb]
  by_cases hfin : accept.acceptAmountRemaining ≤ accept.purchased bought
  · have hzero : (accept.reduce (accept.purchased bought)).acceptAmountRemaining = 0 := by
      simp only [CMPAccept.reduce]
      omega
    have hput : (s₁.putAccept k (accept.reduce (accept.purchased bought))).accepts.find?
        ⟨k.seller, k.property, k.buyer⟩ = some (accept.reduce (accept.purchased bought)) :=
      find?_insert_self _ _ _
    obtain ⟨s₂, h2, htally⟩ := dexFinish_of_zero hput hzero
    refine ⟨if 0 < accept.purchased bought then 0 else dexErrorPayment, s₂, hamount, ?_, ?_⟩
    · simp [dexPayment, hpay, if_neg hprice, hroy, hb, h1, if_pos hfin, h2]
    · rw [← hbal, getTokenBalance, getTokenBalance, htally]
      rfl
  · refine ⟨if 0 < accept.purchased bought then 0 else dexErrorPayment,
      s₁.putAccept k (accept.reduce (accept.purchased bought)), hamount, ?_, ?_⟩
    · simp [dexPayment, hpay, if_neg hprice, hroy, hb, h1, if_neg hfin]
    · exact hbal

theorem Credited.bought_nonneg {paid : Int}
    {block : Nat} {payments : List (Address × Int)} (hr : 0 < accept.acceptAmountRemaining)
    (h : Credited s k accept paid block payments) :
    ∃ bought, amountBought s k accept paid block = some bought ∧ 0 ≤ bought := by
  obtain ⟨hpay, bought, rc, s', hb, h, hbal⟩ := h
  refine ⟨bought, hb, ?_⟩
  by_contra hneg
  have hsame : getTokenBalance s' k.buyer k.property .balance =
      getTokenBalance s k.buyer k.property .balance := by
    rcases dexPayment_cases h with ⟨-, rfl⟩ | ⟨p, a, b, s₁, hpay', hb', h1, -, h2⟩
    · rfl
    rw [hpay, Option.some.injEq, Prod.mk.injEq] at hpay'
    obtain ⟨rfl, rfl⟩ := hpay'
    unfold amountBought at hb
    split_ifs at hb
    rw [hb, Option.some.injEq] at hb'
    subst hb'
    have hpur : accept.purchased bought = bought := by
      rw [accept.purchased_eq_min]
      omega
    rw [hpur, transferIfPositive, if_neg (by omega), Option.some.injEq] at h1
    rw [hpur, if_neg (by omega), Option.some.injEq] at h2
    rw [← h2, ← h1]
    rfl
  omega

/-- An accept that a run spares is payable in the end if and only if the seller
still has an open offer for its property (and the payment buys an amount). -/
theorem accept_payable_iff {cfg : Config} {es later : List Event} {n n' : Node} {k : AcceptKey}
    {accept : CMPAccept} {paid : Int} {block : Nat} {payments : List (Address × Int)}
    (hrun : run soundStep (Node.initial cfg) es = some n)
    (hk : n.state.accepts.find? k = some accept) (hr : 0 < accept.acceptAmountRemaining)
    (hlater : run (sparingStep k accept) n later = some n')
    (hroy : dexRoyaltiesPaid n'.state k.property accept.rpdDesiredOriginal payments = true) :
    Credited n'.state k accept paid block payments ↔
      dexOfferExists n'.state k.seller k.property = true ∧
        ∃ bought, amountBought n'.state k accept paid block = some bought ∧ 0 ≤ bought := by
  obtain ⟨hi, hk'⟩ := run_keepsAccept (run_sound hrun) hk hlater
  constructor
  · intro h
    exact ⟨(dexPayableAccept_iff hi.dex.single hk').mp h.1, h.bought_nonneg hr⟩
  · rintro ⟨hopen, bought, hb, h0⟩
    exact credited_of_open hi.dex hi.ledger hk' hr hroy hopen hb h0

/-! ### A replaced offer and a cancelled one -/

/-- The accept of `acceptedRun`. -/
def halfKey : AcceptKey := ⟨"seller", 3, "buyer"⟩

def halfAccept : CMPAccept := ⟨2 ^ 59, 2 ^ 59, 10, 3, 2 ^ 60, 1, 3, 1⟩

/-- The seller asks for more. -/
def dexReprice : CMPTransaction :=
  { dexTx "seller" 20 5 with
    version := 1
    property := 3
    nValue := 2 ^ 58
    amountDesired := 7
    blocktimelimit := 10
    subaction := subactionUpdate }

def dexCancel : CMPTransaction :=
  { dexTx "seller" 20 5 with version := 1, property := 3, subaction := subactionCancel }

/-- The tokens accepted at the old price are paid for at the old price. -/
theorem accept_payable_repriced :
    ∃ n n', run soundStep (Node.initial exchangeCfg) acceptedRun = some n ∧
      run (sparingStep halfKey halfAccept) n [.packet dexReprice issuanceEnv] = some n' ∧
      Credited n'.state halfKey halfAccept 1 1 [("seller", 1)] := by
  have hrun : (run soundStep (Node.initial exchangeCfg) acceptedRun).bind (fun n =>
      (run (sparingStep halfKey halfAccept) n [.packet dexReprice issuanceEnv]).map fun n' =>
        (n.state.accepts.find? halfKey, dexOfferExists n'.state "seller" 3,
          dexRoyaltiesPaid n'.state 3 1 [("seller", 1)], amountBought n'.state halfKey halfAccept 1 1)) =
      some (some halfAccept, true, true, some (2 ^ 60)) := by decide +kernel
  simp only [Option.bind_eq_some_iff, Option.map_eq_some_iff, Prod.mk.injEq] at hrun
  obtain ⟨n, hn, n', hn', hk, hopen, hroy, hb⟩ := hrun
  refine ⟨n, n', hn, hn', ?_⟩
  exact (accept_payable_iff hn hk (by decide) hn' hroy).mpr ⟨hopen, _, hb, by decide⟩

/-- After the seller cancels, the buyer's payment within the window finds no
accept. -/
theorem accept_not_payable_cancelled :
    ¬ ∀ (cfg : Config) (es later : List Event) (n n' : Node) (k : AcceptKey) (accept : CMPAccept)
      (paid bought : Int) (block : Nat) (payments : List (Address × Int)),
      run step (Node.initial cfg) es = some n → n.state.accepts.find? k = some accept →
      0 < accept.acceptAmountRemaining → accept.isExpired block = false →
      (∀ e ∈ later, ∃ tx env, e = .packet tx env ∧ tx.sender = k.seller ∧ tx.block ≤ block) →
      run step n later = some n' →
      dexRoyaltiesPaid n'.state k.property accept.rpdDesiredOriginal payments = true →
      amountBought n'.state k accept paid block = some bought → 0 ≤ bought →
      Credited n'.state k accept paid block payments := by
  intro h
  have hrun : (run step (Node.initial exchangeCfg) acceptedRun).bind (fun n =>
      (run step n [.packet dexCancel issuanceEnv]).map fun n' =>
        (n.state.accepts.find? halfKey, dexPayableAccept n'.state "seller" "buyer",
          dexRoyaltiesPaid n'.state 3 1 [("seller", 1)], amountBought n'.state halfKey halfAccept 1 1)) =
      some (some halfAccept, none, true, some (2 ^ 60)) := by decide +kernel
  simp only [Option.bind_eq_some_iff, Option.map_eq_some_iff, Prod.mk.injEq] at hrun
  obtain ⟨n, hn, n', hn', hk, hnone, hroy, hb⟩ := hrun
  have hlater : ∀ e ∈ [Event.packet dexCancel issuanceEnv], ∃ tx env,
      e = .packet tx env ∧ tx.sender = halfKey.seller ∧ tx.block ≤ 1 := fun e he => by
    rw [List.mem_singleton] at he
    exact ⟨dexCancel, issuanceEnv, he, rfl, le_rfl⟩
  obtain ⟨hpay, -⟩ := h exchangeCfg acceptedRun _ n n' halfKey halfAccept 1 (2 ^ 60) 1 [("seller", 1)]
    hn hk (by decide) (by decide) hlater hn' hroy hb (by decide)
  have hnone' : dexPayableAccept n'.state halfKey.seller halfKey.buyer = none := hnone
  rw [hnone'] at hpay
  cases hpay

end Rapids.Token
