import Rapids.Token.FeeDistribution
import Rapids.Token.Restart

/-!
# Rapids.Token.FeeCalls

**Where fees are evaluated**: every call of `AddFee` and of `NotifyTotalTokensChanged` that
an event makes, with the state it is made in.

`FeeEvaluation` has one constructor for each place in the source. The state is what the handler
has made of the state before the event when it gets there: a trade adds its fee before the
traded tokens move, a credit or debit comes before the notification.

In each of these states tokens are conserved, and every balance has room for what is
cached. A new fee is part of what is sold, and that is still reserved when the fee is added.
So a call does what it should if and only if an amount that is due finds a holder.
-/

namespace Rapids.Token

open Rapids.Lib

/-! ### The calls -/

/-- The states in which a packet reaches `logicHelper_CrowdsaleParticipation`. -/
inductive Participates (s : State) (tx : CMPTransaction) (env : TxEnv) : State → Investment → Prop
  /-- A simple send, after the transfer. -/
  | send {s₁ : State} (h : transferTally s tx.property (toI64 tx.nValue) (tx.sender, .balance)
      (tx.receiver, .balance) = some s₁) : Participates s tx env s₁ (tx.investment env)
  /-- A grant, after the credit. -/
  | grant {sp : SPEntry} {s₁ : State} (hvalue : isOutOfRange tx.nValue = false)
      (hsp : getSP s tx.property = some sp) (hmanual : sp.manual = true)
      (hmax : tx.nValue ≤ toU64 (maxInt8Bytes - getTotalTokens s tx.property))
      (h : granted s tx env = some s₁) : Participates s tx env s₁ (tx.investment env)
  /-- A payment in RPD. -/
  | payment (paid : Nat) : Participates s tx env s (CMPTransaction.investment { tx with nValue := paid } env)

/-- The order of a packet. -/
def CMPTransaction.order (tx : CMPTransaction) : CMPMetaDEx :=
  ⟨tx.sender, tx.block, tx.property, toI64 tx.nNewValue, tx.desiredProperty, toI64 tx.desiredValue, tx.txid,
    tx.txIdx, toI64 tx.nNewValue⟩

/-- The calls that evaluate the fee cache of a property while an event is handled. -/
inductive FeeEvaluation (s : State) : Event → State → PropertyId → FeeOp → Prop
  /-- `x_Trade` fills an order, after the orders before it. -/
  | traded {tx : CMPTransaction} {env : TxEnv} {prices : MdPricesMap} {pre rest : List OrderRef}
      {r : OrderRef} {new : CMPMetaDEx} {s₁ : State} {got paid : Int}
      (hvalue : isOutOfRange tx.nNewValue = false)
      (hprices : s.metadex.find? tx.desiredProperty = some prices)
      (horders : MdPricesMap.orders tx.desiredProperty prices = pre ++ r :: rest)
      (hloop : tradeLoop pre tx.order s = some (new, s₁)) (hfill : fillOf new r = some (got, paid))
      (hfee : takesFee s₁ new r.order = true) :
      FeeEvaluation s (.packet tx env) s₁ new.desiredProperty (.addFee (tradingFee s₁ new r.order got))
  /-- The end of a block, after vesting. -/
  | vested {height time : Nat} {s₁ s₂ : State} (h₁ : eraseExpiredAccepts s height = some s₁)
      (hgrows : ¬ s₁.cfg.devmsc time - s₁.exodusPrev < 0)
      (hmax : ¬ (allReward < s₁.cfg.devmsc time ∨ s₁.cfg.devmsc time < 0))
      (h₂ : creditVested s₁ (s₁.cfg.devmsc time) = some s₂) :
      FeeEvaluation s (.blockEnd height time) s₂ propertyMSC .notify
  /-- A participation, after the credits of user and issuer. -/
  | participation {tx : CMPTransaction} {env : TxEnv} {inv : Investment} {crowd : CMPCrowd} {sp : SPEntry}
      {user issuer : Int} {close : Bool} {s₁ s₂ s₃ : State} (hpart : Participates s tx env s₁ inv)
      (hcrowd : s₁.crowds.find? inv.receiver = some crowd)
      (hfund : fundraiserTokens s₁ sp crowd inv = some (user, issuer, close))
      (h₂ : creditIfPositive
          { s₁ with crowds := s₁.crowds.insert inv.receiver (crowd.participate inv user issuer) }
          inv.sender crowd.propertyId user = some s₂)
      (h₃ : creditIfPositive s₂ inv.receiver crowd.propertyId issuer = some s₃) :
      FeeEvaluation s (.packet tx env) s₃ crowd.propertyId .notify
  /-- A distribution to owners in version 0, after the payments. -/
  | burned {tx : CMPTransaction} {env : TxEnv} {receivers : List (Int × Address)} {s₁ : State}
      (h : payOwners s tx.sender tx.property receivers = some s₁) :
      FeeEvaluation s (.packet tx env) s₁ propertyMSC .notify
  /-- A new property with a fixed number of tokens, after the credit. -/
  | created {tx : CMPTransaction} {env : TxEnv} {s₁ : State}
      (htype : TxType.ofId tx.type = some .createPropertyFixed)
      (h : assertTally (putSP s tx.ecosystem (tx.fixedSP env)).2 tx.sender (peekNextSPID s tx.ecosystem)
        (toI64 tx.nValue) .balance = some s₁) :
      FeeEvaluation s (.packet tx env) s₁ (peekNextSPID s tx.ecosystem) .notify
  /-- A grant, after its effects. -/
  | granted {tx : CMPTransaction} {env : TxEnv} {sp : SPEntry} {s₁ s₂ : State}
      (hvalue : isOutOfRange tx.nValue = false) (hsp : getSP s tx.property = some sp)
      (hmanual : sp.manual = true)
      (hmax : tx.nValue ≤ toU64 (maxInt8Bytes - getTotalTokens s tx.property))
      (h₁ : Rapids.Token.granted s tx env = some s₁) (h₂ : grantEffects s₁ tx env = some s₂) :
      FeeEvaluation s (.packet tx env) s₂ tx.property .notify
  /-- A revocation, after the debit. -/
  | revoked {tx : CMPTransaction} {env : TxEnv} {info : SPEntry} {s₁ s₂ : State}
      (hvalue : isOutOfRange tx.nValue = false)
      (h₁ : assertTally s tx.sender tx.property (-toI64 tx.nValue) .balance = some s₁)
      (h₂ : updateSP s₁ tx.property info = some s₂) : FeeEvaluation s (.packet tx env) s₂ tx.property .notify

/-! ### The states of the calls -/

/-- What a notification needs of its state. -/
structure Notifiable (s : State) (p : PropertyId) (block : Nat) : Prop where
  solvent : Solvent s
  feesUpTo : FeesUpTo s block
  bounded : supply s p ≤ i64Max

section
variable {s s₁ s₂ : State} {p : PropertyId} {block : Nat} {tx : CMPTransaction} {env : TxEnv}

theorem balance_le_held (hs : Solvent s) (a : Address) (p : PropertyId) :
    getTokenBalance s a p .balance ≤ held s.tally p := by
  have hle := balance_add_reserve_le_held hs a a p
  have hreserve := hs.nonneg a p .metadexReserve (by decide)
  omega

theorem Notifiable.settles_iff (h : Notifiable s p block) :
    Settles s p block .notify ↔ (FeeOp.notify.IsDue s p → BaseHeld s p) := by
  refine notify_settles_iff h.solvent h.feesUpTo fun a => ?_
  have hbal := balance_le_held h.solvent a p
  have hbounded := h.bounded
  unfold supply at hbounded
  omega

theorem LedgerInv.notifiable (hi : LedgerInv s) (hf : FeesUpTo s block) (p : PropertyId) :
    Notifiable s p block :=
  ⟨hi.solvent, hf, hi.bounded p⟩

/-- From a state of the ledger, by a step that keeps the property within the maximum. -/
theorem Notifiable.of_effect {minted : PropertyId → Int} (hi : LedgerInv s) (he : Effect s s₁ block minted)
    (hle : supply s p + minted p ≤ i64Max) : Notifiable s₁ p block :=
  ⟨he.solvent hi.solvent, he.feesUpTo, (he.supply p).le.trans hle⟩

theorem Participates.ledgerInv {inv : Investment} (hi : LedgerInv s) (hf : FeesUpTo s tx.block)
    (h : Participates s tx env s₁ inv) : LedgerInv s₁ ∧ FeesUpTo s₁ tx.block ∧ inv.block = tx.block := by
  cases h with
  | send h =>
    obtain ⟨he, hfr⟩ := (transferTally_moved (by simp) (by simp) h).effect hf
    exact ⟨LedgerStep.inv ⟨he, hfr, hi.mintable_zero⟩ hi, he.feesUpTo, rfl⟩
  | grant hvalue hsp hmanual hmax h =>
    have st := granted_ledgerStep hi hf (isOutOfRange_eq_false hvalue).2.2 hsp hmanual hmax h
    exact ⟨st.inv hi, st.effect.feesUpTo, rfl⟩
  | payment paid => exact ⟨hi, hf, rfl⟩

theorem participation_notifiable {inv : Investment} {crowd : CMPCrowd} {sp : SPEntry} {user issuer : Int}
    {close : Bool} {s₃ : State} (hi : LedgerInv s₁) (hf : FeesUpTo s₁ block)
    (hcrowd : s₁.crowds.find? inv.receiver = some crowd)
    (hfund : fundraiserTokens s₁ sp crowd inv = some (user, issuer, close))
    (h₂ : creditIfPositive
        { s₁ with crowds := s₁.crowds.insert inv.receiver (crowd.participate inv user issuer) }
        inv.sender crowd.propertyId user = some s₂)
    (h₃ : creditIfPositive s₂ inv.receiver crowd.propertyId issuer = some s₃) :
    Notifiable s₃ crowd.propertyId block := by
  obtain ⟨huser, hissuer⟩ := fundraiserTokens_nonneg hfund
  obtain ⟨htotal, -, -⟩ := hi.crowd_entry hcrowd
  have hbound := calculateFundraiser_spec (by rw [htotal]; exact hi.bounded _) hfund
  rw [htotal] at hbound
  have e₁ : Effect s₁ { s₁ with crowds := s₁.crowds.insert inv.receiver (crowd.participate inv user issuer) }
      block fun _ => 0 := Effect.of_eq hf rfl rfl rfl rfl rfl rfl
  have e₂ := (creditIfPositive_step block huser h₂).effect e₁.feesUpTo
  have e₃ := (creditIfPositive_step block hissuer h₃).effect e₂.feesUpTo
  refine Notifiable.of_effect hi ((e₁.trans e₂ fun _ => (zero_add _).symm).trans e₃ fun _ => rfl) ?_
  rw [if_pos rfl]
  omega

theorem creditVested_notifiable {devmsc : Int} (hi : LedgerInv s) (hf : FeesUpTo s block)
    (hmax : devmsc ≤ allReward) (h : creditVested s devmsc = some s₁) :
    Notifiable s₁ propertyMSC block := by
  have hexodus := hi.exodus
  have hreward : allReward ≤ i64Max := by decide
  unfold creditVested at h
  dsimp only at h
  split_ifs at h with hgrows
  · obtain ⟨r, hcredit, rfl⟩ := Option.map_eq_some_iff.mp h
    obtain ⟨ok, s₂⟩ := r
    refine Notifiable.of_effect hi (vested_effect devmsc hf hcredit) ?_
    split_ifs <;> omega
  · cases h
    exact hi.notifiable hf propertyMSC

theorem grantEffects_ledgerInv (hi : LedgerInv s) (hf : FeesUpTo s tx.block)
    (h : grantEffects s tx env = some s₁) : LedgerInv s₁ ∧ FeesUpTo s₁ tx.block := by
  unfold grantEffects at h
  split_ifs at h
  · cases h
    exact ⟨hi, hf⟩
  · simp only [Option.map_eq_some_iff, Prod.exists, exists_eq_right] at h
    obtain ⟨rc, h⟩ := h
    obtain ⟨he, hfr⟩ := crowdsaleParticipation_effect hf h
    exact ⟨LedgerStep.inv ⟨he, hfr, participationMint_mintable hi h⟩ hi, he.feesUpTo⟩

/-! ### The states of fills -/

theorem tradeLoop_listed {pre rest : List OrderRef} {new new' : CMPMetaDEx} {s' : State}
    (hl : Listed s (pre ++ rest)) (h : tradeLoop pre new s = some (new', s')) : Listed s' rest := by
  induction pre generalizing new s with
  | nil =>
    obtain ⟨-, rfl⟩ := Prod.mk.inj (Option.some.inj h)
    exact hl
  | cons r pre ih =>
    rw [tradeLoop] at h
    split_ifs at h
    · exact ih hl.tail h
    · simp only [Option.bind_eq_some_iff, Prod.exists] at h
      obtain ⟨new₁, s₁, h₁, h⟩ := h
      have hl1 : Listed s₁ (pre ++ rest) := (tradeOrder_step hl h₁).2.1
      split_ifs at h
      · obtain ⟨-, rfl⟩ := Prod.mk.inj (Option.some.inj h)
        exact hl1.append_right
      · exact ih hl1 h

/-- Every balance has room for a fee that is part of what is sold, which is still reserved. -/
theorem fee_fits {o : CMPMetaDEx} {price : ℚ} {pos : Position} {fee : Int} (hi : LedgerInv s) (hb : BookInv s)
    (ho : s.orderAt o.property price pos = some o) (hle : fee ≤ o.amountRemaining) (a : Address) :
    getTokenBalance s a o.property .balance + (getCachedAmount s o.property + fee) ≤ i64Max := by
  have hreserve := reserve_of_order hb ho
  have hparts := balance_add_reserve_le_held hi.solvent a o.addr o.property
  have hbounded := hi.bounded o.property
  unfold supply at hbounded
  omega

theorem tradingFee_lt {new old : CMPMetaDEx} {got : Int} (hgot : 1 ≤ got) :
    0 ≤ tradingFee s new old got ∧ tradingFee s new old got < got := by
  unfold tradingFee
  split_ifs
  · rw [Int.tdiv_eq_ediv_of_nonneg (by omega)]
    omega
  · omega

theorem traded_settles_iff {prices : MdPricesMap} {pre rest : List OrderRef} {r : OrderRef} {new : CMPMetaDEx}
    {got paid : Int} (hi : LedgerInv s) (hb : BookInv s) (hf : FeesUpTo s tx.block)
    (hvalue : isOutOfRange tx.nNewValue = false) (hprices : s.metadex.find? tx.desiredProperty = some prices)
    (horders : MdPricesMap.orders tx.desiredProperty prices = pre ++ r :: rest)
    (hloop : tradeLoop pre tx.order s = some (new, s₁)) (hfill : fillOf new r = some (got, paid)) :
    Settles s₁ new.desiredProperty tx.block (.addFee (tradingFee s₁ new r.order got)) ↔
      ((FeeOp.addFee (tradingFee s₁ new r.order got)).IsDue s₁ new.desiredProperty →
        BaseHeld s₁ new.desiredProperty) := by
  have hl : Listed s (pre ++ r :: rest) := horders ▸ listed_pricesOrders hprices
  have hmatch : Matchable tx.order := by
    obtain ⟨hpos, hmax, hcast⟩ := isOutOfRange_eq_false hvalue
    unfold Matchable CMPTransaction.order
    unfold maxInt8Bytes at hmax
    unfold i64Max
    dsimp only
    omega
  obtain ⟨hstep, hnew⟩ := tradeLoop_step hl.append_left hloop
  obtain ⟨hplaced, hleft, hle⟩ := tradeLoop_placed hb.placed hmatch hl.append_left hloop
  have hb1 : BookInv s₁ := ⟨hplaced, hstep.reserved hb.reserved⟩
  have ho := (tradeLoop_listed hl hloop).head
  have hplace := hplaced.ref ho
  have hproperty : r.order.property = new.desiredProperty := by
    rw [hplace.property, hnew]
    exact (mem_pricesOrders (horders ▸ List.mem_append_right pre (.head _))).1
  have hfair := fillOf_fair hleft (hle.trans hmatch.2) hplace.toOpenOrder hfill
  obtain ⟨hfee, hpart⟩ := @tradingFee_lt s₁ new r.order got hfair.got_pos
  rw [← hplace.property] at ho
  rw [← hproperty]
  have hi1 := hstep.ledgerInv hf hi
  exact addFee_settles_iff hi1.solvent (hstep.feesUpTo hf) hfee (fee_fits hi1 hb1 ho (hpart.le.trans hfair.got_le))

end

/-! ### Every call -/

/-- A call does what it should exactly if an amount that is due finds a holder. -/
theorem FeeEvaluation.settles_iff {s s₁ : State} {e : Event} {p : PropertyId} {op : FeeOp} (hc : Core s e.block)
    (hi : LedgerInv s) (hb : BookInv s) (hfresh : freshEvent s e = true) (h : FeeEvaluation s e s₁ p op) :
    Settles s₁ p e.block op ↔ (op.IsDue s₁ p → BaseHeld s₁ p) := by
  have hf := hc.feesUpTo
  cases h with
  | traded hvalue hprices horders hloop hfill hfee =>
    exact traded_settles_iff hi hb hf hvalue hprices horders hloop hfill
  | vested h₁ hgrows hmax h₂ =>
    have hstep := eraseExpiredAcceptsLoop_step h₁
    exact (creditVested_notifiable (hstep.ledgerInv hi) (hstep.core hc).feesUpTo (by omega) h₂).settles_iff
  | participation hpart hcrowd hfund h₂ h₃ =>
    obtain ⟨hi1, hf1, -⟩ := hpart.ledgerInv hi hf
    exact (participation_notifiable hi1 hf1 hcrowd hfund h₂ h₃).settles_iff
  | burned h =>
    obtain ⟨he, hframe⟩ := payOwners_effect hf h
    have hi1 := LedgerStep.inv ⟨he, hframe, hi.mintable_zero⟩ hi
    exact (hi1.notifiable he.feesUpTo propertyMSC).settles_iff
  | @created tx env _ htype h =>
    -- a free identifier has no tokens yet
    have hnone : supply s (peekNextSPID s tx.ecosystem) = 0 := by
      refine hi.supply_eq_zero ?_
      simpa [freshEvent, freshId, createsProperty, htype] using hfresh
    have he := putSP_effect tx.ecosystem (tx.fixedSP env) hf
    have he1 := he.trans (((assertTally_spec h).feeStep tx.block).effect he.feesUpTo) fun _ => rfl
    refine (Notifiable.of_effect hi he1 ?_).settles_iff
    have hmax := (inI64_toI64 tx.nValue).2
    simp [hnone]
    omega
  | granted hvalue hsp hmanual hmax h₁ h₂ =>
    have hstep := granted_ledgerStep hi hf (isOutOfRange_eq_false hvalue).2.2 hsp hmanual hmax h₁
    obtain ⟨hi2, hf2⟩ := grantEffects_ledgerInv (hstep.inv hi) hstep.effect.feesUpTo h₂
    exact (hi2.notifiable hf2 _).settles_iff
  | @revoked tx env info s₁ s₂ hvalue h₁ h₂ =>
    obtain ⟨hpos, -, hcast⟩ := isOutOfRange_eq_false hvalue
    have he := ((assertTally_spec h₁).feeStep tx.block).effect hf
    have he1 := he.trans (updateSP_effect he.feesUpTo h₂) fun _ => rfl
    refine (Notifiable.of_effect hi he1 ?_).settles_iff
    have hbounded := hi.bounded tx.property
    simp
    omega

/-- **Fee calls along runs**: in every state that a run of fresh steps reaches, each call that
the next event makes completes and distributes what is due exactly, if and only if an amount
that is due finds a holder of the reserved token. -/
theorem fee_calls_settle_iff {cfg : Config} {es : List Event} {n : Node} {e : Event} {s₁ : State}
    {p : PropertyId} {op : FeeOp} (hrun : run freshStep (Node.initial cfg) es = some n)
    (hnext : e.isNext n.clock = true) (hfresh : freshEvent n.state e = true)
    (hcall : FeeEvaluation n.state e s₁ p op) :
    Settles s₁ p e.block op ↔ (op.IsDue s₁ p → BaseHeld s₁ p) := by
  obtain ⟨hi, hl⟩ := run_ledgerInv hrun
  exact hcall.settles_iff (hi.core.mono (e.isNext_block hnext)) hl (run_bookInv (run_of_guarded hrun)).2 hfresh

/-! ### Two markets -/

/-- What a new order would trade with each order listed, and whether a fee would be taken. -/
def possibleFills (s : State) (new : CMPMetaDEx) : List (Option (Int × Int) × Bool) :=
  (MdPricesMap.orders new.desiredProperty ((s.metadex.find? new.desiredProperty).getD ∅)).map fun r =>
    (fillOf new r, takesFee s new r.order)

theorem feeEvaluation_of_single {s : State} {tx : CMPTransaction} {env : TxEnv} {got paid : Int}
    (hvalue : isOutOfRange tx.nNewValue = false) (h : possibleFills s tx.order = [(some (got, paid), true)]) :
    FeeEvaluation s (.packet tx env) s tx.desiredProperty (.addFee (got.tdiv 2000)) := by
  obtain ⟨r, rest, horders, hr, -⟩ := List.map_eq_cons_iff.mp h
  obtain ⟨hfill, hfee⟩ := Prod.mk.inj hr
  have hamount : tradingFee s tx.order r.order got = got.tdiv 2000 := if_pos hfee
  cases hprices : s.metadex.find? tx.desiredProperty with
  | none =>
    rw [show tx.order.desiredProperty = tx.desiredProperty from rfl, hprices] at horders
    cases horders
  | some prices =>
    rw [show tx.order.desiredProperty = tx.desiredProperty from rfl, hprices, Option.getD_some] at horders
    rw [← hamount]
    exact @FeeEvaluation.traded s tx env prices [] rest r tx.order s got paid hvalue hprices horders rfl hfill hfee

/-- The order that takes all of a market's book, sold in `p` for `desired`. -/
def takingAll (p desired : PropertyId) : CMPMetaDEx :=
  ⟨"bob", 201, p, 20000000, desired, 20000000, 0, 0, 20000000⟩

/-- In the main ecosystem the vested tokens have an owner, who receives a fee that is due. -/
theorem fee_call_settles_market :
    ∃ n, run freshStep (Node.initial vestedConfig) (vestedBlock ++ marketBlock 20000000) = some n ∧
      FeeEvaluation n.state (takingOrder 20000000) n.state 3 (.addFee 10000) ∧
      (FeeOp.addFee 10000).IsDue n.state 3 ∧ Settles n.state 3 201 (.addFee 10000) := by
  have hrun : ((run freshStep (Node.initial vestedConfig) (vestedBlock ++ marketBlock 20000000)).map fun n =>
      decide ((takingOrder 20000000).isNext n.clock = true ∧ freshEvent n.state (takingOrder 20000000) = true ∧
        possibleFills n.state (takingAll 4 3) = [(some (20000000, 20000000), true)] ∧
        (n.state.distributionThresholds.find? 3).getD 0 = 10000 ∧ getCachedAmount n.state 3 = 0 ∧
        0 < heldByOthers n.state.tally "FEEDISTRIBUTION" 1)) = some true := by decide +kernel
  obtain ⟨n, hn, hvals⟩ := Option.map_eq_some_iff.mp hrun
  obtain ⟨hnext, hfresh, horders, hthreshold, hcached, hheld⟩ := of_decide_eq_true hvals
  have hcall : FeeEvaluation n.state (takingOrder 20000000) n.state 3 (.addFee 10000) :=
    @feeEvaluation_of_single _ _ _ 20000000 20000000 (by decide) horders
  have hdue : (FeeOp.addFee 10000).IsDue n.state 3 := by
    simp only [FeeOp.IsDue, FeeOp.threshold, FeeOp.amount, hthreshold, hcached]
    decide
  have hsolvent := (run_ledgerInv hn).2.solvent
  exact ⟨n, hn, hcall, hdue,
    (fee_calls_settle_iff hn hnext hfresh hcall).mpr fun _ => (baseHeld_iff (p := 3) hsolvent).mpr hheld⟩

/-- A property of a billion tokens in the test ecosystem, created in block 200. -/
def testIssuance (idx : Nat) (sender ticker : String) : Event :=
  .packet
    { txid := idx, block := 200, blockTime := vestedTime, txIdx := idx, sender := sender, type := 50,
      nValue := 1000000000, ecosystem := 2, propType := 1, name := ticker, ticker := ticker }
    { blockHash := some 200 }

/-- Block 200 with both properties in the test ecosystem. -/
def testMarketBlock : List Event :=
  [ testIssuance 1 "alice" "AAA", testIssuance 2 "bob" "BBB",
    orderAtOne 200 3 "alice" 2147483651 2147483652 20000000, .blockEnd 200 vestedTime ]

/-- In the test ecosystem no one owns the reserved token: a fee that is due aborts the trade. -/
theorem fee_call_aborts_test_market :
    ∃ n, run freshStep (Node.initial vestedConfig) (vestedBlock ++ testMarketBlock) = some n ∧
      (orderAtOne 201 0 "bob" 2147483652 2147483651 20000000).isNext n.clock = true ∧
      FeeEvaluation n.state (orderAtOne 201 0 "bob" 2147483652 2147483651 20000000) n.state 2147483651
        (.addFee 10000) ∧
      (FeeOp.addFee 10000).IsDue n.state 2147483651 ∧ addFee n.state 2147483651 201 10000 = none ∧
      handle n.state (orderAtOne 201 0 "bob" 2147483652 2147483651 20000000) = none := by
  have hrun : ((run freshStep (Node.initial vestedConfig) (vestedBlock ++ testMarketBlock)).map fun n =>
      decide ((orderAtOne 201 0 "bob" 2147483652 2147483651 20000000).isNext n.clock = true ∧
        possibleFills n.state (takingAll 2147483652 2147483651) = [(some (20000000, 20000000), true)] ∧
        (n.state.distributionThresholds.find? 2147483651).getD 0 = 10000 ∧
        getCachedAmount n.state 2147483651 = 0 ∧ (addFee n.state 2147483651 201 10000).isNone = true ∧
        (handle n.state (orderAtOne 201 0 "bob" 2147483652 2147483651 20000000)).isNone = true)) =
      some true := by decide +kernel
  obtain ⟨n, hn, hvals⟩ := Option.map_eq_some_iff.mp hrun
  obtain ⟨hnext, horders, hthreshold, hcached, hadd, hhandle⟩ := of_decide_eq_true hvals
  have hcall : FeeEvaluation n.state (orderAtOne 201 0 "bob" 2147483652 2147483651 20000000) n.state 2147483651
      (.addFee 10000) := @feeEvaluation_of_single _ _ _ 20000000 20000000 (by decide) horders
  refine ⟨n, hn, hnext, hcall, ?_, Option.isNone_iff_eq_none.mp hadd, Option.isNone_iff_eq_none.mp hhandle⟩
  simp only [FeeOp.IsDue, FeeOp.threshold, FeeOp.amount, hthreshold, hcached]
  decide

end Rapids.Token
