import Rapids.Token.BookWalk
import Rapids.Token.Reserves

/-!
# Rapids.Token.Book

The **order book** of the token exchange in every reachable state.

`BookInv` says that every order stands where its own fields say it belongs, with something
left of what it sells, and that the tokens the open orders have left are reserved. Orders
enter the book from `MetaDEx_ADD` only, which takes its amounts from a packet with checked
amounts; afterwards they are reduced by fills and erased.

A new order is the newest, so its place is free whatever its fills did. The fills of a new
order go through the levels of one property by price, and through each level by position:
**price-time priority**.
-/

namespace Rapids.Token

open Rapids.Lib OrdMap

variable {p : PropertyId} {new new' : CMPMetaDEx} {l : List OrderRef}

/-! ### Orders in their places -/

/-- An order at its own place: under the property it sells, at its unit price and its
position in the chain. -/
structure InBook (p : PropertyId) (price : ℚ) (pos : Position) (o : CMPMetaDEx) : Prop extends
    OpenOrder o where
  property : o.property = p
  unitPrice : o.unitPrice = price
  place : position o.block o.idx = pos

/-- Every order of the book is at its own place. -/
def OrdersPlaced (s : State) : Prop :=
  ∀ p price pos o, s.orderAt p price pos = some o → InBook p price pos o

/-- What holds of every reachable book. -/
structure BookInv (s : State) : Prop where
  placed : OrdersPlaced s
  reserved : MetaDexReserved s

section
variable {s s' : State}

/-- No order is new in the book. -/
def NoNewOrders (s s' : State) : Prop :=
  ∀ p price pos o, s'.orderAt p price pos = some o → s.orderAt p price pos = some o

theorem NoNewOrders.refl (s : State) : NoNewOrders s s := fun _ _ _ _ => id

theorem NoNewOrders.of_eq (h : s'.metadex = s.metadex) : NoNewOrders s s' := by
  intro p price pos o ho
  unfold State.orderAt State.level at ho ⊢
  rw [h] at ho
  exact ho

theorem NoNewOrders.trans {s₁ s₂ s₃ : State} (h : NoNewOrders s₁ s₂) (h' : NoNewOrders s₂ s₃) :
    NoNewOrders s₁ s₃ :=
  fun p price pos o ho => h p price pos o (h' p price pos o ho)

theorem NoNewOrders.eraseOrder (s : State) (p : PropertyId) (price : ℚ) (pos : Position) :
    NoNewOrders s (s.eraseOrder p price pos) := by
  intro q price' pos' o ho
  rw [State.orderAt_eraseOrder] at ho
  split_ifs at ho
  exact ho

section
variable (hb : OrdersPlaced s)
include hb

theorem OrdersPlaced.of_noNewOrders (h : NoNewOrders s s') : OrdersPlaced s' :=
  fun p price pos o ho => hb p price pos o (h p price pos o ho)

theorem OrdersPlaced.of_eq (h : s'.metadex = s.metadex) : OrdersPlaced s' :=
  hb.of_noNewOrders (NoNewOrders.of_eq h)

theorem OrdersPlaced.ref {r : OrderRef}
    (ho : s.orderAt r.property r.price r.pos = some r.order) : InBook r.property r.price r.pos r.order :=
  hb _ _ _ _ ho

theorem OrdersPlaced.reservedBy_nonneg (a : Address) (q : PropertyId) :
    0 ≤ reservedBy s.metadex a q := by
  unfold reservedBy sumBy
  refine sumEntries_nonneg fun e he => sumEntries_nonneg fun level hlevel => ?_
  unfold reservedIn sumBy
  refine sumEntries_nonneg fun x hx => ?_
  have hat : s.orderAt e.1 level.1 x.1 = some x.2 := by
    unfold State.orderAt State.level
    rw [mem_entries_iff.mp he, Option.getD_some, mem_entries_iff.mp hlevel,
      Option.getD_some, mem_entries_iff.mp hx]
  have hopen := (hb _ _ _ _ hat).remaining
  unfold orderWeight
  split_ifs
  · exact hopen.le
  · exact le_rfl

theorem OrdersPlaced.eraseOrder (p : PropertyId) (price : ℚ) (pos : Position) :
    OrdersPlaced (s.eraseOrder p price pos) :=
  hb.of_noNewOrders (NoNewOrders.eraseOrder s p price pos)

end

theorem reserve_of_order (hb : BookInv s) {price : ℚ} {pos : Position} {o : CMPMetaDEx}
    (ho : s.orderAt p price pos = some o) :
    o.amountRemaining ≤ getTokenBalance s o.addr o.property .metadexReserve := by
  have herase := reservedBy_eraseOrder s p price pos o o.addr o.property ho
  have hweight : orderWeight o.addr o.property o = o.amountRemaining := if_pos ⟨rfl, rfl⟩
  have hrest := (hb.placed.eraseOrder p price pos).reservedBy_nonneg o.addr o.property
  rw [hweight] at herase
  rw [hb.reserved]
  omega

/-- A balance and a reserve are parts of what is held, be they of one address or of two. -/
theorem balance_add_reserve_le_held (hs : Solvent s) (a b : Address) (p : PropertyId) :
    getTokenBalance s a p .balance + getTokenBalance s b p .metadexReserve ≤ held s.tally p := by
  -- an address owns no less than its balance and reserve, and all others no less than nothing
  have hentry : ∀ c t, s.tally.find? c = some t → 0 ≤ CMPTally.getMoney t p .balance ∧
      0 ≤ CMPTally.getMoney t p .metadexReserve ∧
      CMPTally.getMoney t p .balance + CMPTally.getMoney t p .metadexReserve ≤ CMPTally.owned t p := by
    intro c t hc
    have hbucket : ∀ tt, tt ≠ TallyType.pending → 0 ≤ CMPTally.getMoney t p tt := fun tt htt => by
      have := hs.nonneg c p tt htt
      rwa [getTokenBalance, hc] at this
    have hbalance := hbucket .balance (by decide)
    have hsell := hbucket .sellofferReserve (by decide)
    have haccept := hbucket .acceptReserve (by decide)
    have hreserve := hbucket .metadexReserve (by decide)
    simp only [CMPTally.getMoney, BalanceRecord.get] at hbalance hsell haccept hreserve ⊢
    simp only [CMPTally.owned, BalanceRecord.total]
    omega
  have hrest : ∀ m : TallyMap, (∀ c t, m.find? c = some t → s.tally.find? c = some t) → 0 ≤ held m p := by
    intro m hm
    unfold held sumBy
    refine sumEntries_nonneg fun e he => ?_
    have := hentry e.1 e.2 (hm _ _ (mem_entries_iff.mp he))
    omega
  have hweight : ∀ (m : TallyMap) c, m.find? c = s.tally.find? c →
      getTokenBalance s c p .balance + getTokenBalance s c p .metadexReserve ≤
        weightAt (fun (_ : Address) t => CMPTally.owned t p) c (m.find? c) ∧
      0 ≤ getTokenBalance s c p .balance ∧ 0 ≤ getTokenBalance s c p .metadexReserve := by
    intro m c heq
    rw [heq]
    unfold getTokenBalance
    cases hc : s.tally.find? c with
    | none => exact ⟨le_rfl, le_rfl, le_rfl⟩
    | some t =>
      obtain ⟨h1, h2, h3⟩ := hentry c t hc
      exact ⟨h3, h1, h2⟩
  have herase : ∀ c (m : TallyMap), (∀ d t, m.find? d = some t → s.tally.find? d = some t) →
      ∀ d t, (m.erase c).find? d = some t → s.tally.find? d = some t := by
    intro c m hm d t hd
    rw [find?_erase] at hd
    split_ifs at hd
    exact hm d t hd
  have ha := hweight s.tally a rfl
  have hsuma := sumBy_erase s.tally (fun _ t => CMPTally.owned t p) a
  have hla := hrest (s.tally.erase a) (herase a s.tally fun _ _ => id)
  unfold held at hla ⊢
  by_cases hab : b = a
  · subst hab
    omega
  · have hb := hweight (s.tally.erase a) b (by rw [find?_erase, if_neg hab])
    have hsumb := sumBy_erase (s.tally.erase a) (fun _ t => CMPTally.owned t p) b
    have hlb := hrest ((s.tally.erase a).erase b) (herase b _ (herase a s.tally fun _ _ => id))
    unfold held at hlb
    omega

/-! ### Matching -/

/-- A new order that can be matched: it has something left, which fits 64 bits. -/
def Matchable (new : CMPMetaDEx) : Prop := 0 ≤ new.amountRemaining ∧ new.amountRemaining ≤ i64Max

theorem executeTrade_orderAt {r : OrderRef} {got paid : Int} (hgot : 0 ≤ got)
    (h : executeTrade new r got paid s = some (new', s')) (p : PropertyId) (price : ℚ) (pos : Position) :
    s'.orderAt p price pos = if (p, price, pos) = r.place then
        if 0 < r.order.amountRemaining - got then
          some { r.order with amountRemaining := r.order.amountRemaining - got } else none
      else s.orderAt p price pos := by
  obtain ⟨s₅, hbook, rfl⟩ := executeTrade_replace hgot h
  rw [orderAt_replaceOrder]
  split_ifs
  · rfl
  · rfl
  · unfold State.orderAt State.level
    rw [hbook]

section
variable (hb : OrdersPlaced s) (hnew : Matchable new)
include hb hnew

/-- A round leaves all orders in place, and the new order with no more than before. -/
theorem tradeOrder_placed {r : OrderRef}
    (ho : s.orderAt r.property r.price r.pos = some r.order)
    (h : tradeOrder new r s = some (new', s')) :
    OrdersPlaced s' ∧ 0 ≤ new'.amountRemaining ∧ new'.amountRemaining ≤ new.amountRemaining := by
  rcases tradeOrder_fill h with ⟨-, rfl, rfl⟩ | ⟨got, paid, hfill, -, hex⟩
  · exact ⟨hb, hnew.1, le_rfl⟩
  have hplace := hb.ref ho
  have hfair := fillOf_fair hnew.1 hnew.2 hplace.toOpenOrder hfill
  have hgot := hfair.got_pos
  obtain ⟨-, -, -, -, -, -, -, -, -, -, -, hnew'⟩ := executeTrade_cases hex
  refine ⟨fun p price pos o ho' => ?_, ?_, ?_⟩
  · rw [executeTrade_orderAt (by omega) hex] at ho'
    split_ifs at ho' with hpl hleft
    · cases ho'
      obtain ⟨rfl, rfl, rfl⟩ : p = r.property ∧ price = r.price ∧ pos = r.pos := by
        simpa [OrderRef.place] using hpl
      have hwithin := hplace.within
      exact ⟨⟨hleft, by dsimp only; omega, hplace.forsaleFits, hplace.desired⟩, hplace.property,
        hplace.unitPrice, hplace.place⟩
    · exact hb p price pos o ho'
  · have hpaid := hfair.paid_le
    rw [hnew']
    dsimp only
    omega
  · have hpaid := hfair.paid_pos
    rw [hnew']
    dsimp only
    omega

theorem tradeLoop_placed
    (hl : Listed s l) (h : tradeLoop l new s = some (new', s')) :
    OrdersPlaced s' ∧ 0 ≤ new'.amountRemaining ∧ new'.amountRemaining ≤ new.amountRemaining := by
  induction l generalizing new s with
  | nil =>
    cases h
    exact ⟨hb, hnew.1, le_rfl⟩
  | cons r rest ih =>
    rw [tradeLoop] at h
    split_ifs at h
    · exact ih hb hnew hl.tail h
    · simp only [Option.bind_eq_some_iff, Prod.exists] at h
      obtain ⟨new₁, s₁, h1, h⟩ := h
      obtain ⟨hb1, hpos, hle⟩ := tradeOrder_placed hb hnew hl.head h1
      have hl1 := (tradeOrder_step hl h1).2.1
      split_ifs at h
      · cases h
        exact ⟨hb1, hpos, hle⟩
      · obtain ⟨hb', hpos', hle'⟩ := ih hb1 ⟨hpos, hle.trans hnew.2⟩ hl1 h
        exact ⟨hb', hpos', hle'.trans hle⟩

theorem xTrade_placed
    (h : xTrade new s = some (new', s')) :
    OrdersPlaced s' ∧ 0 ≤ new'.amountRemaining ∧ new'.amountRemaining ≤ new.amountRemaining := by
  unfold xTrade at h
  cases hp : s.metadex.find? new.desiredProperty with
  | none =>
    rw [hp] at h
    cases h
    exact ⟨hb, hnew.1, le_rfl⟩
  | some prices =>
    rw [hp] at h
    exact tradeLoop_placed hb hnew (listed_pricesOrders hp) h

end

theorem metadexAdd_placed {sender : Address} {desired : PropertyId} {amount amountDesired : Int}
    {block idx : Nat} {txid : Hash} {rc : Int} (hb : OrdersPlaced s) (hamount : 0 < amount)
    (hfits : amount ≤ i64Max) (hdesired : 0 < amountDesired)
    (h : metadexAdd s sender p amount block desired amountDesired txid idx = some (rc, s')) :
    OrdersPlaced s' := by
  rcases metadexAdd_cases h with ⟨-, rfl⟩ | ⟨new, s₁, h1, h⟩
  · exact hb
  obtain ⟨hb1, -, hle⟩ := xTrade_placed hb ⟨hamount.le, hfits⟩ h1
  have hnew := (xTrade_step h1).2
  rcases h with ⟨-, rfl⟩ | ⟨-, rfl, -⟩ | ⟨-, -, hput⟩
  · exact hb1
  · exact hb1
  · have hmetadex := transferTally_metadex hput
    have hpos : 0 < new.amountRemaining := by
      by_contra hzero
      have hamounts := hput
      simp only [transferTally, do_eq_some] at hamounts
      obtain ⟨s₂, h2, h3⟩ := hamounts
      have hdebit := (assertTally_spec h2).amount_ne
      have hold := (xTrade_placed hb ⟨hamount.le, hfits⟩ h1).2.1
      omega
    refine OrdersPlaced.of_eq (s := s₁.putOrder new.property new.unitPrice (position block idx) new) ?_
      hmetadex
    intro q price pos o ho
    rw [State.orderAt_putOrder] at ho
    split_ifs at ho with hat
    · cases ho
      obtain ⟨rfl, rfl, rfl⟩ := hat
      refine ⟨⟨hpos, ?_, ?_, ?_⟩, rfl, rfl, ?_⟩
      · rw [hnew]
        exact hle
      · rw [hnew]
        exact hfits
      · rw [hnew]
        exact hdesired
      · rw [hnew]
    · exact hb1 q price pos o ho

/-! ### Cancelling -/

theorem cancelLoop_noNewOrders {sel : OrderRef → Bool} (h : cancelLoop sel l s = some s') :
    NoNewOrders s s' := by
  induction l generalizing s with
  | nil =>
    obtain rfl := Option.some.inj h
    exact NoNewOrders.refl s
  | cons r rest ih =>
    rw [cancelLoop] at h
    split_ifs at h
    · simp only [do_eq_some] at h
      obtain ⟨s₁, h1, h⟩ := h
      have herase := NoNewOrders.eraseOrder s₁ r.property r.price r.pos
      exact ((NoNewOrders.of_eq (transferTally_metadex h1)).trans herase).trans (ih h)
    · exact ih h

theorem cancelOrders_noNewOrders {sel : OrderRef → Bool} {nothing rc : Int}
    (h : cancelOrders s sel l nothing = some (rc, s')) : NoNewOrders s s' := by
  simp only [cancelOrders, do_eq_some, pure_eq_some, Prod.mk.injEq] at h
  obtain ⟨s₁, h1, -, rfl⟩ := h
  exact cancelLoop_noNewOrders h1

/-- The loop that closes the pairs without a reserved property, as far as it ends. -/
theorem shutdownAllpairLoop_eq (h : shutdownAllpairLoop l s = some s') :
    cancelLoop (fun _ => true) l s = some s' := by
  induction l generalizing s with
  | nil => exact h
  | cons r rest ih =>
    rw [shutdownAllpairLoop] at h
    split_ifs at h
    simp only [do_eq_some] at h
    obtain ⟨s₁, h1, h⟩ := h
    rw [cancelLoop, if_pos rfl]
    simp only [Option.bind_eq_bind, h1, Option.bind_some]
    exact ih h

theorem closeOrders_noNewOrders {featureId : Nat} (h : closeOrders s featureId = some s') :
    NoNewOrders s s' := by
  unfold closeOrders at h
  split_ifs at h
  · simp only [Option.map_eq_some_iff, Prod.exists, exists_eq_right] at h
    obtain ⟨rc, h⟩ := h
    exact cancelOrders_noNewOrders h
  · exact cancelLoop_noNewOrders (shutdownAllpairLoop_eq h)
  · cases h
    exact NoNewOrders.refl s

end

/-! ### Packets -/

section
variable {s s' : State} {tx : CMPTransaction} {env : TxEnv} {rc : Int}

theorem NoNewOrders.of_rejected (h : rc < 0 ∧ s' = s) : NoNewOrders s s' := NoNewOrders.of_eq (by rw [h.2])

theorem metadexCancelAtPrice_noNewOrders {sender : Address} {desired : PropertyId} {amount amountDesired : Int}
    (h : metadexCancelAtPrice s sender p amount desired amountDesired = some (rc, s')) : NoNewOrders s s' := by
  unfold metadexCancelAtPrice at h
  cases hp : s.metadex.find? p with
  | none =>
    rw [hp] at h
    exact NoNewOrders.of_rejected (rejected (by decide) h)
  | some prices =>
    rw [hp] at h
    exact cancelOrders_noNewOrders h

theorem metadexCancelAllForPair_noNewOrders {sender : Address} {desired : PropertyId}
    (h : metadexCancelAllForPair s sender p desired = some (rc, s')) : NoNewOrders s s' := by
  unfold metadexCancelAllForPair at h
  cases hp : s.metadex.find? p with
  | none =>
    rw [hp] at h
    exact NoNewOrders.of_rejected (rejected (by decide) h)
  | some prices =>
    rw [hp] at h
    exact cancelOrders_noNewOrders h

theorem logicMathMetaDExTrade_placed (hb : OrdersPlaced s) (h : logicMathMetaDExTrade s tx = some (rc, s')) :
    OrdersPlaced s' := by
  rcases reject_cases (by simp [allErrors, pairChecks, pairAmountChecks, pktErrorMetadex]) h with
    hr | ⟨hok, h⟩
  · exact hr.2 ▸ hb
  simp only [pairChecks, pairAmountChecks, List.cons_append, List.nil_append, List.forall_mem_cons] at hok
  obtain ⟨hamount, hamountMax, hamount64⟩ := isOutOfRange_eq_false hok.2.2.2.2.2.1
  obtain ⟨hdesired, -, hdesired64⟩ := isOutOfRange_eq_false hok.2.2.2.2.2.2.1
  refine metadexAdd_placed hb ?_ ?_ ?_ h
  · rw [hamount64]
    omega
  · rw [hamount64]
    unfold i64Max
    unfold maxInt8Bytes at hamountMax
    omega
  · rw [hdesired64]
    omega

theorem logicMathDeactivation_noNewOrders (h : logicMathDeactivation s tx = some (rc, s')) :
    NoNewOrders s s' := by
  rcases logicMathDeactivation_cases h with hr | ⟨-, s₁, hs, h2⟩
  · exact NoNewOrders.of_rejected hr
  · exact (NoNewOrders.of_eq (by rw [hs])).trans (closeOrders_noNewOrders h2)

/-- The handlers that may change the book. -/
def changesBook (txType : TxType) : Bool :=
  [TxType.metadexTrade, .metadexCancelPrice, .metadexCancelPair, .metadexCancelEcosystem,
    .deactivation].contains txType

theorem Settled.metadex_eq {minted : PropertyId → Int} (h : Settled s s' tx.block rc minted) :
    s'.metadex = s.metadex := by
  rcases h with ⟨-, rfl⟩ | ⟨-, he, -⟩
  · rfl
  · exact he.metadex

theorem metadex_eq_of_created {x : Int} (h : (rc < 0 ∧ s' = s) ∨ (rc = 0 ∧ Created s s' tx x)) :
    s'.metadex = s.metadex := by
  rcases h with ⟨-, rfl⟩ | ⟨-, hcr⟩
  · rfl
  · exact hcr.effect.metadex

theorem metadex_eq_of_exchanged (h : (rc < 0 ∧ s' = s) ∨ (rc = 0 ∧ Exchanged s s')) :
    s'.metadex = s.metadex := by
  rcases h with ⟨-, rfl⟩ | ⟨-, hx⟩
  · rfl
  · rw [hx.1.frame]

section
variable (hs : Solvent s) (hf : FeesUpTo s tx.block)
include hs hf

variable {txType : TxType}

theorem logicMath_metadex
    (hother : changesBook txType = false) (h : logicMath s tx env txType = some (rc, s')) :
    s'.metadex = s.metadex := by
  cases txType <;> simp only [logicMath] at h
  case metadexTrade => cases hother
  case metadexCancelPrice => cases hother
  case metadexCancelPair => cases hother
  case metadexCancelEcosystem => cases hother
  case deactivation => cases hother
  case simpleSend => exact (logicMathSimpleSend_settled hf h).1.metadex_eq
  case sendToOwners => exact (logicMathSendToOwners_settled hf h).metadex_eq
  case sendAll => exact (logicMathSendAll_settled hf h).metadex_eq
  case sendToMany => exact (logicMathSendToMany_settled hs hf h).metadex_eq
  case tradeOffer =>
    cases hu : updatesOffer s tx with
    | false => exact metadex_eq_of_exchanged (logicMathTradeOffer_exchanged hu h)
    | true =>
      rw [logicMathTradeOffer_updates hu] at h
      rw [(updateOffer_exchanged h).1.frame]
  case acceptOfferRPD => exact metadex_eq_of_exchanged (logicMathAcceptOfferRPD_exchanged h)
  case offerAcceptABet => rw [(rejected (by decide) h).2]
  case createPropertyFixed => exact metadex_eq_of_created (logicMathCreatePropertyFixed_created hf h)
  case createPropertyVariable => exact metadex_eq_of_created (logicMathCreatePropertyVariable_created hf h)
  case createPropertyManual => exact metadex_eq_of_created (logicMathCreatePropertyManaged_created hf h)
  case closeCrowdsale => exact (logicMathCloseCrowdsale_settled hf h).metadex_eq
  case grantPropertyTokens => exact (logicMathGrantTokens_settled hf h).metadex_eq
  case revokePropertyTokens => exact (logicMathRevokeTokens_settled hf h).1.metadex_eq
  case changeIssuerAddress => exact (logicMathChangeIssuer_settled hf h).metadex_eq
  case rapidsPayment => exact (logicMathRapidsPayment_settled hf h).1.metadex_eq
  case enableFreezing => exact (logicMathEnableFreezing_settled hf h).metadex_eq
  case disableFreezing => exact (logicMathDisableFreezing_settled hf h).metadex_eq
  case freezePropertyTokens => exact (logicMathFreezeTokens_settled hf h).metadex_eq
  case unfreezePropertyTokens => exact (logicMathUnfreezeTokens_settled hf h).metadex_eq
  case activation => exact (logicMathActivation_settled hf h).metadex_eq
  case alert => exact (logicMathAlert_settled hf h).metadex_eq

theorem logicMath_noNewOrders
    (hother : txType ≠ .metadexTrade) (h : logicMath s tx env txType = some (rc, s')) : NoNewOrders s s' := by
  cases hbook : changesBook txType with
  | false => exact NoNewOrders.of_eq (logicMath_metadex hs hf hbook h)
  | true =>
    have hmem : txType ∈ [TxType.metadexTrade, .metadexCancelPrice, .metadexCancelPair,
        .metadexCancelEcosystem, .deactivation] := by simpa [changesBook] using hbook
    simp only [List.mem_cons, List.not_mem_nil, or_false] at hmem
    rcases hmem with rfl | rfl | rfl | rfl | rfl <;> simp only [logicMath] at h
    · exact absurd rfl hother
    · rcases reject_cases (by simp [allErrors, pairChecks, pairAmountChecks, pktErrorMetadex]) h with
        hr | ⟨-, h⟩
      · exact NoNewOrders.of_rejected hr
      · exact metadexCancelAtPrice_noNewOrders h
    · rcases reject_cases (pairChecks_errors s tx _) h with hr | ⟨-, h⟩
      · exact NoNewOrders.of_rejected hr
      · exact metadexCancelAllForPair_noNewOrders h
    · rcases reject_cases (by simp [allErrors, pktErrorMetadex]) h with hr | ⟨-, h⟩
      · exact NoNewOrders.of_rejected hr
      · exact cancelOrders_noNewOrders h
    · exact logicMathDeactivation_noNewOrders h

theorem logicMath_placed (hb : OrdersPlaced s)
    (h : logicMath s tx env txType = some (rc, s')) : OrdersPlaced s' := by
  by_cases htrade : txType = .metadexTrade
  · rw [htrade] at h
    exact logicMathMetaDExTrade_placed hb h
  · exact hb.of_noNewOrders (logicMath_noNewOrders hs hf htrade h)

end

/-! ### Runs -/

theorem Effect.bookInv {block : Nat} {minted : PropertyId → Int} (h : Effect s s' block minted)
    (hi : BookInv s) : BookInv s' := by
  refine ⟨hi.placed.of_eq h.metadex, fun a p => ?_⟩
  rw [h.reserves a p _ (by decide), h.metadex]
  exact hi.reserved a p

theorem ExchangeStep.bookInv (h : ExchangeStep s s') (hi : BookInv s) : BookInv s' := by
  have hmetadex : s'.metadex = s.metadex := by rw [h.frame]
  refine ⟨hi.placed.of_eq hmetadex, fun a p => ?_⟩
  rw [h.metadexReserve a p, hmetadex]
  exact hi.reserved a p

theorem interpretPacket_bookInv (hs : Solvent s) (hf : FeesUpTo s tx.block) (hi : BookInv s)
    (h : interpretPacket s tx env = some (rc, s')) : BookInv s' := by
  refine ⟨?_, ?_⟩
  · rcases reject_cases (by simp [allErrors, pktError]) h with hr | ⟨-, h⟩
    · exact hr.2 ▸ hi.placed
    cases ht : TxType.ofId tx.type with
    | none =>
      rw [ht] at h
      exact (rejected (by decide) h).2 ▸ hi.placed
    | some txType =>
      rw [ht] at h
      exact logicMath_placed hs hf hi.placed h
  · cases interpretPacket_step hs hf h with
    | rejected _ => exact hi.reserved
    | settled he _ _ => exact (he.bookInv hi).reserved
    | created hcr _ _ => exact (hcr.effect.bookInv hi).reserved
    | exchanged hx _ _ => exact (hx.1.bookInv hi).reserved
    | traded he _ hst _ _ => exact hst.reserved (he.bookInv hi).reserved

end

theorem handle_bookInv {s s' : State} {e : Event} (hc : Core s e.block) (hi : BookInv s)
    (h : handle s e = some s') : BookInv s' := by
  rcases handle_cases hc h with ⟨s₁, minted, st, he⟩ | ⟨tx, env, rc, rfl, hp⟩
  · exact he.bookInv (st.bookInv hi)
  · exact interpretPacket_bookInv hc.solvent hc.feesUpTo hi hp

theorem initial_bookInv (cfg : Config) : BookInv (State.initial cfg) := by
  refine ⟨fun p price pos o ho => ?_, fun a p => rfl⟩
  simp [State.initial, State.orderAt, State.level] at ho

theorem run_bookInv {cfg : Config} {es : List Event} {n : Node}
    (h : run step (Node.initial cfg) es = some n) : NodeInv n ∧ BookInv n.state := by
  refine run_invariant (I := fun n => NodeInv n ∧ BookInv n.state) (fun n e n' hi hstep => ?_)
    ⟨initial_inv cfg, initial_bookInv cfg⟩ h
  obtain ⟨hnext, hh, -⟩ := step_eq_some.mp hstep
  exact ⟨step_inv hi.1 hstep, handle_bookInv (hi.1.core.mono (e.isNext_block hnext)) hi.2 hh⟩

/-! ### Price-time priority -/

/-- What decides whose turn it is: the unit price, then the position in the chain. -/
def CMPMetaDEx.turn (o : CMPMetaDEx) : ℚ ×ₗ Position := toLex (o.unitPrice, position o.block o.idx)

/-- The loops go through a price map by price and, at each price, by position. -/
theorem pricesOrders_sorted (p : PropertyId) (prices : MdPricesMap) :
    (MdPricesMap.orders p prices).Pairwise fun r r' =>
      (toLex (r.price, r.pos) : ℚ ×ₗ Position) < toLex (r'.price, r'.pos) := by
  unfold MdPricesMap.orders
  rw [List.pairwise_flatMap]
  refine ⟨fun level _ => ?_, prices.sorted.imp fun {l l'} hlt r hr r' hr' => ?_⟩
  · rw [List.pairwise_map]
    refine level.2.sorted.imp fun {o o'} hlt => ?_
    exact Prod.Lex.lt_iff.mpr (.inr ⟨rfl, hlt⟩)
  · simp only [List.mem_map, Prod.exists] at hr hr'
    obtain ⟨pos, o, -, rfl⟩ := hr
    obtain ⟨pos', o', -, rfl⟩ := hr'
    exact Prod.Lex.lt_iff.mpr (.inl hlt)

theorem xTradeFills_sorted {s : State} (hb : OrdersPlaced s) (new : CMPMetaDEx) :
    (xTradeFills new s).Pairwise fun f f' => f.ref.order.turn < f'.ref.order.turn := by
  unfold xTradeFills
  cases hp : s.metadex.find? new.desiredProperty with
  | none => exact List.Pairwise.nil
  | some prices =>
    have hl := listed_pricesOrders hp
    have hturn : ∀ r ∈ MdPricesMap.orders new.desiredProperty prices,
        r.order.turn = toLex (r.price, r.pos) := fun r hr => by
      have hplace := hb.ref (hl.found r hr)
      rw [CMPMetaDEx.turn, hplace.unitPrice, hplace.place]
    have hsorted : (MdPricesMap.orders new.desiredProperty prices).Pairwise fun r r' =>
        r.order.turn < r'.order.turn := by
      refine (pricesOrders_sorted new.desiredProperty prices).imp_of_mem fun {r r'} hr hr' hlt => ?_
      rw [hturn r hr, hturn r' hr']
      exact hlt
    have hfills := hsorted.sublist (tradeFills_sublist _ new s)
    rw [List.pairwise_map] at hfills
    exact hfills

/-- **The book, and price-time priority.** In every reachable book each order stands under
the property it sells and its unit price, with something left and no more than it offered,
and orders of one level differ in their positions. For every order that comes later than
all before it, `x_Trade` by iterator fills the resting orders in strictly increasing order
of unit price, block and index, and putting the rest into the book never fails. -/
theorem book_price_time_priority {cfg : Config} {es : List Event} {n : Node}
    (h : run step (Node.initial cfg) es = some n) :
    (∀ p price pos o, n.state.orderAt p price pos = some o →
      o.property = p ∧ o.unitPrice = price ∧ 0 < o.amountRemaining ∧ o.amountRemaining ≤ o.amountForsale) ∧
    (∀ p price pos pos' o o', n.state.orderAt p price pos = some o →
      n.state.orderAt p price pos' = some o' → o.block = o'.block → o.idx = o'.idx → pos = pos') ∧
    ∀ new : CMPMetaDEx, n.clock ≤ position new.block new.idx → ∀ out, xTradeWalk new n.state = some out →
      (metadexInsert out.state out.new).1 = true ∧
      out.fills.Pairwise fun f f' => f.ref.order.turn < f'.ref.order.turn := by
  obtain ⟨hi, hb⟩ := run_bookInv h
  refine ⟨fun p price pos o ho => ?_, fun p price pos pos' o o' ho ho' hblock hidx => ?_,
    fun new hnew out hout => ?_⟩
  · have hplace := hb.placed p price pos o ho
    exact ⟨hplace.property, hplace.unitPrice, hplace.remaining, hplace.within⟩
  · rw [← (hb.placed _ _ _ _ ho).place, ← (hb.placed _ _ _ _ ho').place, hblock, hidx]
  · rw [xTradeWalk_eq, Option.map_eq_some_iff] at hout
    obtain ⟨x, hx, rfl⟩ := hout
    refine ⟨?_, xTradeFills_sorted hb.placed new⟩
    have hpos : position x.1.block x.1.idx = position new.block new.idx := by rw [(xTrade_step hx).2]
    have hfree := xTrade_placeFree (fun p price pos ho => (hi.book p price pos ho).trans_le hnew) hx x.1.property
      x.1.unitPrice
    rw [← hpos] at hfree
    unfold metadexInsert
    rw [if_neg]
    unfold contains
    rw [State.find?_level, hfree]
    simp

/-! ### Two prices -/

def goldIssue : CMPTransaction :=
  { dexTx "alice" 50 1 with nValue := 1000, ecosystem := 1, propType := 1, name := "Gold", ticker := "GOLD" }

def silverIssue : CMPTransaction :=
  { dexTx "bob" 50 2 with nValue := 1000, ecosystem := 1, propType := 1, name := "Silver", ticker := "SILVER" }

/-- An order of the first block. -/
def orderTx (sender : Address) (idx : Nat) (p : PropertyId) (amount : Nat) (desired : PropertyId)
    (asked : Nat) : CMPTransaction :=
  { dexTx sender 25 idx with property := p, nNewValue := amount, desiredProperty := desired, desiredValue := asked }

/-- Alice sells gold for silver, first at a half and then at three tenths. -/
def bookRun : List Event :=
  [.blockBegin 1 1500000000 1, .packet goldIssue issuanceEnv, .packet silverIssue issuanceEnv,
    .packet (orderTx "alice" 3 3 100 4 50) issuanceEnv, .packet (orderTx "alice" 4 3 10 4 3) issuanceEnv]

/-- Bob pays up to a half. -/
def takingBid : CMPMetaDEx := ⟨"bob", 1, 4, 40, 3, 80, 5, 5, 40⟩

/-- The cheaper order is filled first, though it came later. -/
theorem book_of_bookRun :
    ∃ n out, run step (Node.initial exchangeCfg) bookRun = some n ∧ xTradeWalk takingBid n.state = some out ∧
      out.fills.map (fun f => (f.ref.order.idx, f.got, f.paid)) = [(4, 10, 3), (3, 74, 37)] ∧
      (metadexInsert out.state out.new).1 = true ∧
      out.fills.Pairwise fun f f' => f.ref.order.turn < f'.ref.order.turn := by
  have hrun : ((run step (Node.initial exchangeCfg) bookRun).bind fun n =>
      (xTradeWalk takingBid n.state).map fun out =>
        (decide (n.clock ≤ position 1 5), out.fills.map fun f => (f.ref.order.idx, f.got, f.paid))) =
      some (true, [(4, 10, 3), (3, 74, 37)]) := by decide +kernel
  obtain ⟨n, hn, hout⟩ := Option.bind_eq_some_iff.mp hrun
  obtain ⟨out, hout, hvals⟩ := Option.map_eq_some_iff.mp hout
  obtain ⟨hlater, hfills⟩ := Prod.mk.inj hvals
  obtain ⟨hinsert, hsorted⟩ :=
    (book_price_time_priority hn).2.2 takingBid (of_decide_eq_true hlater) out hout
  exact ⟨n, out, hn, hout, hfills, hinsert, hsorted⟩

end Rapids.Token
