import Rapids.Token.TradeReportSound

/-!
# Rapids.Token.TradeReportRun

**What a run reports of its orders.** A new order meets each order of the book at most once,
so none of its fills has been recorded before; and what is left of it enters the book as it
last was. All other events, and all trades that are not admitted, only let orders go. So
what a journal says of a state (`JournalInv`) holds along runs.

A completely filled order is not in the book any more. What `MetaDEx_getStatus` makes of it
depends on the amount that `getMatchingTrades` reports: one that lacks a fee is less than
what was for sale, and the order is taken for a cancelled one.
-/

namespace Rapids.Token

open Rapids.Lib OrdMap

/-! ### One order against the book -/

theorem tradingFee_bounds (s : State) (new old : CMPMetaDEx) {got : Int} (hgot : 0 ≤ got) :
    0 ≤ tradingFee s new old got ∧ tradingFee s new old got ≤ got := by
  unfold tradingFee
  split_ifs
  · rw [Int.tdiv_eq_ediv_of_nonneg hgot]
    omega
  · omega

section
variable {j : Journal} {s s' : State} {new new' : CMPMetaDEx} {r : OrderRef} {l l' rest : List OrderRef}
variable {got paid : Int}

/-- **What a fill credits to its orders, their owners get**: once the fee is in the cache, the
balances change by what is paid, and by what is got less the fee. -/
theorem tradeOrder_credits {t : Settlement} (h : tradeOrder new r s = some (new', s'))
    (ht : t ∈ roundSettlement new r s) :
    ∃ s₁, chargeFee s new r.order t.fill.got = some s₁ ∧ ∀ a q,
      getTokenBalance s' a q .balance = getTokenBalance s₁ a q .balance -
        (if a = new.addr ∧ q = new.property then t.fill.paid else 0) +
        (if a = r.order.addr ∧ q = r.order.desiredProperty then t.fill.paid else 0) +
        if a = new.addr ∧ q = new.desiredProperty then t.fill.got - t.fee else 0 := by
  obtain ⟨f, hf, rfl⟩ := List.mem_map.mp ht
  obtain ⟨-, -, hfill⟩ := mem_roundFill.mp hf
  rcases tradeOrder_fill h with ⟨hnone, -⟩ | ⟨got, paid, hfill', -, hex⟩
  · rw [hfill] at hnone
    cases hnone
  obtain ⟨rfl, rfl⟩ := Prod.mk.inj (Option.some.inj (hfill.symm.trans hfill'))
  obtain ⟨s₁, s₂, s₃, s₄, s₅, h1, h2, h3, h4, h5, rfl, -⟩ := executeTrade_cases hex
  refine ⟨s₁, h1, fun a q => ?_⟩
  have hsame : getTokenBalance (replaceOrder s₅ r (r.order.amountRemaining - f.got)) a q .balance =
      getTokenBalance s₅ a q .balance := by
    rw [replaceOrder_frame]
    rfl
  rw [hsame, (assertTally_spec h5).balance, (assertTally_spec h4).balance, (assertTally_spec h3).balance,
    (assertTally_spec h2).balance]
  simp only [reduceCtorEq, and_false, and_true, if_false]
  split_ifs <;> omega

theorem JournalInv.place_eq (h : JournalInv j s) (hb : OrdersPlaced s) {p p' : PropertyId} {price price' : ℚ}
    {pos pos' : Position} {o o' : CMPMetaDEx} (ho : s.orderAt p price pos = some o)
    (ho' : s.orderAt p' price' pos' = some o') (htxid : o.txid = o'.txid) :
    (p, price, pos) = (p', price', pos') := by
  have hfound := h.book _ _ _ _ ho
  rw [htxid, h.book _ _ _ _ ho'] at hfound
  cases hfound
  have hplace := hb _ _ _ _ ho
  have hplace' := hb _ _ _ _ ho'
  rw [← hplace.property, ← hplace.unitPrice, ← hplace.place, ← hplace'.property, ← hplace'.unitPrice,
    ← hplace'.place]

/-- A new order on its way through orders of the book, with the journal so far. -/
structure Filling (j : Journal) (s : State) (new : CMPMetaDEx) (l : List OrderRef) : Prop where
  journal : JournalInv j s
  placed : OrdersPlaced s
  listed : Listed s l
  current : j.orders.find? new.txid = some new
  /-- It is not in the book itself. -/
  apart : ∀ p price pos o, s.orderAt p price pos = some o → o.txid ≠ new.txid
  /-- It has met none of the orders to come. -/
  unmet : ∀ r ∈ l, j.trades.find? ⟨r.order.txid, some new.txid⟩ = none
  /-- All other orders are of listed transactions. -/
  valid : ∀ x, j.orders.contains x = true → x = new.txid ∨ j.txs.find? x = some true

namespace Filling

theorem of_subset (h : Filling j s new l) (hl : Listed s l') (hsub : ∀ r ∈ l', r ∈ l) : Filling j s new l' :=
  { h with
    listed := hl
    unmet := fun r hr => h.unmet r (hsub r hr) }

theorem tail (h : Filling j s new (r :: rest)) : Filling j s new rest :=
  h.of_subset h.listed.tail fun _ hr => .tail _ hr

theorem done (h : Filling j s new l) : Filling j s new [] :=
  h.of_subset ⟨fun _ hr => absurd hr List.not_mem_nil, List.Pairwise.nil⟩ fun _ hr =>
    absurd hr List.not_mem_nil

theorem incoming (h : Filling j s new l) : Listable new := (h.journal.orders _ _ h.current).2

theorem resting (h : Filling j s new (r :: rest)) : j.orders.find? r.order.txid = some r.order :=
  h.journal.book _ _ _ _ h.listed.head

theorem matchable (h : Filling j s new l) : Matchable new :=
  ⟨h.incoming.remaining, h.incoming.within.trans h.incoming.fits⟩

theorem sound (h : Filling j s new (r :: rest)) (hfill : fillOf new r = some (got, paid))
    (hasserts : tradeAsserts new r.order) :
    Settlement.Sound ⟨⟨new, r, got, paid⟩, tradingFee s new r.order got⟩ := by
  have hfair := fillOf_fair h.matchable.1 h.matchable.2 (h.placed.ref h.listed.head).toOpenOrder hfill
  have hgot : 0 < got := hfair.got_pos
  have hpaid : 0 < paid := hfair.paid_pos
  exact ⟨h.incoming, (h.journal.orders _ _ h.resting).2, Ne.symm (h.apart _ _ _ _ h.listed.head),
    (fillOf_eq_some hfill).1, hasserts.2.2.2.1, ⟨hgot, hfair.got_le⟩, ⟨hpaid, hfair.paid_le⟩,
    tradingFee_bounds s new r.order hgot.le⟩

/-- **A fill** takes the new order past a resting one. -/
theorem settle {t : Settlement} (h : Filling j s t.fill.new (t.fill.ref :: rest)) (ht : t.Sound)
    (hplaced : OrdersPlaced s') (hlisted : Listed s' rest)
    (hbook : ∀ p price pos o, s'.orderAt p price pos = some o → o = t.resting ∨
      (s.orderAt p price pos = some o ∧ (p, price, pos) ≠ t.fill.ref.place)) :
    Filling (j.settle t) s' t.incoming rest := by
  have hunmet := h.unmet _ (.head _)
  refine ⟨?_, hplaced, hlisted, ?_, fun p price pos o ho => ?_, fun r' hr' => ?_, fun x hx => ?_⟩
  · refine h.journal.settle ht h.current h.resting hunmet fun p price pos o ho => ?_
    rcases hbook p price pos o ho with hresting | ⟨hold, hplace⟩
    · exact .inl hresting
    · exact .inr ⟨hold, h.apart _ _ _ _ hold, fun htxid =>
        hplace (h.journal.place_eq h.placed hold h.listed.head htxid)⟩
  · exact (JournalInv.orders_settle j t _).trans (if_pos rfl)
  · rcases hbook p price pos o ho with hresting | ⟨hold, -⟩
    · rw [hresting]
      exact Ne.symm ht.apart
    · exact h.apart _ _ _ _ hold
  · -- an order that comes later is another one
    have hne : r'.order.txid ≠ t.fill.ref.order.txid := fun htxid =>
      (List.pairwise_cons.mp h.listed.distinct).1 r' hr'
        (h.journal.place_eq h.placed (h.listed.tail.found r' hr') h.listed.head htxid).symm
    have hkey : (⟨r'.order.txid, some t.fill.new.txid⟩ : TradeKey) ≠ (TradeRecord.matched t.record).key :=
      fun heq => hne (congrArg TradeKey.txid1 heq)
    exact (find?_insert_ne _ _ hkey).trans (h.tail.unmet r' hr')
  · obtain ⟨o, ho⟩ := Option.isSome_iff_exists.mp hx
    rw [JournalInv.orders_settle] at ho
    split_ifs at ho with hnew hold
    · exact .inl hnew
    · rw [hold]
      exact h.valid _ (Option.isSome_iff_exists.mpr ⟨_, h.resting⟩)
    · exact h.valid x (Option.isSome_iff_exists.mpr ⟨o, ho⟩)

/-- **One round** records its fill, if there is one. -/
theorem round (h : Filling j s new (r :: rest)) (hround : tradeOrder new r s = some (new', s')) :
    Filling ((roundSettlement new r s).foldl Journal.settle j) s' new' rest := by
  rcases tradeOrder_fill hround with ⟨hnone, rfl, rfl⟩ | ⟨got, paid, hfill, hasserts, hex⟩
  · rw [roundSettlement, roundFill, hnone]
    exact h.tail
  have hsound := h.sound hfill hasserts
  obtain ⟨-, -, -, -, -, -, -, -, -, -, -, hnew'⟩ := executeTrade_cases hex
  rw [roundSettlement, roundFill, hfill, hnew']
  refine settle h hsound
    (tradeOrder_placed h.placed h.matchable h.listed.head hround).1 (tradeOrder_step h.listed hround).2.1
    fun p price pos o ho => ?_
  rw [executeTrade_orderAt hsound.got.1.le hex] at ho
  split_ifs at ho with hplace
  · exact .inl (Option.some.inj ho).symm
  · exact .inr ⟨ho, hplace⟩

/-- **The loops** record all fills. -/
theorem loop (h : Filling j s new l) (hloop : tradeLoop l new s = some (new', s')) :
    Filling ((settlements l new s).foldl Journal.settle j) s' new' [] := by
  induction l generalizing j s new with
  | nil =>
    cases hloop
    exact h
  | cons r rest ih =>
    rw [tradeLoop] at hloop
    rw [settlements]
    split_ifs at hloop ⊢ with hskip
    · exact ih h.tail hloop
    · obtain ⟨out, hround, hloop⟩ := Option.bind_eq_some_iff.mp hloop
      have hone := h.round hround
      rw [hround, Option.elim_some]
      split_ifs at hloop ⊢ with hfilled
      · cases hloop
        rw [List.append_nil]
        exact hone.done
      · rw [List.foldl_append]
        exact ih hone hloop

theorem xTrade (h : ∀ l, Listed s l → Filling j s new l) (htrade : Token.xTrade new s = some (new', s')) :
    Filling ((xTradeSettlements new s).foldl Journal.settle j) s' new' [] := by
  unfold Token.xTrade at htrade
  unfold xTradeSettlements
  cases hp : s.metadex.find? new.desiredProperty with
  | none =>
    rw [hp] at htrade
    cases htrade
    exact h [] ⟨fun _ hr => absurd hr List.not_mem_nil, List.Pairwise.nil⟩
  | some prices =>
    rw [hp] at htrade
    exact (h _ (listed_pricesOrders hp)).loop htrade

end Filling

/-! ### Packets -/

variable {tx : CMPTransaction} {env : TxEnv} {rc : Int}

theorem JournalInv.filling (h : JournalInv j s) (hb : OrdersPlaced s) (hfresh : j.orders.find? tx.txid = none)
    (hlist : Listable tx.order) (hvalid : ∀ x, j.orders.contains x = true → j.txs.find? x = some true)
    (hl : Listed s l) : Filling (j.place tx) s tx.order l := by
  refine ⟨h.place hfresh hlist, hb, hl, find?_insert_self _ _ _, fun p price pos o ho htxid => ?_,
    fun r _ => ?_, fun x hx => ?_⟩
  · have hfound := h.book p price pos o ho
    rw [htxid, show tx.order.txid = tx.txid from rfl, hfresh] at hfound
    cases hfound
  · have hkey : (⟨r.order.txid, some tx.order.txid⟩ : TradeKey) ≠ (TradeRecord.new tx.newTrade).key := by
      intro heq
      have hnone := congrArg TradeKey.txid2 heq
      cases hnone
    refine (find?_insert_ne _ _ hkey).trans ?_
    by_contra hmet
    have hknown := (h.keys _ (Option.isSome_iff_ne_none.mpr hmet)).2 _ rfl
    rw [show tx.order.txid = tx.txid from rfl, contains, hfresh] at hknown
    cases hknown
  · by_cases heq : x = tx.txid
    · exact .inl heq
    · right
      refine hvalid x ?_
      rw [contains, Journal.place, find?_insert_ne _ _ heq] at hx
      exact hx

/-- **An admitted trade** succeeds, and is recorded with all its fills. -/
theorem JournalInv.trade_admitted (h : JournalInv j s) (hb : OrdersPlaced s)
    (hbook : BookBefore s (position tx.block tx.txIdx)) (hfresh : j.orders.find? tx.txid = none)
    (hlist : Listable tx.order) (hvalid : ∀ x, j.orders.contains x = true → j.txs.find? x = some true)
    (hadmits : admitsTrade s tx = true) (hpacket : interpretPacket s tx env = some (rc, s')) :
    rc = 0 ∧ JournalInv (j.trade s tx) s' ∧
      ∀ x, (j.trade s tx).orders.contains x = true → x = tx.txid ∨ (j.trade s tx).txs.find? x = some true := by
  have hprice := (openOrder_of_admitted hadmits).1.unitPrice_pos
  rw [(admitsTrade_cases hadmits).2.2, metadexAdd_eq (not_le.mpr hprice)] at hpacket
  obtain ⟨⟨new, s₁⟩, htrade, hadd⟩ := Option.bind_eq_some_iff.mp hpacket
  have hnew := (xTrade_step htrade).2
  have htxid : new.txid = tx.txid := by rw [hnew]; rfl
  have hpos : position new.block new.idx = position tx.block tx.txIdx := by rw [hnew]; rfl
  have hfilling := Filling.xTrade (fun l hl => h.filling hb hfresh hlist hvalid hl) htrade
  rw [show j.trade s tx = _ from if_pos hadmits, ← htxid]
  have hfree : s₁.orderAt new.property new.unitPrice (position new.block new.idx) = none := by
    rw [hpos]
    exact xTrade_placeFree hbook htrade new.property new.unitPrice
  have hinsert : metadexInsert s₁ new =
      (true, s₁.putOrder new.property new.unitPrice (position new.block new.idx) new) := by
    unfold metadexInsert
    rw [if_neg]
    rw [contains, State.find?_level, hfree]
    simp
  split_ifs at hadd with hleft hput
  · -- what is left of it enters the book
    rw [hinsert, Option.map_eq_some_iff] at hadd
    obtain ⟨s₂, h2, hout⟩ := hadd
    obtain ⟨rfl, rfl⟩ := Prod.mk.inj hout
    refine ⟨rfl, hfilling.journal.of_book fun p price pos o ho => ?_, hfilling.valid⟩
    have hsame := NoNewOrders.of_eq (transferTally_metadex h2) p price pos o ho
    rw [State.orderAt_putOrder] at hsame
    split_ifs at hsame
    · cases hsame
      exact hfilling.current
    · exact hfilling.journal.book p price pos o hsame
  · rw [hinsert] at hput
    exact absurd rfl hput
  · cases hadd
    exact ⟨rfl, hfilling.journal, hfilling.valid⟩

theorem interpretPacket_noNewOrders (hs : Solvent s) (hf : FeesUpTo s tx.block)
    (hadmits : admitsTrade s tx = false) (h : interpretPacket s tx env = some (rc, s')) : NoNewOrders s s' := by
  rcases reject_cases (by simp [allErrors, pktError]) h with hr | ⟨hok, h⟩
  · exact NoNewOrders.of_rejected hr
  cases ht : TxType.ofId tx.type with
  | none =>
    rw [ht] at h
    exact NoNewOrders.of_rejected (rejected (by decide) h)
  | some txType =>
    rw [ht] at h
    by_cases htrade : txType = .metadexTrade
    · -- a trade that passes all checks is admitted
      subst htrade
      rcases reject_cases (by simp [allErrors, pairChecks, pairAmountChecks, pktErrorMetadex]) h with
        hr | ⟨hchecks, -⟩
      · exact NoNewOrders.of_rejected hr
      · exfalso
        have hyes : admitsTrade s tx = true := by
          simp only [admitsTrade, Bool.and_eq_true, Bool.not_eq_true', beq_iff_eq, List.all_eq_true]
          simp only [List.forall_mem_cons] at hok
          exact ⟨⟨⟨⟨hok.1, by simpa using hok.2.1⟩, hok.2.2.1⟩, ht⟩, hchecks⟩
        rw [hyes] at hadmits
        cases hadmits
    · exact logicMath_noNewOrders hs hf htrade h

theorem handle_noNewOrders {e : Event} (hc : Core s e.block)
    (hadmits : ∀ tx env, e = .packet tx env → admitsTrade s tx = false) (h : handle s e = some s') :
    NoNewOrders s s' := by
  rcases handle_cases hc h with ⟨s₁, minted, st, he⟩ | ⟨tx, env, rc, rfl, hp⟩
  · exact NoNewOrders.of_eq (he.metadex.trans (by rw [st.frame]))
  · exact interpretPacket_noNewOrders hc.solvent hc.feesUpTo (hadmits tx env rfl) hp

end

/-! ### Reports -/

section
variable {j : Journal} {s : State} {x : Hash} {o : CMPMetaDEx}

theorem soldIn_placed {e : TradeKey × List Char} (he : e.1.txid2 = none) (x : Hash) (p : PropertyId) :
    soldIn x p e = 0 ∧ receivedIn x p e = 0 := by
  unfold soldIn receivedIn entryMatch
  rw [he]
  simp

/-- What orders have been placed and what fills have been recorded adds up to the fills alone. -/
theorem sum_entries {placed : List (TradeKey × List Char)} {settled : List Settlement}
    {f : TradeKey × List Char → Int} (hplaced : ∀ e ∈ placed, f e = 0) :
    ((placed ++ settled.map Settlement.entry).map f).sum = (settled.map fun t => f t.entry).sum := by
  have hzero : (placed.map f).sum = 0 := by
    refine List.sum_eq_zero fun y hy => ?_
    obtain ⟨e, he, rfl⟩ := List.mem_map.mp hy
    exact hplaced e he
  rw [List.map_append, List.sum_append, hzero, zero_add, List.map_map]
  rfl

/-- **What is reported of an order**: all that it sold but for the fees of the fills in which it
was resting, and all that its owner was credited, as far as 64 bits hold it. -/
theorem JournalInv.report (h : JournalInv j s) (ho : j.orders.find? x = some o) :
    ∃ report, getMatchingTrades j.trades x o.property = some report ∧
      report.totalSold =
        o.amountForsale - o.amountRemaining - (j.settled.map fun t => t.restingFee x).sum ∧
      report.totalReceived = toI64 (j.settled.map fun t => t.credits x).sum := by
  obtain ⟨placed, hplaced, hperm⟩ := h.entries
  have hreadable : ∀ e ∈ placed ++ j.settled.map Settlement.entry, Readable e := by
    intro e he
    rcases List.mem_append.mp he with he | he
    · exact .inl (hplaced e he)
    · obtain ⟨t, ht, rfl⟩ := List.mem_map.mp he
      exact (h.sound t ht).readable
  obtain ⟨report, hreport, hsold, hreceived⟩ := getMatchingTrades_totals hperm hreadable x o.property
  have hentry : ∀ t ∈ j.settled, soldIn x o.property t.entry = t.sells x - t.restingFee x ∧
      receivedIn x o.property t.entry = t.credits x := by
    intro t ht
    have hside : ∀ side ∈ [t.fill.new, t.fill.ref.order], side.txid = x → side.property = o.property := by
      intro side hside hx
      obtain ⟨o', ho', hp⟩ := h.sides t ht side hside
      rw [hx, ho] at ho'
      rw [← hp, Option.some.inj ho']
    exact (h.sound t ht).totals (hside _ (.head _)) (hside _ (by simp))
  rw [sum_entries fun e he => (soldIn_placed (hplaced e he) x o.property).1] at hsold
  rw [sum_entries fun e he => (soldIn_placed (hplaced e he) x o.property).2,
    List.map_congr_left fun t ht => (hentry t ht).2] at hreceived
  refine ⟨report, hreport, ?_, hreceived⟩
  -- the sum is between nothing and what the order has sold, and needs no more than 64 bits
  have hsplit : (j.settled.map fun t => t.sells x).sum =
      (j.settled.map fun t => soldIn x o.property t.entry).sum +
        (j.settled.map fun t => t.restingFee x).sum := by
    rw [← List.sum_map_add, List.map_congr_left fun t ht => ?_]
    rw [(hentry t ht).1]
    omega
  have hnonneg : 0 ≤ (j.settled.map fun t => soldIn x o.property t.entry).sum := by
    refine List.sum_nonneg fun y hy => ?_
    obtain ⟨t, ht, rfl⟩ := List.mem_map.mp hy
    have hfee := (@Settlement.Sound.restingFee_bounds t x (h.sound t ht)).2
    rw [(hentry t ht).1]
    omega
  have hfees : 0 ≤ (j.settled.map fun t => t.restingFee x).sum := by
    refine List.sum_nonneg fun y hy => ?_
    obtain ⟨t, ht, rfl⟩ := List.mem_map.mp hy
    exact (h.sound t ht).restingFee_bounds.1
  obtain ⟨-, hlist⟩ := h.orders x o ho
  have hremaining := hlist.remaining
  have hforsale := hlist.fits
  have hmin : i64Min ≤ 0 := by decide
  rw [h.sold x o ho] at hsplit
  rw [hsold, toI64_of_inI64 ⟨by omega, by omega⟩]
  omega

/-! ### Runs -/

theorem recordTX_other {txid : Hash} (rc : Int) (hx : x ≠ txid) :
    (j.recordTX txid rc).txs.find? x = j.txs.find? x := by
  unfold Journal.recordTX
  split_ifs
  · rfl
  · exact find?_insert_ne _ _ hx

theorem recordTX_self {txid : Hash} : (j.recordTX txid 0).txs.find? txid = some true := by
  have hrc : ¬ (0 : Int) = pktError - 2 := by decide
  rw [Journal.recordTX, if_neg hrc]
  exact find?_insert_self _ _ _

/-- What holds of every recorder. -/
structure RecorderInv (r : Recorder) : Prop where
  node : NodeInv r.node
  book : BookInv r.node.state
  journal : JournalInv r.journal r.node.state
  /-- All orders are of listed transactions, which are valid. -/
  valid : ∀ x, r.journal.orders.contains x = true → r.journal.txs.find? x = some true

theorem RecorderInv.packet {r : Recorder} (hi : RecorderInv r) {tx : CMPTransaction} {env : TxEnv} {rc : Int}
    {s' : State} (hlistable : isListable r.journal (.packet tx env) = true)
    (hnext : (Event.packet tx env).isNext r.node.clock = true)
    (h : interpretPacket r.node.state tx env = some (rc, s')) :
    JournalInv ((r.journal.trade r.node.state tx).recordTX tx.txid rc) s' ∧
      ∀ x, ((r.journal.trade r.node.state tx).recordTX tx.txid rc).orders.contains x = true →
        ((r.journal.trade r.node.state tx).recordTX tx.txid rc).txs.find? x = some true := by
  have hcore := hi.node.core.mono (Event.isNext_block hnext)
  simp only [isListable, Bool.and_eq_true, Bool.not_eq_true', decide_eq_true_eq] at hlistable
  obtain ⟨⟨⟨hfresh, hsender⟩, hproperty⟩, hdesired⟩ := hlistable
  have hunknown : ∀ x, r.journal.orders.contains x = true → x ≠ tx.txid := by
    intro x hx heq
    have hvalid := hi.valid x hx
    rw [heq] at hvalid
    rw [contains, hvalid] at hfresh
    cases hfresh
  have horders : ∀ (j : Journal) x, (j.recordTX tx.txid rc).orders.contains x = j.orders.contains x := by
    intro j x
    unfold Journal.recordTX
    split_ifs
    · rfl
    · rfl
  cases hadmits : admitsTrade r.node.state tx with
  | true =>
    obtain ⟨hopen, hpair, -⟩ := openOrder_of_admitted hadmits
    have hlist : Listable tx.order :=
      ⟨hopen.forsale, hsender, hproperty, hdesired, hpair, hopen.remaining.le, hopen.within, hopen.forsaleFits⟩
    have hnone : r.journal.orders.find? tx.txid = none := by
      by_contra hsome
      exact hunknown tx.txid (Option.isSome_iff_ne_none.mpr hsome) rfl
    obtain ⟨rfl, hj, hvalid⟩ := hi.journal.trade_admitted hi.book.placed
      (fun p price pos ho => (hi.node.book p price pos ho).trans_le (of_decide_eq_true hnext)) hnone hlist
      hi.valid hadmits h
    refine ⟨hj.recordTX tx.txid 0, fun x hx => ?_⟩
    rw [horders] at hx
    by_cases heq : x = tx.txid
    · rw [heq, recordTX_self]
    · rw [recordTX_other 0 heq]
      exact (hvalid x hx).resolve_left heq
  | false =>
    have hsame : r.journal.trade r.node.state tx = r.journal := by
      unfold Journal.trade
      rw [hadmits]
      exact if_neg Bool.false_ne_true
    rw [hsame]
    have hnone := interpretPacket_noNewOrders hcore.solvent hcore.feesUpTo hadmits h
    refine ⟨(hi.journal.of_noNewOrders hnone).recordTX tx.txid rc, fun x hx => ?_⟩
    rw [horders] at hx
    rw [recordTX_other rc (hunknown x hx)]
    exact hi.valid x hx

/-- **One call** keeps the journal. -/
theorem chainStep_inv {r r' : Recorder} {e : Event} (hi : RecorderInv r) (h : chainStep r e = some r') :
    RecorderInv r' := by
  obtain ⟨hlistable, hrecord⟩ := guarded_eq_some.mp h
  obtain ⟨n, hstep, rfl⟩ := Option.map_eq_some_iff.mp hrecord
  obtain ⟨hnext, hhandle, -⟩ := step_eq_some.mp hstep
  have hcore := hi.node.core.mono (e.isNext_block hnext)
  have hjournal : JournalInv (r.journal.after r.node.state e) n.state ∧
      ∀ x, (r.journal.after r.node.state e).orders.contains x = true →
        (r.journal.after r.node.state e).txs.find? x = some true := by
    by_cases hpacket : ∃ tx env, e = .packet tx env
    · obtain ⟨tx, env, rfl⟩ := hpacket
      obtain ⟨out, hout, heq⟩ := Option.map_eq_some_iff.mp hhandle
      rw [Journal.after, hout, Option.elim_some, ← heq]
      exact hi.packet hlistable hnext hout
    · have hafter : r.journal.after r.node.state e = r.journal := by
        cases e with
        | packet tx env => exact absurd ⟨tx, env, rfl⟩ hpacket
        | _ => rfl
      rw [hafter]
      refine ⟨hi.journal.of_noNewOrders (handle_noNewOrders hcore ?_ hhandle), hi.valid⟩
      exact fun tx env heq => absurd ⟨tx, env, heq⟩ hpacket
  exact ⟨step_inv hi.node hstep, handle_bookInv hcore hi.book hhandle, hjournal.1, hjournal.2⟩

theorem initial_journalInv (cfg : Config) : JournalInv {} (State.initial cfg) := by
  have hnone : ∀ x o, ({} : Journal).orders.find? x = some o → False := fun x o ho => by cases ho
  refine ⟨fun p price pos o ho => ?_, fun x o ho => (hnone x o ho).elim, fun x o ho => (hnone x o ho).elim,
    fun t ht => absurd ht List.not_mem_nil, fun t ht => absurd ht List.not_mem_nil,
    ⟨[], fun e he => absurd he List.not_mem_nil, List.Perm.refl _⟩, fun k hk => absurd hk Bool.false_ne_true⟩
  simp [State.initial, State.orderAt, State.level] at ho

theorem run_recorderInv {cfg : Config} {es : List Event} {r : Recorder}
    (h : run chainStep (Recorder.initial cfg) es = some r) : RecorderInv r :=
  run_invariant (fun _ _ _ => chainStep_inv)
    ⟨initial_inv cfg, initial_bookInv cfg, initial_journalInv cfg, fun x hx => by cases hx⟩ h

/-! ### Filled orders -/

/-- What is expected of the report about an order: what it has sold, what its owner was
credited, and that it is filled if nothing is left of it. -/
structure FillsAddUp (r : Recorder) (x : Hash) (o : CMPMetaDEx) : Prop where
  totals : ∃ report, getMatchingTrades r.journal.trades x o.property = some report ∧
    report.totalSold = o.amountForsale - o.amountRemaining ∧
    report.totalReceived = (r.journal.settled.map fun t => t.credits x).sum
  status : o.amountRemaining = 0 →
    metadexGetStatus r.node.state r.journal.trades r.journal.txs x o.property o.amountForsale (-1) = some .filled

theorem RecorderInv.metadexIsOpen_filled {r : Recorder} (hi : RecorderInv r)
    (ho : r.journal.orders.find? x = some o) (hfilled : o.amountRemaining = 0) (p : PropertyId) :
    metadexIsOpen r.node.state x p = false := by
  by_contra hopen
  rw [Bool.not_eq_false, metadexIsOpen, List.any_eq_true] at hopen
  obtain ⟨e, he, hmatch⟩ := hopen
  rw [Bool.and_eq_true, List.any_eq_true] at hmatch
  obtain ⟨-, ref, href, htxid⟩ := hmatch
  have hat := (listed_pricesOrders (mem_entries_iff.mp he)).found ref href
  have hknown := hi.journal.book _ _ _ _ hat
  rw [beq_iff_eq.mp htxid, ho] at hknown
  have hremaining := (hi.book.placed.ref hat).remaining
  rw [← Option.some.inj hknown] at hremaining
  omega

theorem RecorderInv.metadexGetStatus_filled {r : Recorder} (hi : RecorderInv r)
    (ho : r.journal.orders.find? x = some o) (hfilled : o.amountRemaining = 0) {report : MatchingTrades}
    (hreport : getMatchingTrades r.journal.trades x o.property = some report)
    (hsold : report.totalSold = o.amountForsale) :
    metadexGetStatus r.node.state r.journal.trades r.journal.txs x o.property o.amountForsale (-1) =
      some .filled := by
  have hvalid : getValidMPTX r.journal.txs x = true := by
    rw [getValidMPTX, hi.valid x (Option.isSome_iff_exists.mpr ⟨o, ho⟩)]
    rfl
  have hforsale := (hi.journal.orders x o ho).2.sells
  unfold metadexGetStatus
  rw [if_pos rfl, hreport, Option.map_some, Option.map_some, hsold, hvalid, hi.metadexIsOpen_filled ho hfilled]
  unfold tradeStatus
  rw [if_neg (by decide), if_neg (by decide), if_neg hforsale.ne', if_neg (lt_irrefl _)]

/-- **Recorded fills add up, but for fees.** In every run of the chain, the orders of the book are
as the journal has them; and what is reported of an order is what it sold and what its owner was
credited, and it is filled if it is, if and only if no fill in which it was resting was charged a
fee, and all that its owner was credited fits into 64 bits. -/
theorem recorded_fills_add_up_iff {cfg : Config} {es : List Event} {r : Recorder}
    (h : run chainStep (Recorder.initial cfg) es = some r) :
    (∀ p price pos o, r.node.state.orderAt p price pos = some o → r.journal.orders.find? o.txid = some o) ∧
    ∀ x o, r.journal.orders.find? x = some o →
      (FillsAddUp r x o ↔ (∀ t ∈ r.journal.settled, t.fill.ref.order.txid = x → t.fee = 0) ∧
        (r.journal.settled.map fun t => t.credits x).sum ≤ i64Max) := by
  have hi := run_recorderInv h
  refine ⟨hi.journal.book, fun x o ho => ?_⟩
  obtain ⟨report, hreport, hsold, hreceived⟩ := hi.journal.report ho
  constructor
  · intro hadds
    obtain ⟨report', hreport', hsold', hreceived'⟩ := hadds.totals
    obtain rfl := Option.some.inj (hreport.symm.trans hreport')
    refine ⟨fun t ht hx => ?_, ?_⟩
    · -- no fee is negative, so each of them is nothing
      have hzero : (r.journal.settled.map fun t => t.restingFee x).sum = 0 := by omega
      have hnonneg : ∀ y ∈ r.journal.settled.map fun t => t.restingFee x, 0 ≤ y := by
        intro y hy
        obtain ⟨t, ht, rfl⟩ := List.mem_map.mp hy
        exact (hi.journal.sound t ht).restingFee_bounds.1
      have hfee := List.all_zero_of_le_zero_le_of_sum_eq_zero hnonneg hzero (List.mem_map_of_mem ht)
      rw [Settlement.restingFee, if_pos hx] at hfee
      exact hfee
    · rw [← hreceived', hreceived]
      exact (inI64_toI64 _).2
  · intro hcond
    obtain ⟨hfees, hfits⟩ := hcond
    have hzero : (r.journal.settled.map fun t => t.restingFee x).sum = 0 := by
      refine List.sum_eq_zero fun y hy => ?_
      obtain ⟨t, ht, rfl⟩ := List.mem_map.mp hy
      unfold Settlement.restingFee
      split_ifs with hx
      · exact hfees t ht hx
      · rfl
    have hcredits : 0 ≤ (r.journal.settled.map fun t => t.credits x).sum := by
      refine List.sum_nonneg fun y hy => ?_
      obtain ⟨t, ht, rfl⟩ := List.mem_map.mp hy
      exact (hi.journal.sound t ht).credits_nonneg
    have hmin : i64Min ≤ 0 := by decide
    rw [hzero, sub_zero] at hsold
    rw [toI64_of_inI64 ⟨by omega, hfits⟩] at hreceived
    refine ⟨⟨report, hreport, hsold, hreceived⟩, fun hfilled => ?_⟩
    exact hi.metadexGetStatus_filled ho hfilled hreport (by omega)

end

/-! ### Two markets -/

/-- Bob takes both orders of Alice. -/
def takenRun : List Event := bookRun ++ [.packet (orderTx "bob" 5 4 40 3 80) issuanceEnv]

/-- No fee is taken, and the second order is filled. -/
theorem recorded_fills_add_up_takenRun :
    ∃ r o, run chainStep (Recorder.initial exchangeCfg) takenRun = some r ∧
      r.journal.orders.find? 4 = some o ∧ o.amountRemaining = 0 ∧ FillsAddUp r 4 o := by
  have hrun : ((run chainStep (Recorder.initial exchangeCfg) takenRun).bind fun r =>
      (r.journal.orders.find? 4).map fun o =>
        decide (o.amountRemaining = 0 ∧ (r.journal.settled.all fun t => t.fee == 0) = true ∧
          (r.journal.settled.map fun t => t.credits 4).sum ≤ i64Max)) = some true := by decide +kernel
  obtain ⟨r, hr, horder⟩ := Option.bind_eq_some_iff.mp hrun
  obtain ⟨o, ho, hvals⟩ := Option.map_eq_some_iff.mp horder
  obtain ⟨hfilled, hfees, hfits⟩ := of_decide_eq_true hvals
  refine ⟨r, o, hr, ho, hfilled, ((recorded_fills_add_up_iff hr).2 4 o ho).mpr ⟨fun t ht _ => ?_, hfits⟩⟩
  exact beq_iff_eq.mp (List.all_eq_true.mp hfees t ht)

/-- Bob takes all of the order of Alice that is for sale at one, in a block with fees. -/
def chargedRun : List Event := vestedBlock ++ marketBlock 2000000 ++ [takingOrder 2000000]

/-- **The fee is missing** from what is reported of Alice's order: it is filled, but is taken for
one that was cancelled. -/
theorem filled_order_reported_cancelled :
    ∃ r o, run chainStep (Recorder.initial vestedConfig) chargedRun = some r ∧
      r.journal.orders.find? 3 = some o ∧ o.amountForsale = 2000000 ∧ o.amountRemaining = 0 ∧
      (getMatchingTrades r.journal.trades 3 o.property).map MatchingTrades.totalSold = some 1999000 ∧
      metadexGetStatus r.node.state r.journal.trades r.journal.txs 3 o.property o.amountForsale (-1) =
        some .cancelledPartFilled ∧
      ¬ FillsAddUp r 3 o := by
  have hrun : ((run chainStep (Recorder.initial vestedConfig) chargedRun).bind fun r =>
      (r.journal.orders.find? 3).map fun o =>
        decide (o.amountForsale = 2000000 ∧ o.amountRemaining = 0 ∧
          (getMatchingTrades r.journal.trades 3 o.property).map MatchingTrades.totalSold = some 1999000 ∧
          metadexGetStatus r.node.state r.journal.trades r.journal.txs 3 o.property o.amountForsale (-1) =
            some .cancelledPartFilled)) = some true := by decide +kernel
  obtain ⟨r, hr, horder⟩ := Option.bind_eq_some_iff.mp hrun
  obtain ⟨o, ho, hvals⟩ := Option.map_eq_some_iff.mp horder
  obtain ⟨hforsale, hfilled, hsold, hstatus⟩ := of_decide_eq_true hvals
  refine ⟨r, o, hr, ho, hforsale, hfilled, hsold, hstatus, fun hadds => ?_⟩
  have hright := hadds.status hfilled
  rw [hstatus] at hright
  cases hright

end Rapids.Token
