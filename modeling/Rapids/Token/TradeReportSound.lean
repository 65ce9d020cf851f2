import Rapids.Token.TradeReport

/-!
# Rapids.Token.TradeReportSound

**What a journal says of a state.** A record of a fill is read back as it was written, so the
sums that `getMatchingTrades` makes for an order are sums over its fills: what its owner was
credited, and what it sold, except that a fee is missing from what it sold **while it was
resting**. The fee comes out of what the new order gets, so what the resting order gives is
the recorded amount and the fee together, as the listed trade has it.

`JournalInv` holds if every fill has one record, and every order has sold in its fills what it
no longer has. Placing an order and settling a fill preserve it.
-/

namespace Rapids.Token

open Rapids.Lib OrdMap

/-! ### Sums over entries -/

section Reads

variable {e : TradeKey × List Char} {found : MatchingTrades} {a b : Int}

/-- Is the entry about the transaction? -/
def concerns (txid : Hash) (e : TradeKey × List Char) : Prop := e.1.txid1 = txid ∨ e.1.txid2 = some txid

instance (txid : Hash) (e : TradeKey × List Char) : Decidable (concerns txid e) :=
  inferInstanceAs (Decidable (_ ∨ _))

/-- The match that an entry holds. -/
def entryMatch (e : TradeKey × List Char) : Option MatchFields :=
  e.1.txid2.bind fun _ => readMatch (splitFields ':' e.2)

/-- What an entry adds to the amount sold. -/
def soldIn (txid : Hash) (p : PropertyId) (e : TradeKey × List Char) : Int :=
  if concerns txid e then (entryMatch e).elim 0 fun f => if f.prop1 = p then f.amount1 else f.amount2 else 0

/-- What it adds to the amount received. -/
def receivedIn (txid : Hash) (p : PropertyId) (e : TradeKey × List Char) : Int :=
  if concerns txid e then (entryMatch e).elim 0 fun f => if f.prop1 = p then f.amount2 else f.amount1 else 0

/-- An entry of an order, or of a match whose fields can be read. -/
def Readable (e : TradeKey × List Char) : Prop :=
  e.1.txid2 = none ∨ (splitFields ':' e.2).length = 8 ∧ (readMatch (splitFields ':' e.2)).isSome = true

section
variable (found : MatchingTrades) (p : PropertyId) (matchTxid : Hash) (f : MatchFields)

theorem add_totalSold :
    (found.add p matchTxid f).totalSold =
      toI64 (found.totalSold + if f.prop1 = p then f.amount1 else f.amount2) := by
  unfold MatchingTrades.add
  split_ifs
  · rfl
  · rfl

theorem add_totalReceived :
    (found.add p matchTxid f).totalReceived =
      toI64 (found.totalReceived + if f.prop1 = p then f.amount2 else f.amount1) := by
  unfold MatchingTrades.add
  split_ifs
  · rfl
  · rfl

end

theorem examineTrade_readable (txid : Hash) (p : PropertyId) (h : Readable e) (ha : found.totalSold = toI64 a)
    (hb : found.totalReceived = toI64 b) :
    ∃ found', examineTrade txid p found e = some found' ∧ found'.totalSold = toI64 (a + soldIn txid p e) ∧
      found'.totalReceived = toI64 (b + receivedIn txid p e) := by
  unfold examineTrade soldIn receivedIn
  by_cases hc : concerns txid e
  · rw [if_pos hc, if_pos hc, if_neg (fun hno => hc.elim hno.1 hno.2)]
    unfold entryMatch
    cases hkey : e.1.txid2 with
    | none =>
      refine ⟨found, rfl, ?_, ?_⟩
      · simpa using ha
      · simpa using hb
    | some txid2 =>
      rcases h with hnone | ⟨hlen, hread⟩
      · rw [hkey] at hnone
        cases hnone
      obtain ⟨f, hf⟩ := Option.isSome_iff_exists.mp hread
      dsimp only [Option.elim_some, Option.bind_some]
      rw [if_neg (not_not.mpr hlen), hf]
      refine ⟨_, rfl, ?_, ?_⟩
      · rw [add_totalSold, ha, toI64_toI64_add]
        rfl
      · rw [add_totalReceived, hb, toI64_toI64_add]
        rfl
  · rw [if_neg hc, if_neg hc, if_pos (not_or.mp hc), add_zero, add_zero]
    exact ⟨found, rfl, ha, hb⟩

theorem examineTrades_readable (txid : Hash) (p : PropertyId) {l : List (TradeKey × List Char)}
    (h : ∀ e ∈ l, Readable e) (ha : found.totalSold = toI64 a) (hb : found.totalReceived = toI64 b) :
    ∃ found', l.foldlM (examineTrade txid p) found = some found' ∧
      found'.totalSold = toI64 (a + (l.map (soldIn txid p)).sum) ∧
      found'.totalReceived = toI64 (b + (l.map (receivedIn txid p)).sum) := by
  induction l generalizing found a b with
  | nil => exact ⟨found, rfl, by simpa using ha, by simpa using hb⟩
  | cons e rest ih =>
    obtain ⟨found₁, h1, ha1, hb1⟩ := examineTrade_readable txid p (h e (.head _)) ha hb
    obtain ⟨found₂, h2, ha2, hb2⟩ := ih (fun e' he' => h e' (.tail _ he')) ha1 hb1
    refine ⟨found₂, ?_, ?_, ?_⟩
    · rw [List.foldlM_cons, h1]
      exact h2
    · rw [List.map_cons, List.sum_cons, ← add_assoc]
      exact ha2
    · rw [List.map_cons, List.sum_cons, ← add_assoc]
      exact hb2

/-- **The totals are the sums over the entries**, as far as 64 bits hold them. -/
theorem getMatchingTrades_totals {db : TradeDB} {l : List (TradeKey × List Char)} (hl : db.entries.Perm l)
    (h : ∀ e ∈ l, Readable e) (txid : Hash) (p : PropertyId) :
    ∃ report, getMatchingTrades db txid p = some report ∧
      report.totalSold = toI64 (l.map (soldIn txid p)).sum ∧
      report.totalReceived = toI64 (l.map (receivedIn txid p)).sum := by
  have hzero : toI64 0 = 0 := by decide
  obtain ⟨report, hreport, hsold, hreceived⟩ := @examineTrades_readable {} 0 0 txid p db.entries
    (fun e he => h e (hl.mem_iff.mp he)) hzero.symm hzero.symm
  refine ⟨report, hreport, ?_, ?_⟩
  · rw [hsold, zero_add, (hl.map _).sum_eq]
  · rw [hreceived, zero_add, (hl.map _).sum_eq]

end Reads

/-! ### Records of fills -/

/-- An order as it comes from a packet that is listed, with what has been left of it. -/
structure Listable (o : CMPMetaDEx) : Prop where
  sells : 0 < o.amountForsale
  addr : IsField ':' o.addr.toList
  property : (o.property : Int) ≤ u32Max
  desired : (o.desiredProperty : Int) ≤ u32Max
  pair : o.property ≠ o.desiredProperty
  remaining : 0 ≤ o.amountRemaining
  within : o.amountRemaining ≤ o.amountForsale
  fits : o.amountForsale ≤ i64Max

/-- A fill of two orders that can be recorded. -/
structure Settlement.Sound (t : Settlement) : Prop where
  new : Listable t.fill.new
  old : Listable t.fill.ref.order
  apart : t.fill.new.txid ≠ t.fill.ref.order.txid
  pays : t.fill.ref.order.desiredProperty = t.fill.new.property
  gets : t.fill.ref.order.property = t.fill.new.desiredProperty
  got : 0 < t.fill.got ∧ t.fill.got ≤ t.fill.ref.order.amountRemaining
  paid : 0 < t.fill.paid ∧ t.fill.paid ≤ t.fill.new.amountRemaining
  fee : 0 ≤ t.fee ∧ t.fee ≤ t.fill.got

namespace Settlement

variable {t : Settlement} {txid : Hash}

/-- The entry that records it. -/
def entry (t : Settlement) : TradeKey × List Char :=
  ((TradeRecord.matched t.record).key, (TradeRecord.matched t.record).text)

/-- The fields of the record, as they are read. -/
def fields (t : Settlement) : MatchFields where
  address1 := t.fill.ref.order.addr.toList
  address2 := t.fill.new.addr.toList
  prop1 := t.fill.ref.order.desiredProperty
  prop2 := t.fill.new.desiredProperty
  amount1 := t.fill.paid
  amount2 := t.fill.got - t.fee
  blockNum := t.fill.new.block
  tradingFee := t.fee

/-- **A record is read as it was written.** -/
theorem Sound.read (h : t.Sound) :
    (splitFields ':' t.entry.2).length = 8 ∧ readMatch (splitFields ':' t.entry.2) = some t.fields := by
  have haddressed : (TradeRecord.matched t.record).Addressed := ⟨h.old.addr, h.new.addr⟩
  have hsplit : splitFields ':' t.entry.2 = (TradeRecord.matched t.record).fields :=
    TradeRecord.splitFields_text haddressed
  have hmin : i64Min ≤ 0 := by decide
  obtain ⟨hgot, hgotLe⟩ := h.got
  obtain ⟨hpaid, hpaidLe⟩ := h.paid
  obtain ⟨hfee, hfeeLe⟩ := h.fee
  have hold := h.old.within.trans h.old.fits
  have hnew := h.new.within.trans h.new.fits
  rw [hsplit]
  refine ⟨rfl, ?_⟩
  simp only [readMatch, TradeRecord.fields, record, List.getD_cons_zero, List.getD_cons_succ, atoi_intText]
  rw [lexicalCast_intText (by omega) h.old.desired, lexicalCast_intText (by omega) h.new.desired,
    lexicalCast_intText (by omega) (by omega), lexicalCast_intText (by omega) (by omega),
    lexicalCast_intText (by omega) (by omega)]
  rfl

theorem Sound.readable (h : t.Sound) : Readable t.entry := by
  obtain ⟨hlen, hread⟩ := h.read
  exact .inr ⟨hlen, by rw [hread]; rfl⟩

theorem Sound.entryMatch_eq (h : t.Sound) : entryMatch t.entry = some t.fields := h.read.2

theorem concerns_entry : concerns txid t.entry ↔ t.fill.ref.order.txid = txid ∨ t.fill.new.txid = txid := by
  unfold concerns
  dsimp only [entry, TradeRecord.key, record]
  rw [Option.some.injEq]

/-- **What the record of a fill adds for an order** that sells `p`: what the order sells in it,
but for the fee if it was resting; and what its owner is credited. -/
theorem Sound.totals (h : t.Sound) {p : PropertyId} (hnew : t.fill.new.txid = txid → t.fill.new.property = p)
    (hold : t.fill.ref.order.txid = txid → t.fill.ref.order.property = p) :
    soldIn txid p t.entry = t.sells txid - t.restingFee txid ∧ receivedIn txid p t.entry = t.credits txid := by
  unfold soldIn receivedIn sells credits restingFee
  rw [h.entryMatch_eq]
  dsimp only [Option.elim_some, fields]
  by_cases hn : t.fill.new.txid = txid
  · -- the new order: what it paid comes first
    have ho : t.fill.ref.order.txid ≠ txid := fun ho => h.apart (hn.trans ho.symm)
    have hprop : (t.fill.ref.order.desiredProperty : Int) = (p : Int) := by rw [h.pays, hnew hn]
    have hconcerns : concerns txid t.entry := concerns_entry.mpr (.inr hn)
    rw [if_pos hconcerns, if_pos hconcerns, if_pos hprop, if_pos hprop, if_pos hn, if_pos hn, if_neg ho, if_neg ho,
      if_neg ho]
    exact ⟨by omega, by omega⟩
  · by_cases ho : t.fill.ref.order.txid = txid
    · -- the resting order desires something else than it sells
      have hprop : ¬ (t.fill.ref.order.desiredProperty : Int) = (p : Int) := by
        rw [← hold ho]
        intro heq
        exact h.old.pair (Int.ofNat.inj heq).symm
      have hconcerns : concerns txid t.entry := concerns_entry.mpr (.inl ho)
      rw [if_pos hconcerns, if_pos hconcerns, if_neg hprop, if_neg hprop, if_neg hn, if_neg hn, if_pos ho, if_pos ho,
        if_pos ho]
      exact ⟨by omega, by omega⟩
    · have hconcerns : ¬ concerns txid t.entry := fun hc => (concerns_entry.mp hc).elim ho hn
      rw [if_neg hconcerns, if_neg hconcerns, if_neg hn, if_neg hn, if_neg ho, if_neg ho, if_neg ho]
      exact ⟨rfl, rfl⟩

theorem Sound.restingFee_bounds (h : t.Sound) : 0 ≤ t.restingFee txid ∧ t.restingFee txid ≤ t.sells txid := by
  obtain ⟨hfee, hfeeLe⟩ := h.fee
  have hpaid := h.paid.1
  unfold restingFee sells
  split_ifs
  · omega
  · omega
  · omega
  · omega

theorem Sound.credits_nonneg (h : t.Sound) : 0 ≤ t.credits txid := by
  obtain ⟨hfee, hfeeLe⟩ := h.fee
  have hpaid := h.paid.1
  unfold credits
  split_ifs
  · omega
  · omega
  · omega
  · omega

end Settlement

/-! ### Journals -/

/-- **What a journal says of a state.** -/
structure JournalInv (j : Journal) (s : State) : Prop where
  /-- The orders of the book are as they last were. -/
  book : ∀ p price pos o, s.orderAt p price pos = some o → j.orders.find? o.txid = some o
  orders : ∀ x o, j.orders.find? x = some o → o.txid = x ∧ Listable o
  /-- What an order no longer has, it has sold. -/
  sold : ∀ x o, j.orders.find? x = some o →
    (j.settled.map fun t => t.sells x).sum = o.amountForsale - o.amountRemaining
  sound : ∀ t ∈ j.settled, t.Sound
  /-- Both sides of a fill are known, and sell what they sold in it. -/
  sides : ∀ t ∈ j.settled, ∀ side ∈ [t.fill.new, t.fill.ref.order],
    ∃ o, j.orders.find? side.txid = some o ∧ o.property = side.property
  /-- Each fill has one record. -/
  entries : ∃ placed, (∀ e ∈ placed, e.1.txid2 = none) ∧
    j.trades.entries.Perm (placed ++ j.settled.map Settlement.entry)
  keys : ∀ k, j.trades.contains k = true → j.orders.contains k.txid1 = true ∧
    ∀ x, k.txid2 = some x → j.orders.contains x = true

namespace JournalInv

variable {j : Journal} {s s' : State} {tx : CMPTransaction} {t : Settlement}

section
variable (h : JournalInv j s)
include h

theorem of_book
    (hbook : ∀ p price pos o, s'.orderAt p price pos = some o → j.orders.find? o.txid = some o) :
    JournalInv j s' :=
  { h with book := hbook }

theorem of_noNewOrders (hnone : NoNewOrders s s') : JournalInv j s' :=
  h.of_book fun p price pos o ho => h.book p price pos o (hnone p price pos o ho)

theorem recordTX (txid : Hash) (rc : Int) : JournalInv (j.recordTX txid rc) s := by
  unfold Journal.recordTX
  split_ifs
  · exact h
  · exact { h with }

theorem sells_eq_zero {txid : Hash} (hfresh : j.orders.find? txid = none) :
    (j.settled.map fun t => t.sells txid).sum = 0 := by
  refine List.sum_eq_zero fun x hx => ?_
  obtain ⟨t, ht, rfl⟩ := List.mem_map.mp hx
  have hne : ∀ side ∈ [t.fill.new, t.fill.ref.order], side.txid ≠ txid := by
    intro side hside heq
    obtain ⟨o, ho, -⟩ := h.sides t ht side hside
    rw [heq, hfresh] at ho
    cases ho
  unfold Settlement.sells
  rw [if_neg (hne _ List.mem_cons_self), if_neg (hne _ (by simp)), add_zero]

/-- **A new order** is recorded with all it has. -/
theorem place (hfresh : j.orders.find? tx.txid = none) (hlist : Listable tx.order) :
    JournalInv (j.place tx) s := by
  have hne : ∀ x o, j.orders.find? x = some o → x ≠ tx.txid := by
    intro x o ho heq
    rw [heq, hfresh] at ho
    cases ho
  have hold : ∀ x, x ≠ tx.txid → (j.place tx).orders.find? x = j.orders.find? x :=
    fun x hx => find?_insert_ne _ _ hx
  have hnew : (j.place tx).orders.find? tx.txid = some tx.order := find?_insert_self _ _ _
  have hcases : ∀ x o, (j.place tx).orders.find? x = some o →
      (x = tx.txid ∧ o = tx.order) ∨ (x ≠ tx.txid ∧ j.orders.find? x = some o) := by
    intro x o ho
    by_cases hx : x = tx.txid
    · rw [hx, hnew] at ho
      exact .inl ⟨hx, (Option.some.inj ho).symm⟩
    · rw [hold x hx] at ho
      exact .inr ⟨hx, ho⟩
  have hkey : j.trades.find? (TradeRecord.new tx.newTrade).key = none := by
    by_contra hc
    have hcontains := (h.keys (TradeRecord.new tx.newTrade).key (Option.isSome_iff_ne_none.mpr hc)).1
    rw [contains, show (TradeRecord.new tx.newTrade).key.txid1 = tx.txid from rfl, hfresh] at hcontains
    cases hcontains
  refine ⟨fun p price pos o ho => ?_, fun x o ho => ?_, fun x o ho => ?_, h.sound, fun t ht side hside => ?_, ?_,
    fun k hk => ?_⟩
  · have hfound := h.book p price pos o ho
    rw [hold _ (hne _ _ hfound)]
    exact hfound
  · rcases hcases x o ho with ⟨rfl, rfl⟩ | ⟨-, ho⟩
    · exact ⟨rfl, hlist⟩
    · exact h.orders x o ho
  · rcases hcases x o ho with ⟨rfl, rfl⟩ | ⟨-, ho⟩
    · rw [show (j.place tx).settled = j.settled from rfl, h.sells_eq_zero hfresh]
      exact (sub_self _).symm
    · exact h.sold x o ho
  · obtain ⟨o, ho, hp⟩ := h.sides t ht side hside
    exact ⟨o, by rw [hold _ (hne _ _ ho), ho], hp⟩
  · obtain ⟨placed, hplaced, hperm⟩ := h.entries
    refine ⟨((TradeRecord.new tx.newTrade).key, (TradeRecord.new tx.newTrade).text) :: placed, fun e he => ?_, ?_⟩
    · rcases List.mem_cons.mp he with rfl | he
      · rfl
      · exact hplaced e he
    · exact (entries_insert_perm _ hkey).trans (hperm.cons _)
  · have hcontains : ∀ x, j.orders.contains x = true → (j.place tx).orders.contains x = true := by
      intro x hx
      rw [Journal.place, contains_insert, hx, Bool.or_true]
    rw [Journal.place, Token.recordTrade, contains_insert, Bool.or_eq_true] at hk
    rcases hk with hk | hk
    · have heq : k = (TradeRecord.new tx.newTrade).key := by simpa using hk
      rw [heq]
      refine ⟨?_, fun x hx => by cases hx⟩
      rw [contains]
      exact Option.isSome_iff_exists.mpr ⟨_, hnew⟩
    · obtain ⟨h1, h2⟩ := h.keys k hk
      exact ⟨hcontains _ h1, fun x hx => hcontains x (h2 x hx)⟩

end

theorem orders_settle (j : Journal) (t : Settlement) (x : Hash) :
    (j.settle t).orders.find? x =
      if x = t.fill.new.txid then some t.incoming
      else if x = t.fill.ref.order.txid then some t.resting
      else j.orders.find? x := by
  rw [Journal.settle]
  rw [find?_insert, find?_insert]
  rfl

theorem property_settle (hnew : j.orders.find? t.fill.new.txid = some t.fill.new)
    (hold : j.orders.find? t.fill.ref.order.txid = some t.fill.ref.order) {x : Hash} {o : CMPMetaDEx}
    (ho : j.orders.find? x = some o) :
    ∃ o', (j.settle t).orders.find? x = some o' ∧ o'.property = o.property := by
  rw [orders_settle]
  by_cases hx : x = t.fill.new.txid
  · rw [if_pos hx]
    rw [hx, hnew] at ho
    cases ho
    exact ⟨_, rfl, rfl⟩
  · rw [if_neg hx]
    by_cases hx' : x = t.fill.ref.order.txid
    · rw [if_pos hx']
      rw [hx', hold] at ho
      cases ho
      exact ⟨_, rfl, rfl⟩
    · rw [if_neg hx']
      exact ⟨o, ho, rfl⟩

/-- **A fill** is recorded, and both its orders have sold more. -/
theorem settle (h : JournalInv j s) (ht : t.Sound) (hnew : j.orders.find? t.fill.new.txid = some t.fill.new)
    (hold : j.orders.find? t.fill.ref.order.txid = some t.fill.ref.order) (hkey : j.trades.find? t.entry.1 = none)
    (hbook : ∀ p price pos o, s'.orderAt p price pos = some o → o = t.resting ∨
      (s.orderAt p price pos = some o ∧ o.txid ≠ t.fill.new.txid ∧ o.txid ≠ t.fill.ref.order.txid)) :
    JournalInv (j.settle t) s' := by
  have hresting : (j.settle t).orders.find? t.fill.ref.order.txid = some t.resting := by
    rw [orders_settle, if_neg (Ne.symm ht.apart), if_pos rfl]
  have hincoming : (j.settle t).orders.find? t.fill.new.txid = some t.incoming := by
    rw [orders_settle, if_pos rfl]
  have hlist : Listable t.resting ∧ Listable t.incoming := by
    obtain ⟨hgot, hgotLe⟩ := ht.got
    obtain ⟨hpaid, hpaidLe⟩ := ht.paid
    have holdWithin := ht.old.within
    have hnewWithin := ht.new.within
    refine ⟨{ ht.old with remaining := ?_, within := ?_ }, { ht.new with remaining := ?_, within := ?_ }⟩
    all_goals
      dsimp only [Settlement.resting, Settlement.incoming]
      omega
  have hsum : ∀ x, ((j.settle t).settled.map fun t => t.sells x).sum =
      (j.settled.map fun t => t.sells x).sum + t.sells x := by
    intro x
    rw [show (j.settle t).settled = j.settled ++ [t] from rfl, List.map_append, List.sum_append]
    simp
  have hapart := ht.apart
  refine ⟨fun p price pos o ho => ?_, fun x o ho => ?_, fun x o ho => ?_, fun t' ht' => ?_, fun t' ht' side hside => ?_,
    ?_, fun k hk => ?_⟩
  · rcases hbook p price pos o ho with rfl | ⟨ho, hne, hne'⟩
    · exact hresting
    · rw [orders_settle, if_neg hne, if_neg hne']
      exact h.book p price pos o ho
  · rw [orders_settle] at ho
    split_ifs at ho with hx hx'
    · cases ho
      exact ⟨hx.symm, hlist.2⟩
    · cases ho
      exact ⟨hx'.symm, hlist.1⟩
    · exact h.orders x o ho
  · have hsells : t.sells x = (if t.fill.new.txid = x then t.fill.paid else 0) +
        if t.fill.ref.order.txid = x then t.fill.got else 0 := rfl
    rw [hsum, hsells]
    rw [orders_settle] at ho
    split_ifs at ho with hx hx'
    · -- the new order has sold what it paid
      cases ho
      rw [hx, if_pos rfl, if_neg (Ne.symm hapart), h.sold _ _ hnew]
      dsimp only [Settlement.incoming]
      omega
    · -- the resting order has sold what the other got
      cases ho
      rw [hx', if_pos rfl, if_neg hapart, h.sold _ _ hold]
      dsimp only [Settlement.resting]
      omega
    · rw [if_neg (Ne.symm hx), if_neg (Ne.symm hx'), add_zero, add_zero]
      exact h.sold x o ho
  · rcases List.mem_append.mp ht' with ht' | ht'
    · exact h.sound t' ht'
    · rw [List.mem_singleton.mp ht']
      exact ht
  · rcases List.mem_append.mp ht' with ht' | ht'
    · obtain ⟨o, ho, hp⟩ := h.sides t' ht' side hside
      obtain ⟨o', ho', hp'⟩ := property_settle hnew hold ho
      exact ⟨o', ho', hp'.trans hp⟩
    · rw [List.mem_singleton.mp ht'] at hside
      rcases List.mem_cons.mp hside with rfl | hside
      · exact ⟨_, hincoming, rfl⟩
      · rw [List.mem_singleton.mp hside]
        exact ⟨_, hresting, rfl⟩
  · obtain ⟨placed, hplaced, hperm⟩ := h.entries
    refine ⟨placed, hplaced, ?_⟩
    have hinsert := entries_insert_perm t.entry.2 hkey
    have hlast : (placed ++ j.settled.map Settlement.entry ++ [t.entry]).Perm
        (placed ++ (j.settle t).settled.map Settlement.entry) := by
      rw [show (j.settle t).settled = j.settled ++ [t] from rfl, List.map_append, List.append_assoc]
      exact List.Perm.refl _
    exact (hinsert.trans ((hperm.cons _).trans (List.perm_append_singleton _ _).symm)).trans hlast
  · have hcontains : ∀ x, j.orders.contains x = true → (j.settle t).orders.contains x = true := by
      intro x hx
      obtain ⟨o, ho⟩ := Option.isSome_iff_exists.mp hx
      obtain ⟨o', ho', -⟩ := property_settle hnew hold ho
      exact Option.isSome_iff_exists.mpr ⟨o', ho'⟩
    rw [Journal.settle, Token.recordTrade, contains_insert, Bool.or_eq_true] at hk
    rcases hk with hk | hk
    · have heq : k = (TradeRecord.matched t.record).key := by simpa using hk
      rw [heq]
      refine ⟨Option.isSome_iff_exists.mpr ⟨_, hresting⟩, fun x hx => ?_⟩
      rw [← Option.some.inj hx]
      exact Option.isSome_iff_exists.mpr ⟨_, hincoming⟩
    · obtain ⟨h1, h2⟩ := h.keys k hk
      exact ⟨hcontains _ h1, fun x hx => hcontains x (h2 x hx)⟩

end JournalInv

end Rapids.Token
