import Rapids.Token.MetaDex

/-!
# Rapids.Token.MetaDexSound

The **reserve invariant of the token exchange**: what is reserved of an
address's tokens is what its open orders still have for sale.

The book is seen through `orderAt`, and `reservedBy` is the total it is about.
A loop carries `Listed`: the orders still to be visited are in the book, each
under a place of its own. One visited order then changes the book at one place,
and `MetaDexStep` records that reserves and book moved together
(`MetaDexStep.gap`), that no tokens appeared or vanished, and that nothing
outside the exchange changed.
-/

namespace Rapids.Token

open Rapids.Lib OrdMap

variable {s s' : State} {r : OrderRef} {new new' : CMPMetaDEx} {rc got paid : Int}
  {p desired : PropertyId} {l rest : List OrderRef} {block : Nat} {sender : Address}

/-! ### The book, place by place -/

section
variable (s : State) (p q : PropertyId) (price price' : ℚ)

theorem State.level_putLevel (set : MdSet) :
    (s.putLevel p price set).level q price' =
      if q = p ∧ price' = price then set else s.level q price' := by
  unfold State.level State.putLevel
  simp only [find?_insert]
  by_cases hq : q = p
  · subst hq
    by_cases hp : price' = price <;> simp [hp, find?_insert]
  · simp [hq]

/-- The order at a place of the book. -/
def State.orderAt (s : State) (p : PropertyId) (price : ℚ) (pos : Position) : Option CMPMetaDEx :=
  (s.level p price).find? pos

theorem State.orderAt_putOrder
    (pos pos' : Position) (o : CMPMetaDEx) :
    (s.putOrder p price pos o).orderAt q price' pos' =
      if q = p ∧ price' = price ∧ pos' = pos then some o else s.orderAt q price' pos' := by
  unfold State.orderAt State.putOrder
  rw [State.level_putLevel]
  by_cases h : q = p ∧ price' = price
  · obtain ⟨rfl, rfl⟩ := h
    simp [find?_insert]
  · rw [if_neg h, if_neg fun hc => h ⟨hc.1, hc.2.1⟩]

theorem State.orderAt_eraseOrder
    (pos pos' : Position) :
    (s.eraseOrder p price pos).orderAt q price' pos' =
      if q = p ∧ price' = price ∧ pos' = pos then none else s.orderAt q price' pos' := by
  unfold State.orderAt State.eraseOrder
  rw [State.level_putLevel]
  by_cases h : q = p ∧ price' = price
  · obtain ⟨rfl, rfl⟩ := h
    simp [find?_erase]
  · rw [if_neg h, if_neg fun hc => h ⟨hc.1, hc.2.1⟩]

end

/-! ### What the open orders reserve -/

/-- What one order reserves of a property for an address. -/
def orderWeight (a : Address) (p : PropertyId) (o : CMPMetaDEx) : Int :=
  if o.addr = a ∧ o.property = p then o.amountRemaining else 0

/-- The total over one level. -/
def reservedIn (set : MdSet) (a : Address) (p : PropertyId) : Int :=
  set.sumBy fun _ o => orderWeight a p o

/-- The sum of `amount_remaining` over all open orders of an address that sell
a property. -/
def reservedBy (book : MdPropertiesMap) (a : Address) (p : PropertyId) : Int :=
  book.sumBy fun _ prices => prices.sumBy fun _ set => reservedIn set a p

section
variable (s : State) (p : PropertyId) (price : ℚ)

theorem reservedBy_putLevel (set : MdSet) (a : Address)
    (q : PropertyId) :
    reservedBy (s.putLevel p price set).metadex a q =
      reservedBy s.metadex a q + reservedIn set a q - reservedIn (s.level p price) a q := by
  unfold reservedBy State.putLevel State.level
  simp only [sumBy_insert]
  cases hp : s.metadex.find? p with
  | none => simp [reservedIn]
  | some prices =>
    simp only [weightAt_some, Option.getD_some]
    cases hl : prices.find? price with
    | none => simp [reservedIn]; omega
    | some set' => simp only [weightAt_some, Option.getD_some]; omega

section
variable (pos : Position) (o : CMPMetaDEx) (a : Address) (q : PropertyId)

theorem reservedBy_putOrder
    (h : s.orderAt p price pos = none) :
    reservedBy (s.putOrder p price pos o).metadex a q =
      reservedBy s.metadex a q + orderWeight a q o := by
  unfold State.orderAt at h
  unfold State.putOrder
  rw [reservedBy_putLevel, reservedIn, sumBy_insert, h, reservedIn, weightAt_none]
  omega

theorem reservedBy_eraseOrder
    (h : s.orderAt p price pos = some o) :
    reservedBy (s.eraseOrder p price pos).metadex a q =
      reservedBy s.metadex a q - orderWeight a q o := by
  unfold State.orderAt at h
  unfold State.eraseOrder
  rw [reservedBy_putLevel, reservedIn, sumBy_erase, h, reservedIn, weightAt_some]
  omega

end

end

/-! ### The orders still to be visited -/

/-- The place an order is at. -/
def OrderRef.place (r : OrderRef) : PropertyId × ℚ × Position := (r.property, r.price, r.pos)

/-- Every order of the list is in the book, and no place is listed twice. -/
structure Listed (s : State) (l : List OrderRef) : Prop where
  found : ∀ r ∈ l, s.orderAt r.property r.price r.pos = some r.order
  distinct : l.Pairwise fun r r' => r.place ≠ r'.place

theorem Listed.head (h : Listed s (r :: rest)) :
    s.orderAt r.property r.price r.pos = some r.order :=
  h.found r (.head _)

theorem Listed.tail (h : Listed s (r :: rest)) :
    Listed s rest :=
  ⟨fun r' hr' => h.found r' (.tail _ hr'), (List.pairwise_cons.mp h.distinct).2⟩

theorem Listed.append_left {l' : List OrderRef} (h : Listed s (l ++ l')) : Listed s l :=
  ⟨fun r hr => h.found r (List.mem_append_left _ hr), (List.pairwise_append.mp h.distinct).1⟩

theorem Listed.append_right {l' : List OrderRef} (h : Listed s (l ++ l')) : Listed s l' :=
  ⟨fun r hr => h.found r (List.mem_append_right _ hr), (List.pairwise_append.mp h.distinct).2.1⟩

/-- A step that rewrites the book at the visited order only keeps the rest
listed. -/
theorem Listed.after (h : Listed s (r :: rest))
    (hb : ∀ p price pos, (p, price, pos) ≠ r.place → s'.orderAt p price pos = s.orderAt p price pos) :
    Listed s' rest := by
  refine ⟨fun r' hr' => ?_, h.tail.distinct⟩
  rw [hb _ _ _ fun hc => (List.pairwise_cons.mp h.distinct).1 r' hr' hc.symm]
  exact h.tail.found r' hr'

theorem mem_pricesOrders {prices : MdPricesMap}
    (h : r ∈ MdPricesMap.orders p prices) :
    r.property = p ∧ ∃ set, prices.find? r.price = some set ∧ set.find? r.pos = some r.order := by
  simp only [MdPricesMap.orders, List.mem_flatMap, List.mem_map, Prod.exists] at h
  obtain ⟨price, set, hlevel, pos, o, ho, rfl⟩ := h
  exact ⟨rfl, set, mem_entries_iff.mp hlevel, mem_entries_iff.mp ho⟩

theorem pricesOrders_distinct (p : PropertyId) (prices : MdPricesMap) :
    (MdPricesMap.orders p prices).Pairwise fun r r' => r.place ≠ r'.place := by
  unfold MdPricesMap.orders
  rw [List.pairwise_flatMap]
  refine ⟨fun level _ => ?_, prices.sorted.imp fun {l l'} hlt r hr r' hr' => ?_⟩
  · rw [List.pairwise_map]
    refine level.2.sorted.imp fun {o o'} hlt => ?_
    simp [OrderRef.place, hlt.ne]
  · simp only [List.mem_map, Prod.exists] at hr hr'
    obtain ⟨pos, o, -, rfl⟩ := hr
    obtain ⟨pos', o', -, rfl⟩ := hr'
    simp [OrderRef.place, hlt.ne]

theorem listed_pricesOrders {prices : MdPricesMap}
    (h : s.metadex.find? p = some prices) : Listed s (MdPricesMap.orders p prices) := by
  refine ⟨fun r hr => ?_, pricesOrders_distinct p prices⟩
  obtain ⟨rfl, set, hset, ho⟩ := mem_pricesOrders hr
  simp [State.orderAt, State.level, h, hset, ho]

theorem listed_bookOrders (s : State) : Listed s (MdPropertiesMap.orders s.metadex) := by
  refine ⟨fun r hr => ?_, ?_⟩
  · simp only [MdPropertiesMap.orders, List.mem_flatMap, Prod.exists] at hr
    obtain ⟨p, prices, hp, hr⟩ := hr
    exact (listed_pricesOrders (mem_entries_iff.mp hp)).found r hr
  · unfold MdPropertiesMap.orders
    rw [List.pairwise_flatMap]
    refine ⟨fun e _ => pricesOrders_distinct e.1 e.2,
      s.metadex.sorted.imp fun {e e'} hlt r hr r' hr' hc => ?_⟩
    have h1 := (mem_pricesOrders hr).1
    have h2 := (mem_pricesOrders hr').1
    have h3 : r.property = r'.property := congrArg Prod.fst hc
    exact hlt.ne (by rw [← h1, ← h2, h3])

/-! ### Steps of the exchange -/

/-- A step of the token exchange in a block. New orders have positions in
`added` only. -/
structure MetaDexStep (s s' : State) (block : Nat) (added : Position → Prop) : Prop where
  frame : s' = { s with
    tally := s'.tally
    feeCache := s'.feeCache
    distributionThresholds := s'.distributionThresholds
    feeHistory := s'.feeHistory
    metadex := s'.metadex }
  reserves : ∀ a q t, t ≠ .balance → t ≠ .metadexReserve →
    getTokenBalance s' a q t = getTokenBalance s a q t
  /-- Reserve and book move together. -/
  gap : ∀ a q, getTokenBalance s' a q .metadexReserve - reservedBy s'.metadex a q =
    getTokenBalance s a q .metadexReserve - reservedBy s.metadex a q
  places : ∀ p price x, (s'.orderAt p price x).isSome → (s.orderAt p price x).isSome ∨ added x
  supply : FeesUpTo s block → ∀ q, supply s' q = supply s q
  feesUpTo : FeesUpTo s block → FeesUpTo s' block
  solvent : FeesUpTo s block → Solvent s → Solvent s'

theorem MetaDexStep.refl (s : State) (block : Nat) (added : Position → Prop) :
    MetaDexStep s s block added :=
  ⟨rfl, fun _ _ _ _ _ => rfl, fun _ _ => rfl, fun _ _ _ => .inl, fun _ _ => rfl, id, fun _ => id⟩

theorem MetaDexStep.trans {s₁ s₂ s₃ : State} {added : Position → Prop}
    (h : MetaDexStep s₁ s₂ block added) (h' : MetaDexStep s₂ s₃ block added) :
    MetaDexStep s₁ s₃ block added := by
  refine ⟨?_, fun a q t ht ht' => ?_, fun a q => (h'.gap a q).trans (h.gap a q), fun p price x hx => ?_,
    fun hf q => ?_, fun hf => h'.feesUpTo (h.feesUpTo hf),
    fun hf hs => h'.solvent (h.feesUpTo hf) (h.solvent hf hs)⟩
  · rw [h'.frame, h.frame]
  · rw [h'.reserves a q t ht ht', h.reserves a q t ht ht']
  · exact (h'.places p price x hx).elim (h.places p price x) .inr
  · rw [h'.supply (h.feesUpTo hf), h.supply hf]

theorem MetaDexStep.mono {added added' : Position → Prop}
    (h : MetaDexStep s s' block added) (ha : ∀ x, added x → added' x) :
    MetaDexStep s s' block added' :=
  { h with places := fun p price x hx => (h.places p price x hx).imp_right (ha x) }

/-! ### Matching -/

theorem replaceOrder_frame (s : State) (r : OrderRef) (left : Int) :
    replaceOrder s r left = { s with metadex := (replaceOrder s r left).metadex } := by
  unfold replaceOrder
  split_ifs <;> rfl

theorem orderAt_replaceOrder (s : State) (r : OrderRef) (left : Int) (p : PropertyId) (price : ℚ)
    (pos : Position) :
    (replaceOrder s r left).orderAt p price pos =
      if (p, price, pos) = r.place then
        if 0 < left then some { r.order with amountRemaining := left } else none
      else s.orderAt p price pos := by
  have hp : (p, price, pos) = r.place ↔ p = r.property ∧ price = r.price ∧ pos = r.pos := by
    simp [OrderRef.place]
  unfold replaceOrder
  split_ifs with hl hpl hpl
  · simp [State.orderAt_putOrder, hp.mp hpl]
  · simp [State.orderAt_putOrder, State.orderAt_eraseOrder, ← hp, if_neg hpl]
  · simp [State.orderAt_eraseOrder, hp.mp hpl]
  · simp [State.orderAt_eraseOrder, ← hp, if_neg hpl]

theorem reservedBy_replaceOrder {left : Int} (hl : 0 ≤ left)
    (h : s.orderAt r.property r.price r.pos = some r.order) (a : Address) (q : PropertyId) :
    reservedBy (replaceOrder s r left).metadex a q = reservedBy s.metadex a q -
      if a = r.order.addr ∧ q = r.order.property then r.order.amountRemaining - left else 0 := by
  have hw : ∀ o : CMPMetaDEx, orderWeight a q o =
      if a = o.addr ∧ q = o.property then o.amountRemaining else 0 := fun o => by
    simp [orderWeight, eq_comm]
  unfold replaceOrder
  split_ifs with hpos hc hc
  · rw [reservedBy_putOrder _ _ _ _ _ _ _ (by simp [State.orderAt_eraseOrder]),
      reservedBy_eraseOrder _ _ _ _ _ _ _ h, hw, hw, if_pos hc, if_pos hc]
    dsimp only
    omega
  · rw [reservedBy_putOrder _ _ _ _ _ _ _ (by simp [State.orderAt_eraseOrder]),
      reservedBy_eraseOrder _ _ _ _ _ _ _ h, hw, hw, if_neg hc, if_neg hc]
    omega
  · rw [reservedBy_eraseOrder _ _ _ _ _ _ _ h, hw, if_pos hc]
    omega
  · rw [reservedBy_eraseOrder _ _ _ _ _ _ _ h, hw, if_neg hc]

theorem chargeFee_feeStep {old : CMPMetaDEx} (hg : 0 ≤ got)
    (h : chargeFee s new old got = some s') :
    FeeStep s s' new.block fun q => if q = new.desiredProperty then tradingFee s new old got else 0 := by
  unfold chargeFee at h
  split_ifs at h with hfee
  · refine addFee_feeStep ?_ h
    simp only [tradingFee, if_pos hfee]
    exact Int.tdiv_nonneg hg (by decide)
  · simp only [Option.some.injEq] at h
    subst h
    simpa [tradingFee, hfee] using FeeStep.refl s new.block

theorem executeTrade_left {out : CMPMetaDEx × State} (h : executeTrade new r got paid s = some out) :
    0 ≤ r.order.amountRemaining - got := by
  unfold executeTrade at h
  dsimp only at h
  split_ifs at h with hok
  exact hok.2.1

/-- What a trade consists of: the fee, the payments, and the resting order reduced. -/
theorem executeTrade_cases (h : executeTrade new r got paid s = some (new', s')) :
    ∃ s₁ s₂ s₃ s₄ s₅, chargeFee s new r.order got = some s₁ ∧
      assertTally s₁ new.addr new.property (-paid) .balance = some s₂ ∧
      assertTally s₂ r.order.addr r.order.desiredProperty paid .balance = some s₃ ∧
      assertTally s₃ r.order.addr r.order.property (-got) .metadexReserve = some s₄ ∧
      assertTally s₄ new.addr new.desiredProperty (got - tradingFee s new r.order got) .balance = some s₅ ∧
      s' = replaceOrder s₅ r (r.order.amountRemaining - got) ∧
      new' = { new with amountRemaining := new.amountRemaining - paid } := by
  unfold executeTrade at h
  dsimp only at h
  split_ifs at h
  simp only [do_eq_some, pure_eq_some, Prod.mk.injEq] at h
  obtain ⟨s₁, h1, s₂, h2, s₃, h3, s₄, h4, s₅, h5, rfl, rfl⟩ := h
  exact ⟨s₁, s₂, s₃, s₄, s₅, h1, h2, h3, h4, h5, rfl, rfl⟩

theorem executeTrade_replace (hg : 0 ≤ got) (h : executeTrade new r got paid s = some (new', s')) :
    ∃ s₅, s₅.metadex = s.metadex ∧ s' = replaceOrder s₅ r (r.order.amountRemaining - got) := by
  obtain ⟨s₁, s₂, s₃, s₄, s₅, h1, h2, h3, h4, h5, rfl, -⟩ := executeTrade_cases h
  refine ⟨s₅, ?_, rfl⟩
  rw [(assertTally_spec h5).frame, (assertTally_spec h4).frame, (assertTally_spec h3).frame,
    (assertTally_spec h2).frame, (chargeFee_feeStep hg h1).frame]

theorem executeTrade_step (hg : 0 ≤ got) (hpay : r.order.desiredProperty = new.property)
    (hget : r.order.property = new.desiredProperty)
    (ho : s.orderAt r.property r.price r.pos = some r.order)
    (h : executeTrade new r got paid s = some (new', s')) :
    MetaDexStep s s' new.block (fun _ => False) ∧
      (∀ p price pos, (p, price, pos) ≠ r.place → s'.orderAt p price pos = s.orderAt p price pos) ∧
      new' = { new with amountRemaining := new.amountRemaining - paid } := by
  have hleft := executeTrade_left h
  obtain ⟨s₁, s₂, s₃, s₄, s₅, h1, h2, h3, h4, h5, rfl, rfl⟩ := executeTrade_cases h
  have f₁ := chargeFee_feeStep hg h1
  have t₂ := assertTally_spec h2
  have t₃ := assertTally_spec h3
  have t₄ := assertTally_spec h4
  have t₅ := assertTally_spec h5
  set left := r.order.amountRemaining - got with hleft_def
  have hbook : s₅.metadex = s.metadex := by
    rw [t₅.frame, t₄.frame, t₃.frame, t₂.frame, f₁.frame]
  have hord : ∀ p price pos, s₅.orderAt p price pos = s.orderAt p price pos := fun p price pos => by
    simp [State.orderAt, State.level, hbook]
  have hfr := replaceOrder_frame s₅ r left
  have hbal : ∀ a q t, getTokenBalance (replaceOrder s₅ r left) a q t = getTokenBalance s₅ a q t :=
    fun a q t => by rw [hfr]; rfl
  have hsup : ∀ q, supply (replaceOrder s₅ r left) q = supply s₅ q := fun q => by rw [hfr]; rfl
  refine ⟨⟨?_, fun a q t hb hm => ?_, fun a q => ?_, fun p price x hx => ?_, fun hf q => ?_,
    fun hf => ?_, fun hf hs => ?_⟩, fun p price pos hne => ?_, rfl⟩
  · rw [hfr, t₅.frame, t₄.frame, t₃.frame, t₂.frame, f₁.frame]
  · rw [hbal, t₅.balance, t₄.balance, t₃.balance, t₂.balance, f₁.reserves a q t hb]
    simp [hb, hm]
  · rw [hbal, t₅.balance, t₄.balance, t₃.balance, t₂.balance, f₁.reserves a q _ (by decide),
      reservedBy_replaceOrder hleft (by rw [hord]; exact ho), hbook]
    have htaken : r.order.amountRemaining - left = got := by omega
    simp only [reduceCtorEq, and_false, if_false, and_true, htaken]
    split_ifs <;> omega
  · rw [orderAt_replaceOrder, hord] at hx
    left
    split_ifs at hx with hpl
    · simp only [OrderRef.place, Prod.mk.injEq] at hpl
      obtain ⟨rfl, rfl, rfl⟩ := hpl
      simp [ho]
    · simp at hx
    · exact hx
  · rw [hsup, t₅.supply_eq, t₄.supply_eq, t₃.supply_eq, t₂.supply_eq, f₁.supply hf, hpay, hget]
    simp only [ne_eq, reduceCtorEq, not_false_eq_true, and_true]
    split_ifs <;> omega
  · intro q e he
    rw [hfr] at he
    exact t₅.feesUpTo (t₄.feesUpTo (t₃.feesUpTo (t₂.feesUpTo (f₁.feesUpTo hf)))) q e he
  · have hs5 := t₅.solvent (t₄.solvent (t₃.solvent (t₂.solvent (f₁.solvent hf hs))))
    exact hs5.of_eq hbal fun q => by rw [hfr]; rfl
  · rw [orderAt_replaceOrder, if_neg hne, hord]

theorem amountCouldBuy_nonneg {old : CMPMetaDEx} (h : amountCouldBuy new old = some got)
    (hr : 0 ≤ old.amountRemaining) : 0 ≤ got := by
  simp only [amountCouldBuy, Option.bind_eq_bind, Option.bind_eq_some_iff] at h
  obtain ⟨offered, -, forsale, -, desired, -, h⟩ := h
  split_ifs at h
  simp only [Option.bind_eq_some_iff] at h
  obtain ⟨left, -, h⟩ := h
  split_ifs at h
  · obtain ⟨rfl, -⟩ := convertTo64_spec h
    exact Int.natCast_nonneg _
  · simp only [Option.some.injEq] at h
    omega

theorem tradeOrder_cases (h : tradeOrder new r s = some (new', s')) :
    (new' = new ∧ s' = s) ∨
    (tradeAsserts new r.order ∧ r.order.desiredProperty = new.property ∧
      ∃ got paid, 0 < got ∧ executeTrade new r got paid s = some (new', s')) := by
  unfold tradeOrder at h
  split_ifs at h with h1 h2 h3
  · simp only [Option.some.injEq, Prod.mk.injEq] at h
    exact .inl ⟨h.1.symm, h.2.symm⟩
  · simp only [Option.bind_eq_some_iff] at h
    obtain ⟨got, hgot, h⟩ := h
    split_ifs at h with h4
    · simp only [Option.some.injEq, Prod.mk.injEq] at h
      exact .inl ⟨h.1.symm, h.2.symm⟩
    · simp only [Option.bind_eq_some_iff] at h
      obtain ⟨paid, -, h⟩ := h
      split_ifs at h with h5
      · simp only [Option.some.injEq, Prod.mk.injEq] at h
        exact .inl ⟨h.1.symm, h.2.symm⟩
      · have hnn := amountCouldBuy_nonneg hgot h3.1.le
        exact .inr ⟨h3, not_not.mp h2, got, paid, lt_of_le_of_ne hnn (Ne.symm h4), h⟩

theorem tradeOrder_step (hl : Listed s (r :: rest)) (h : tradeOrder new r s = some (new', s')) :
    MetaDexStep s s' new.block (fun _ => False) ∧ Listed s' rest ∧
      new' = { new with amountRemaining := new'.amountRemaining } := by
  rcases tradeOrder_cases h with ⟨rfl, rfl⟩ | ⟨hpre, hpay, got, paid, hgot, hex⟩
  · exact ⟨MetaDexStep.refl _ _ _, hl.tail, rfl⟩
  · obtain ⟨hst, hb, hnew⟩ := executeTrade_step hgot.le hpay hpre.2.2.2.1 hl.head hex
    exact ⟨hst, hl.after hb, by rw [hnew]⟩

theorem tradeLoop_step (hl : Listed s l)
    (h : tradeLoop l new s = some (new', s')) :
    MetaDexStep s s' new.block (fun _ => False) ∧
      new' = { new with amountRemaining := new'.amountRemaining } := by
  induction l generalizing new s with
  | nil =>
    simp only [tradeLoop, Option.some.injEq, Prod.mk.injEq] at h
    obtain ⟨rfl, rfl⟩ := h
    exact ⟨MetaDexStep.refl _ _ _, rfl⟩
  | cons r rest ih =>
    simp only [tradeLoop] at h
    split_ifs at h with hprice
    · exact ih hl.tail h
    · simp only [Option.bind_eq_some_iff, Prod.exists] at h
      obtain ⟨new₁, s₁, h1, h⟩ := h
      obtain ⟨hst, hl1, hnew⟩ := tradeOrder_step hl h1
      split_ifs at h with hdone
      · simp only [Option.some.injEq, Prod.mk.injEq] at h
        obtain ⟨rfl, rfl⟩ := h
        exact ⟨hst, hnew⟩
      · obtain ⟨hst', hnew'⟩ := ih hl1 h
        have hblock : new₁.block = new.block := by rw [hnew]
        rw [hblock] at hst'
        exact ⟨hst.trans hst', by rw [hnew', hnew]⟩

theorem xTrade_step (h : xTrade new s = some (new', s')) :
    MetaDexStep s s' new.block (fun _ => False) ∧
      new' = { new with amountRemaining := new'.amountRemaining } := by
  unfold xTrade at h
  cases hp : s.metadex.find? new.desiredProperty with
  | none =>
    simp only [hp, Option.some.injEq, Prod.mk.injEq] at h
    obtain ⟨rfl, rfl⟩ := h
    exact ⟨MetaDexStep.refl _ _ _, rfl⟩
  | some prices =>
    rw [hp] at h
    exact tradeLoop_step (listed_pricesOrders hp) h

/-! ### Adding -/

/-- What adding an order can do: match it, and put what is left into the book. -/
theorem metadexAdd_cases {amount : Int} {amountDesired : Int} {txid : Hash} {idx : Nat}
    (h : metadexAdd s sender p amount block desired amountDesired txid idx = some (rc, s')) :
    (rc < 0 ∧ s' = s) ∨
    ∃ new s₁, xTrade ⟨sender, block, p, amount, desired, amountDesired, txid, idx, amount⟩ s =
        some (new, s₁) ∧
      ((rc = 0 ∧ s' = s₁) ∨
        (rc < 0 ∧ s' = s₁ ∧ (s₁.orderAt new.property new.unitPrice (position block idx)).isSome) ∨
        (rc = 0 ∧ s₁.orderAt new.property new.unitPrice (position block idx) = none ∧
          transferTally (s₁.putOrder new.property new.unitPrice (position block idx) new) p
            new.amountRemaining (sender, .balance) (sender, .metadexReserve) = some s')) := by
  unfold metadexAdd at h
  dsimp only at h
  split_ifs at h with hprice
  · exact .inl (rejected (by decide) h)
  · simp only [Option.bind_eq_some_iff, Prod.exists] at h
    obtain ⟨new, s₁, h1, h⟩ := h
    refine .inr ⟨new, s₁, h1, ?_⟩
    have hnew := (xTrade_step h1).2
    have hpos : position new.block new.idx = position block idx := by rw [hnew]
    split_ifs at h with hleft
    · unfold metadexInsert at h
      rw [hpos] at h
      by_cases hc : (s₁.level new.property new.unitPrice).contains (position block idx) = true
      · rw [if_pos hc] at h
        obtain ⟨hrc, rfl⟩ := rejected (by decide) h
        exact .inr (.inl ⟨hrc, rfl, hc⟩)
      · rw [if_neg hc] at h
        simp only [do_eq_some, pure_eq_some, Prod.mk.injEq] at h
        obtain ⟨s₂, h2, rfl, rfl⟩ := h
        refine .inr (.inr ⟨rfl, ?_, h2⟩)
        simpa [contains, State.orderAt] using hc
    · simp only [Option.some.injEq, Prod.mk.injEq] at h
      exact .inl ⟨h.1.symm, h.2.symm⟩

theorem reserveOrder_step {o : CMPMetaDEx} {price : ℚ} {pos : Position} (block : Nat)
    (ho : s.orderAt o.property price pos = none)
    (h : transferTally (s.putOrder o.property price pos o) o.property o.amountRemaining
      (o.addr, .balance) (o.addr, .metadexReserve) = some s') :
    MetaDexStep s s' block fun x => x = pos := by
  have mv := transferTally_moved (by simp) (by simp) h
  have hbook : s'.metadex = (s.putOrder o.property price pos o).metadex := by rw [mv.frame]
  refine ⟨?_, fun a q t hb hm => ?_, fun a q => ?_, fun p price' x hx => ?_, fun _ q => ?_,
    fun hf q e he => ?_, fun _ hs => mv.solvent (hs.of_eq (fun _ _ _ => rfl) fun _ => rfl)⟩
  · rw [mv.frame]
    rfl
  · rw [mv.balance]
    simp only [Prod.mk.injEq, hb, hm, and_false, false_and, if_false, add_zero, sub_zero]
    rfl
  · rw [mv.balance, hbook, reservedBy_putOrder _ _ _ _ _ _ _ ho]
    have hw : orderWeight a q o = if (a = o.addr ∧ True) ∧ q = o.property then o.amountRemaining else 0 := by
      simp [orderWeight, eq_comm]
    have hsame : getTokenBalance (s.putOrder o.property price pos o) a q .metadexReserve =
        getTokenBalance s a q .metadexReserve := rfl
    simp only [Prod.mk.injEq, reduceCtorEq, and_false, false_and, if_false, hw, hsame]
    omega
  · have hx' : ((s.putOrder o.property price pos o).orderAt p price' x).isSome := by
      simpa [State.orderAt, State.level, hbook] using hx
    rw [State.orderAt_putOrder] at hx'
    split_ifs at hx' with hc
    · exact .inr hc.2.2
    · exact .inl hx'
  · exact mv.supply q
  · rw [mv.getCacheHistory_eq] at he
    exact hf q e he

theorem metadexAdd_step {amount : Int} {amountDesired : Int} {txid : Hash} {idx : Nat}
    (h : metadexAdd s sender p amount block desired amountDesired txid idx = some (rc, s')) :
    MetaDexStep s s' block fun x => x = position block idx := by
  rcases metadexAdd_cases h with ⟨-, rfl⟩ | ⟨new, s₁, h1, h⟩
  · exact MetaDexStep.refl _ _ _
  obtain ⟨hst, hnew⟩ := xTrade_step h1
  have hst1 : MetaDexStep s s₁ block fun x => x = position block idx :=
    hst.mono fun x hx => hx.elim
  rcases h with ⟨-, rfl⟩ | ⟨-, rfl, -⟩ | ⟨-, hfree, hput⟩
  · exact hst1
  · exact hst1
  · have hp : new.property = p := by rw [hnew]
    have ha : new.addr = sender := by rw [hnew]
    subst hp ha
    exact hst1.trans (reserveOrder_step block hfree hput)

/-! ### Cancelling -/

section
variable (block : Nat) (added : Position → Prop)

theorem cancelOrder_step {s₁ : State}
    (ho : s.orderAt r.property r.price r.pos = some r.order)
    (h : transferTally s r.order.property r.order.amountRemaining (r.order.addr, .metadexReserve)
      (r.order.addr, .balance) = some s₁) :
    MetaDexStep s (s₁.eraseOrder r.property r.price r.pos) block added ∧
      ∀ p price pos, (p, price, pos) ≠ r.place →
        (s₁.eraseOrder r.property r.price r.pos).orderAt p price pos = s.orderAt p price pos := by
  have mv := transferTally_moved (by simp) (by simp) h
  have hord : ∀ p price pos, s₁.orderAt p price pos = s.orderAt p price pos := fun p price pos => by
    rw [mv.frame]
    rfl
  have hbook : s₁.metadex = s.metadex := by rw [mv.frame]
  refine ⟨⟨?_, fun a q t hb hm => ?_, fun a q => ?_, fun p price x hx => ?_, fun _ q => ?_,
    fun hf q e he => ?_, fun _ hs => ?_⟩, fun p price pos hne => ?_⟩
  · rw [mv.frame]
    rfl
  · have := mv.balance a q t
    simp only [Prod.mk.injEq, hb, hm, and_false, false_and, if_false, add_zero, sub_zero] at this
    exact this
  · have hbal : getTokenBalance (s₁.eraseOrder r.property r.price r.pos) a q .metadexReserve =
        getTokenBalance s₁ a q .metadexReserve := rfl
    have hw : orderWeight a q r.order =
        if (a = r.order.addr ∧ True) ∧ q = r.order.property then r.order.amountRemaining else 0 := by
      simp [orderWeight, eq_comm]
    rw [hbal, mv.balance, reservedBy_eraseOrder _ _ _ _ _ _ _ (by rw [hord]; exact ho), hbook, hw]
    simp only [Prod.mk.injEq, reduceCtorEq, and_false, false_and, if_false]
    omega
  · rw [State.orderAt_eraseOrder, hord] at hx
    split_ifs at hx
    · simp at hx
    · exact .inl hx
  · exact mv.supply q
  · have he' : e ∈ (getCacheHistory s₁ q).entries := he
    rw [mv.getCacheHistory_eq] at he'
    exact hf q e he'
  · exact (mv.solvent hs).of_eq (fun _ _ _ => rfl) fun _ => rfl
  · rw [State.orderAt_eraseOrder, hord, if_neg]
    rintro ⟨rfl, rfl, rfl⟩
    exact hne rfl

theorem cancelLoop_step {sel : OrderRef → Bool}
    (hl : Listed s l) (h : cancelLoop sel l s = some s') :
    MetaDexStep s s' block added ∧ (l.any sel = false → s' = s) := by
  induction l generalizing s with
  | nil =>
    simp only [cancelLoop, Option.some.injEq] at h
    subst h
    exact ⟨MetaDexStep.refl _ _ _, fun _ => rfl⟩
  | cons r rest ih =>
    simp only [cancelLoop] at h
    split_ifs at h with hsel
    · simp only [do_eq_some] at h
      obtain ⟨s₁, h1, h⟩ := h
      obtain ⟨hst, hb⟩ := cancelOrder_step block added hl.head h1
      exact ⟨hst.trans (ih (hl.after hb) h).1, fun hany => by simp [hsel] at hany⟩
    · obtain ⟨hst, hsame⟩ := ih hl.tail h
      exact ⟨hst, fun hany => hsame (by simpa [hsel] using hany)⟩

/-- Cancelling moves reserves and book together; a negative code means that
nothing was cancelled. -/
theorem cancelOrders_step {sel : OrderRef → Bool} {nothing : Int}
    (hl : Listed s l)
    (h : cancelOrders s sel l nothing = some (rc, s')) :
    MetaDexStep s s' block added ∧ (rc < 0 → s' = s) := by
  simp only [cancelOrders, do_eq_some, pure_eq_some, Prod.mk.injEq] at h
  obtain ⟨s₁, h1, hrc, rfl⟩ := h
  obtain ⟨hst, hsame⟩ := cancelLoop_step block added hl h1
  refine ⟨hst, fun hneg => hsame ?_⟩
  by_contra hany
  rw [if_pos (by simpa using hany)] at hrc
  omega

theorem metadexCancelAtPrice_step {amount : Int} {amountDesired : Int}
    (h : metadexCancelAtPrice s sender p amount desired amountDesired = some (rc, s')) :
    MetaDexStep s s' block added ∧ (rc < 0 → s' = s) := by
  unfold metadexCancelAtPrice at h
  cases hp : s.metadex.find? p with
  | none =>
    rw [hp] at h
    obtain ⟨-, rfl⟩ := rejected (by decide) h
    exact ⟨MetaDexStep.refl _ _ _, fun _ => rfl⟩
  | some prices =>
    rw [hp] at h
    exact cancelOrders_step block added (listed_pricesOrders hp) h

theorem metadexCancelAllForPair_step
    (h : metadexCancelAllForPair s sender p desired = some (rc, s')) :
    MetaDexStep s s' block added ∧ (rc < 0 → s' = s) := by
  unfold metadexCancelAllForPair at h
  cases hp : s.metadex.find? p with
  | none =>
    rw [hp] at h
    obtain ⟨-, rfl⟩ := rejected (by decide) h
    exact ⟨MetaDexStep.refl _ _ _, fun _ => rfl⟩
  | some prices =>
    rw [hp] at h
    exact cancelOrders_step block added (listed_pricesOrders hp) h

theorem metadexCancelEverything_step {ecosystem : Nat}
    (h : metadexCancelEverything s sender ecosystem = some (rc, s')) :
    MetaDexStep s s' block added ∧ (rc < 0 → s' = s) :=
  cancelOrders_step block added (listed_bookOrders s) h

theorem metadexShutdown_step
    (h : metadexShutdown s = some (rc, s')) : MetaDexStep s s' block added :=
  (cancelOrders_step block added (listed_bookOrders s) h).1

end

/-! ### Runs -/

/-- The operations of the exchange, with their arguments. -/
inductive MetaDexOp
  | add (sender : Address) (p : PropertyId) (amount : Int) (block : Nat) (desired : PropertyId)
      (amountDesired : Int) (txid : Hash) (idx : Nat)
  | cancelAtPrice (sender : Address) (p : PropertyId) (amount : Int) (desired : PropertyId)
      (amountDesired : Int)
  | cancelAllForPair (sender : Address) (p desired : PropertyId)
  | cancelEverything (sender : Address) (ecosystem : Nat)
  | shutdown

/-- Call the operation. -/
def MetaDexOp.call (s : State) : MetaDexOp → Option (Int × State)
  | .add sender p amount block desired amountDesired txid idx =>
    metadexAdd s sender p amount block desired amountDesired txid idx
  | .cancelAtPrice sender p amount desired amountDesired =>
    metadexCancelAtPrice s sender p amount desired amountDesired
  | .cancelAllForPair sender p desired => metadexCancelAllForPair s sender p desired
  | .cancelEverything sender ecosystem => metadexCancelEverything s sender ecosystem
  | .shutdown => metadexShutdown s

/-- A run of operations. Each may fail with an error code; a failed assertion
ends the run. -/
def runMetaDex (s : State) : List MetaDexOp → Option State
  | [] => some s
  | op :: rest => do
    let (_, s) ← op.call s
    runMetaDex s rest

/-- The reserve of an address is what its open orders have left to sell. -/
def MetaDexReserved (s : State) : Prop :=
  ∀ a p, getTokenBalance s a p .metadexReserve = reservedBy s.metadex a p

theorem MetaDexStep.reserved {added : Position → Prop}
    (h : MetaDexStep s s' block added) (hi : MetaDexReserved s) : MetaDexReserved s' := by
  intro a p
  have hgap := h.gap a p
  rw [hi a p] at hgap
  omega

theorem MetaDexOp.call_reserved {op : MetaDexOp} (hi : MetaDexReserved s)
    (h : op.call s = some (rc, s')) : MetaDexReserved s' := by
  cases op with
  | add sender p amount block desired amountDesired txid idx => exact (metadexAdd_step h).reserved hi
  | cancelAtPrice sender p amount desired amountDesired =>
    exact (metadexCancelAtPrice_step 0 (fun _ => False) h).1.reserved hi
  | cancelAllForPair sender p desired =>
    exact (metadexCancelAllForPair_step 0 (fun _ => False) h).1.reserved hi
  | cancelEverything sender ecosystem =>
    exact (metadexCancelEverything_step 0 (fun _ => False) h).1.reserved hi
  | shutdown => exact (metadexShutdown_step 0 (fun _ => False) h).reserved hi

theorem runMetaDex_reserved {ops : List MetaDexOp} (hi : MetaDexReserved s)
    (h : runMetaDex s ops = some s') : MetaDexReserved s' := by
  induction ops generalizing s with
  | nil =>
    simp only [runMetaDex, Option.some.injEq] at h
    exact h ▸ hi
  | cons op rest ih =>
    simp only [runMetaDex, do_eq_some, Prod.exists] at h
    obtain ⟨rc, s₁, h1, h2⟩ := h
    exact ih (op.call_reserved hi h1) h2

/-- **The reserve invariant.** From an empty book with nothing reserved, after
any run of operations, every address's reserve of every property is the sum of
what its open orders still have for sale. The operations need no checks by
their callers for this. -/
theorem metadex_reserve_eq_open_orders {s₀ s : State} {ops : List MetaDexOp} (hbook : s₀.metadex = ∅)
    (hempty : ∀ a p, getTokenBalance s₀ a p .metadexReserve = 0) (h : runMetaDex s₀ ops = some s)
    (a : Address) (p : PropertyId) :
    getTokenBalance s a p .metadexReserve = reservedBy s.metadex a p :=
  runMetaDex_reserved (fun a p => by simp [hbook, hempty, reservedBy]) h a p

/-- Two traders, who own tokens of property 3 and of property 4. -/
def traders : State where
  cfg := ⟨.regtest, [], [], [], [], false, "exodus", fun _ => true, fun _ => 0⟩
  params := regTestConsensusParams
  tally := ((∅ : TallyMap).insert "alice" ((∅ : CMPTally).insert 3 { balance := 100 })).insert "bob"
    ((∅ : CMPTally).insert 4 { balance := 100 })

/-- Alice's order is filled in two trades; the rest of Bob's second order stays. -/
def tradersRun : List MetaDexOp :=
  [.add "alice" 3 100 10 4 50 1 0, .add "bob" 4 21 10 3 40 2 1, .add "bob" 4 60 10 3 110 3 2,
    .cancelAllForPair "carol" 3 4]

theorem traders_reserved_nothing (a : Address) (p : PropertyId) :
    getTokenBalance traders a p .metadexReserve = 0 := by
  simp only [getTokenBalance, traders, find?_insert]
  split_ifs
  · simp only [CMPTally.getMoney, find?_insert]
    split_ifs <;> rfl
  · simp only [CMPTally.getMoney, find?_insert]
    split_ifs <;> rfl
  · rfl

theorem metadex_reserve_of_traders :
    ∃ s, runMetaDex traders tradersRun = some s ∧ reservedBy s.metadex "bob" 4 = 31 ∧
      getTokenBalance s "bob" 4 .metadexReserve = reservedBy s.metadex "bob" 4 := by
  have hrun : (runMetaDex traders tradersRun).map (fun s => reservedBy s.metadex "bob" 4) = some 31 := by
    decide +kernel
  obtain ⟨s, hs, hb⟩ := Option.map_eq_some_iff.mp hrun
  exact ⟨s, hs, hb, metadex_reserve_eq_open_orders rfl traders_reserved_nothing hs "bob" 4⟩

end Rapids.Token
