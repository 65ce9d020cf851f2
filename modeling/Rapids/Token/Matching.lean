import Rapids.Token.FeeCalls

/-!
# Rapids.Token.Matching

**Orders trade within their limits.** What an order trades is decided by the book alone: the
**planned fills** are those of the loops of `x_Trade` with the tokens left out. Every planned
fill is fair to both orders, so an order never gives more for what it gets than it asked to,
over its whole life.

The loops carry out the plan. Sender and resting orders have what they sell, no balance
overflows, and every assertion holds, with one exception: the fees go into a cache whose
distribution needs a holder of the reserved token (`Rapids.Token.FeeCalls`). Fees are
**covered** if they stay below the threshold or there is one.
-/

namespace Rapids.Token

open Rapids.Lib

/-! ### Planned fills -/

/-- The fills of a new order along a list of orders, decided without moving any tokens. -/
def plannedFills : List OrderRef → CMPMetaDEx → List Fill
  | [], _ => []
  | r :: rest, new =>
    if new.inversePrice < r.price then plannedFills rest new
    else
      match fillOf new r with
      | none => plannedFills rest new
      | some (got, paid) =>
        ⟨new, r, got, paid⟩ ::
          if new.amountRemaining - paid = 0 then []
          else plannedFills rest { new with amountRemaining := new.amountRemaining - paid }

/-- The fills that `x_Trade` makes for a new order. -/
def State.plannedFills (s : State) (new : CMPMetaDEx) : List Fill :=
  Rapids.Token.plannedFills
    (MdPricesMap.orders new.desiredProperty ((s.metadex.find? new.desiredProperty).getD ∅)) new

/-- What they cost in fees. -/
def feesOf (fills : List Fill) : Int := (fills.map fun f => f.got.tdiv 2000).sum

/-- Are fees taken from the fills of an order? -/
def chargesFee (s : State) (new : CMPMetaDEx) : Bool :=
  isFeatureActivated s.params Feature.fees.id new.block &&
    decide (propertyTMSC < new.desiredProperty) && decide (propertyTMSC < new.property)

/-- Whatever fees the fills put into the cache, they stay there or find a holder. -/
def FeesCovered (s : State) (new : CMPMetaDEx) (fills : List Fill) : Prop :=
  chargesFee s new = true → fills ≠ [] → (FeeOp.addFee (feesOf fills)).IsDue s new.desiredProperty →
    BaseHeld s new.desiredProperty

/-! ### Markets -/

/-- A state in which a new order meets a list of orders of the book. -/
structure Market (s : State) (new : CMPMetaDEx) (l : List OrderRef) : Prop where
  ledger : LedgerInv s
  book : BookInv s
  fees : FeesUpTo s new.block
  listed : Listed s l
  /-- They sell what the new order desires. -/
  selling : ∀ r ∈ l, r.property = new.desiredProperty
  incoming : OpenOrder new
  pair : new.property ≠ new.desiredProperty
  /-- The sender has what the order has left to sell. -/
  funded : new.amountRemaining ≤ getTokenBalance s new.addr new.property .balance
  notFrozen : isAddressFrozen s new.addr new.property = false

section
variable {s s' : State} {new new' : CMPMetaDEx} {l rest : List OrderRef} {r : OrderRef} {got paid : Int}

theorem Market.head (hm : Market s new (r :: rest)) :
    InBook r.property r.price r.pos r.order ∧ r.order.property = new.desiredProperty := by
  have hplace := hm.book.placed.ref hm.listed.head
  exact ⟨hplace, hplace.property.trans (hm.selling r (.head _))⟩

theorem Market.tail (hm : Market s new (r :: rest)) : Market s new rest :=
  { hm with
    listed := hm.listed.tail
    selling := fun r' hr' => hm.selling r' (.tail _ hr') }

theorem Market.fits (hm : Market s new l) : new.amountRemaining ≤ i64Max :=
  hm.incoming.within.trans hm.incoming.forsaleFits

theorem unitPrice_le_inversePrice {old : CMPMetaDEx} (hnew : OpenOrder new) (hold : OpenOrder old)
    (h : old.unitPrice ≤ new.inversePrice) : new.unitPrice ≤ old.inversePrice := by
  have hnewDesired : (0 : ℚ) < new.amountDesired := Int.cast_pos.mpr hnew.desired
  have hnewForsale : (0 : ℚ) < new.amountForsale := Int.cast_pos.mpr hnew.forsale
  have holdDesired : (0 : ℚ) < old.amountDesired := Int.cast_pos.mpr hold.desired
  have holdForsale : (0 : ℚ) < old.amountForsale := Int.cast_pos.mpr hold.forsale
  rw [hold.unitPrice_eq, hnew.inversePrice_eq, div_le_div_iff₀ holdForsale hnewDesired] at h
  rw [hnew.unitPrice_eq, hold.inversePrice_eq, div_le_div_iff₀ hnewForsale holdDesired]
  linarith

section
variable (hm : Market s new (r :: rest))
include hm

theorem Market.tradeAsserts (hprice : ¬ new.inversePrice < r.price) :
    tradeAsserts new r.order := by
  obtain ⟨hplace, hproperty⟩ := hm.head
  have hcross : r.order.unitPrice ≤ new.inversePrice := by
    rw [hplace.unitPrice]
    exact not_lt.mp hprice
  exact ⟨hplace.remaining, hm.incoming.remaining, hm.pair, hproperty, hcross,
    unitPrice_le_inversePrice hm.incoming hplace.toOpenOrder hcross⟩

theorem Market.tradeOrder_eq (hprice : ¬ new.inversePrice < r.price) :
    tradeOrder new r s =
      (fillOf new r).elim (some (new, s)) fun fill => executeTrade new r fill.1 fill.2 s := by
  obtain ⟨hplace, -⟩ := hm.head
  have hasserts := hm.tradeAsserts hprice
  unfold tradeOrder fillOf
  rw [if_neg (not_not.mpr hplace.unitPrice)]
  by_cases hpair : r.order.desiredProperty = new.property
  · rw [if_neg (not_not.mpr hpair), if_neg (not_not.mpr hpair), if_neg (not_not.mpr hasserts)]
    obtain ⟨got, hgot, hnonneg, hle, hpay⟩ := exists_amountCouldBuy hm.incoming.remaining.le hplace.toOpenOrder
    rw [hgot, Option.bind_some, Option.bind_some]
    by_cases hzero : got = 0
    · rw [if_pos hzero, if_pos hzero]
      rfl
    · obtain ⟨paid, hpaid, -⟩ := exists_amountWouldPay hm.fits hplace.toOpenOrder (by omega) hpay
      rw [if_neg hzero, if_neg hzero, hpaid, Option.bind_some, Option.bind_some]
      by_cases hdear : new.inversePrice < (paid : ℚ) / got
      · rw [if_pos hdear, if_pos hdear]
        rfl
      · rw [if_neg hdear, if_neg hdear]
        rfl
  · rw [if_pos hpair, if_pos hpair]
    rfl

theorem Market.fair (hfill : fillOf new r = some (got, paid)) :
    FairFill new r.order got paid :=
  fillOf_fair hm.incoming.remaining.le hm.fits hm.head.1.toOpenOrder hfill

theorem Market.takesFee_eq (hfill : fillOf new r = some (got, paid)) :
    takesFee s new r.order = chargesFee s new := by
  unfold takesFee chargesFee
  rw [hm.head.2, (fillOf_eq_some hfill).1]

end

/-! ### Carrying out a fill -/

theorem balance_le_supply_bound (hs : Solvent s) {q : PropertyId} {bound : Int} (h : supply s q ≤ bound)
    (a : Address) : getTokenBalance s a q .balance ≤ bound := by
  have hbal := balance_le_held hs a q
  have hcached := hs.cached q
  unfold supply at h
  omega

theorem chargeFee_other {s₁ : State} {old : CMPMetaDEx} (h : chargeFee s new old got = some s₁) :
    s₁.distributionThresholds = s.distributionThresholds ∧
      ∀ a q t, q ≠ new.desiredProperty → getTokenBalance s₁ a q t = getTokenBalance s a q t := by
  unfold chargeFee at h
  split_ifs at h
  · exact addFee_other h
  · cases h
    exact ⟨rfl, fun _ _ _ _ => rfl⟩

section
variable (hm : Market s new (r :: rest)) (hfill : fillOf new r = some (got, paid))
include hm hfill

theorem Market.executeTrade_isSome {s₁ : State}
    (h1 : chargeFee s new r.order got = some s₁) :
    ∃ out, executeTrade new r got paid s = some out := by
  obtain ⟨hplace, hproperty⟩ := hm.head
  have hfair := hm.fair hfill
  have hpays := (fillOf_eq_some hfill).1
  have hgot := hfair.got_pos
  have hpaid := hfair.paid_pos
  have hgotLe := hfair.got_le
  have hpaidLe := hfair.paid_le
  have hfunded := hm.funded
  obtain ⟨hfee, hless⟩ := @tradingFee_lt s new r.order got hgot
  have f₁ := chargeFee_feeStep (by omega) h1
  have hs1 := f₁.solvent hm.fees hm.ledger.solvent
  have hsup1 := f₁.supply hm.fees
  -- the sender pays from what the order has left
  have hbal1 := (chargeFee_other h1).2 new.addr new.property .balance hm.pair
  have hfrozen1 : isAddressFrozen s₁ new.addr new.property = false := by
    rw [f₁.frame]
    exact hm.notFrozen
  obtain ⟨s₂, h2⟩ := @assertTally_isSome s₁ new.addr new.property (-paid) .balance (by omega) (by omega)
    (fun _ => by unfold i64Min; omega) (fun _ => by omega) fun _ _ => hfrozen1
  have t₂ := assertTally_spec h2
  have hsup2 : supply s₂ new.property ≤ i64Max - paid := by
    have hbounded := hm.ledger.bounded new.property
    rw [t₂.supply_eq, hsup1, if_neg hm.pair, if_pos ⟨rfl, by decide⟩]
    omega
  -- the owner of the resting order has room for it
  have hroom2 := balance_le_supply_bound (t₂.solvent hs1) hsup2 r.order.addr
  have hnonneg2 := (t₂.solvent hs1).nonneg r.order.addr new.property .balance (by decide)
  obtain ⟨s₃, h3⟩ := @assertTally_isSome s₂ r.order.addr r.order.desiredProperty paid .balance (by omega)
    (fun _ => by rw [hpays]; omega) (by omega) (fun _ => by rw [hpays]; omega) (by omega)
  have t₃ := assertTally_spec h3
  -- its tokens are still reserved
  have hreserve : getTokenBalance s₃ r.order.addr r.order.property .metadexReserve =
      getTokenBalance s r.order.addr r.order.property .metadexReserve := by
    rw [t₃.balance, if_neg (by simp), t₂.balance, if_neg (by simp), f₁.reserves _ _ _ (by decide), add_zero,
      add_zero]
  have hordered : s.orderAt r.order.property r.price r.pos = some r.order := by
    rw [hplace.property]
    exact hm.listed.head
  have hreserved := reserve_of_order hm.book hordered
  obtain ⟨s₄, h4⟩ := @assertTally_isSome s₃ r.order.addr r.order.property (-got) .metadexReserve (by omega)
    (by omega) (fun _ => by unfold i64Min; omega) (fun _ => by omega) (by simp)
  have t₄ := assertTally_spec h4
  have hs4 := t₄.solvent (t₃.solvent (t₂.solvent hs1))
  -- and the sender has room for what is left of them after the fee
  have hsup4 : supply s₄ new.desiredProperty ≤ i64Max - (got - tradingFee s new r.order got) := by
    have hbounded := hm.ledger.bounded new.desiredProperty
    rw [t₄.supply_eq, t₃.supply_eq, t₂.supply_eq, hsup1, hproperty, hpays, if_pos rfl,
      if_neg fun hc => hm.pair hc.1.symm, if_neg fun hc => hm.pair hc.1.symm, if_pos ⟨rfl, by decide⟩]
    omega
  have hroom4 := balance_le_supply_bound hs4 hsup4 new.addr
  have hnonneg4 := hs4.nonneg new.addr new.desiredProperty .balance (by decide)
  obtain ⟨s₅, h5⟩ := @assertTally_isSome s₄ new.addr new.desiredProperty (got - tradingFee s new r.order got)
    .balance (by omega) (fun _ => by omega) (by omega) (fun _ => by omega) (by omega)
  unfold executeTrade
  rw [if_neg (not_not.mpr ⟨hfair.resting, by omega, by omega⟩)]
  simp only [h1, h2, h3, h4, h5, Option.bind_eq_bind, Option.bind_some, Option.pure_def]
  exact ⟨_, rfl⟩

theorem Market.executeTrade_isSome_iff :
    (executeTrade new r got paid s).isSome = true ↔ (chargeFee s new r.order got).isSome = true := by
  constructor
  · intro h
    obtain ⟨out, h⟩ := Option.isSome_iff_exists.mp h
    obtain ⟨new', s'⟩ := out
    obtain ⟨s₁, -, -, -, -, h1, -⟩ := executeTrade_cases h
    exact Option.isSome_iff_exists.mpr ⟨s₁, h1⟩
  · intro h
    obtain ⟨s₁, h1⟩ := Option.isSome_iff_exists.mp h
    exact Option.isSome_iff_exists.mpr (hm.executeTrade_isSome hfill h1)

/-! ### After a fill -/

/-- What a fill leaves alone, and what the sender still has. -/
structure FillEffect (s s' : State) (new : CMPMetaDEx) (paid : Int) : Prop where
  other : ∀ a q t, q ≠ new.property → q ≠ new.desiredProperty →
    getTokenBalance s' a q t = getTokenBalance s a q t
  funded : getTokenBalance s new.addr new.property .balance - paid ≤
    getTokenBalance s' new.addr new.property .balance
  frozen : s'.frozen = s.frozen
  params : s'.params = s.params
  thresholds : s'.distributionThresholds = s.distributionThresholds

theorem Market.filled
    (h : executeTrade new r got paid s = some (new', s')) :
    FillEffect s s' new paid ∧ new' = { new with amountRemaining := new.amountRemaining - paid } ∧
      ∃ s₁, chargeFee s new r.order got = some s₁ ∧ ∀ q, getCachedAmount s' q = getCachedAmount s₁ q := by
  have hproperty := hm.head.2
  have hpays := (fillOf_eq_some hfill).1
  have hpaid := (hm.fair hfill).paid_pos
  have hgot := (hm.fair hfill).got_pos
  have hpair := hm.pair
  obtain ⟨s₁, s₂, s₃, s₄, s₅, h1, h2, h3, h4, h5, rfl, rfl⟩ := executeTrade_cases h
  obtain ⟨hthresholds, hother⟩ := chargeFee_other h1
  have f₁ := chargeFee_feeStep (by omega) h1
  have t₂ := assertTally_spec h2
  have t₃ := assertTally_spec h3
  have t₄ := assertTally_spec h4
  have t₅ := assertTally_spec h5
  have hreplace := replaceOrder_frame s₅ r (r.order.amountRemaining - got)
  have hsame : ∀ a q t, getTokenBalance (replaceOrder s₅ r (r.order.amountRemaining - got)) a q t =
      getTokenBalance s₅ a q t := fun a q t => by
    rw [hreplace]
    rfl
  have hframe : s₅ = { s₁ with tally := s₅.tally } := by rw [t₅.frame, t₄.frame, t₃.frame, t₂.frame]
  refine ⟨⟨fun a q t hq hq' => ?_, ?_, ?_, ?_, ?_⟩, rfl, s₁, h1, fun q => ?_⟩
  · rw [hsame, t₅.balance, t₄.balance, t₃.balance, t₂.balance, hother a q t hq', hproperty, hpays,
      if_neg fun hc => hq hc.2.1, if_neg fun hc => hq hc.2.1, if_neg fun hc => hq' hc.2.1,
      if_neg fun hc => hq' hc.2.1]
    omega
  · rw [hsame, t₅.balance, t₄.balance, t₃.balance, t₂.balance, hother _ _ _ hpair, hproperty, hpays]
    simp only [hpair, false_and, and_false, and_self, if_false, if_true]
    split_ifs <;> omega
  · rw [hreplace, hframe, f₁.frame]
  · rw [hreplace, hframe, f₁.frame]
  · rw [hreplace, hframe]
    exact hthresholds
  · rw [hreplace, hframe]
    rfl

end

theorem Market.after (hm : Market s new (r :: rest)) (hprice : ¬ new.inversePrice < r.price)
    (hfill : fillOf new r = some (got, paid)) (h : executeTrade new r got paid s = some (new', s'))
    (hleft : new'.amountRemaining ≠ 0) : Market s' new' rest := by
  have hround : tradeOrder new r s = some (new', s') := by
    rw [hm.tradeOrder_eq hprice, hfill]
    exact h
  obtain ⟨hstep, hlisted, -⟩ := tradeOrder_step hm.listed hround
  obtain ⟨hplaced, hnonneg, hle⟩ := tradeOrder_placed hm.book.placed ⟨hm.incoming.remaining.le, hm.fits⟩
    hm.listed.head hround
  obtain ⟨hfilled, rfl, -⟩ := hm.filled hfill h
  have hincoming := hm.incoming
  have hfunded := hm.funded
  have hpays := hfilled.funded
  dsimp only at hleft hnonneg hle
  refine ⟨hstep.ledgerInv hm.fees hm.ledger, ⟨hplaced, hstep.reserved hm.book.reserved⟩,
    hstep.feesUpTo hm.fees, hlisted, hm.tail.selling,
    ⟨by dsimp only; omega, hle.trans hincoming.within, hincoming.forsaleFits, hincoming.desired⟩, hm.pair,
    by dsimp only; omega, ?_⟩
  have hfrozen := hm.notFrozen
  unfold isAddressFrozen at hfrozen ⊢
  rw [hfilled.frozen]
  exact hfrozen

theorem FillEffect.chargesFee (h : FillEffect s s' new paid) (left : Int) :
    chargesFee s' { new with amountRemaining := left } = chargesFee s new := by
  unfold Token.chargesFee
  rw [h.params]

theorem FillEffect.baseHeld_iff (h : FillEffect s s' new paid) (hcharges : Token.chargesFee s new = true) :
    BaseHeld s' new.desiredProperty ↔ BaseHeld s new.desiredProperty := by
  unfold Token.chargesFee at hcharges
  simp only [Bool.and_eq_true, decide_eq_true_eq] at hcharges
  obtain ⟨⟨-, hdesired⟩, hsold⟩ := hcharges
  have hbase : baseToken new.desiredProperty ≤ propertyTMSC := by
    unfold baseToken
    split_ifs <;> decide
  refine baseHeld_congr fun a t => h.other a _ t ?_ ?_
  · exact (hbase.trans_lt hsold).ne
  · exact (hbase.trans_lt hdesired).ne

/-! ### Fees along the plan -/

theorem plannedFills_forall {P : Fill → Prop} (hopen : ∀ r ∈ l, OpenOrder r.order) (hnew : OpenOrder new)
    (h : ∀ new r got paid, OpenOrder new → OpenOrder r.order → fillOf new r = some (got, paid) →
      P ⟨new, r, got, paid⟩) : ∀ f ∈ plannedFills l new, P f := by
  induction l generalizing new with
  | nil => exact fun f hf => absurd hf List.not_mem_nil
  | cons r rest ih =>
    have hrest : ∀ r ∈ rest, OpenOrder r.order := fun r hr => hopen r (.tail _ hr)
    rw [plannedFills]
    split_ifs with hprice
    · exact ih hrest hnew
    · cases hfill : fillOf new r with
      | none => exact ih hrest hnew
      | some fill =>
        obtain ⟨got, paid⟩ := fill
        have hr := hopen r (.head _)
        have hwithin := hnew.within
        have hfair := fillOf_fair hnew.remaining.le (hwithin.trans hnew.forsaleFits) hr hfill
        have hpaid := hfair.paid_pos
        have hle := hfair.paid_le
        intro f hf
        rcases List.mem_cons.mp hf with rfl | hf
        · exact h new r got paid hnew hr hfill
        · split_ifs at hf with hleft
          · cases hf
          · have hnew' : OpenOrder { new with amountRemaining := new.amountRemaining - paid } :=
              ⟨by dsimp only; omega, by dsimp only; omega, hnew.forsaleFits, hnew.desired⟩
            exact ih hrest hnew' f hf

theorem plannedFills_fair (hopen : ∀ r ∈ l, OpenOrder r.order) (hnew : OpenOrder new) :
    ∀ f ∈ plannedFills l new, FairFill f.new f.ref.order f.got f.paid :=
  plannedFills_forall hopen hnew fun _ _ _ _ hnew hr hfill =>
    fillOf_fair hnew.remaining.le (hnew.within.trans hnew.forsaleFits) hr hfill

theorem feesOf_cons (f : Fill) (fills : List Fill) : feesOf (f :: fills) = f.got.tdiv 2000 + feesOf fills := by
  unfold feesOf
  rw [List.map_cons, List.sum_cons]

theorem feesOf_nonneg {fills : List Fill} (h : ∀ f ∈ fills, FairFill f.new f.ref.order f.got f.paid) :
    0 ≤ feesOf fills := by
  refine List.sum_nonneg fun x hx => ?_
  obtain ⟨f, hf, rfl⟩ := List.mem_map.mp hx
  have hgot := (h f hf).got_pos
  exact Int.tdiv_nonneg (by omega) (by decide)

theorem Market.openOrders (hm : Market s new l) : ∀ r ∈ l, OpenOrder r.order :=
  fun r hr => (hm.book.placed.ref (hm.listed.found r hr)).toOpenOrder

section
variable (hm : Market s new (r :: rest)) (hfill : fillOf new r = some (got, paid))
include hm hfill

theorem Market.fee_bounds :
    0 ≤ got.tdiv 2000 ∧ ∀ a, getTokenBalance s a new.desiredProperty .balance +
      (getCachedAmount s new.desiredProperty + got.tdiv 2000) ≤ i64Max := by
  obtain ⟨hplace, hproperty⟩ := hm.head
  have hgot := (hm.fair hfill).got_pos
  have hle := (hm.fair hfill).got_le
  have htdiv : got.tdiv 2000 = got / 2000 := Int.tdiv_eq_ediv_of_nonneg (by omega)
  have ho : s.orderAt r.order.property r.price r.pos = some r.order := by
    rw [hplace.property]
    exact hm.listed.head
  rw [← hproperty]
  exact ⟨by omega, fee_fits hm.ledger hm.book ho (by omega)⟩

theorem Market.chargeFee_eq
    (hcharges : chargesFee s new = true) :
    chargeFee s new r.order got = addFee s new.desiredProperty new.block (got.tdiv 2000) := by
  have htakes : takesFee s new r.order = true := (hm.takesFee_eq hfill).trans hcharges
  unfold chargeFee tradingFee
  rw [if_pos htakes, if_pos htakes]

theorem Market.fill_isSome_iff :
    (executeTrade new r got paid s).isSome = true ↔
      (chargesFee s new = true → (FeeOp.addFee (got.tdiv 2000)).IsDue s new.desiredProperty →
        BaseHeld s new.desiredProperty) := by
  rw [hm.executeTrade_isSome_iff hfill]
  by_cases hcharges : chargesFee s new = true
  · obtain ⟨hfee, hroom⟩ := hm.fee_bounds hfill
    rw [hm.chargeFee_eq hfill hcharges, addFee_isSome_iff hm.ledger.solvent hm.fees hfee hroom]
    exact ⟨fun h _ => h, fun h => h hcharges⟩
  · have hfree : chargeFee s new r.order got = some s := by
      unfold chargeFee
      rw [hm.takesFee_eq hfill, if_neg hcharges]
    rw [hfree]
    exact ⟨fun _ hc => absurd hc hcharges, fun _ => rfl⟩

theorem Market.fee_cached
    (hcharges : chargesFee s new = true) (hheld : ¬ BaseHeld s new.desiredProperty)
    (h : executeTrade new r got paid s = some (new', s')) :
    ¬ (FeeOp.addFee (got.tdiv 2000)).IsDue s new.desiredProperty ∧
      getCachedAmount s' new.desiredProperty = getCachedAmount s new.desiredProperty + got.tdiv 2000 := by
  have hnot : ¬ (FeeOp.addFee (got.tdiv 2000)).IsDue s new.desiredProperty := fun hdue =>
    hheld ((hm.fill_isSome_iff hfill).mp (by rw [h]; rfl) hcharges hdue)
  obtain ⟨hfee, hroom⟩ := hm.fee_bounds hfill
  obtain ⟨-, -, s₁, h1, hcached⟩ := hm.filled hfill h
  rw [hm.chargeFee_eq hfill hcharges] at h1
  obtain ⟨s₂, h2, hcase⟩ := (addFee_settles_iff hm.ledger.solvent hm.fees hfee hroom).mpr fun hdue =>
    absurd hdue hnot
  obtain rfl : s₁ = s₂ := Option.some.inj (h1.symm.trans h2)
  rcases hcase with hdue | hsame
  · exact absurd hdue.1 hnot
  · exact ⟨hnot, by rw [hcached, hsame.2.cached, if_pos rfl]; rfl⟩

/-- Along a plan, fees are covered if they are for its first fill and for the rest. -/
theorem Market.feesCovered_cons
    (h : executeTrade new r got paid s = some (new', s')) (fills : List Fill) :
    FeesCovered s new (⟨new, r, got, paid⟩ :: fills) ↔ FeesCovered s' new' fills := by
  obtain ⟨hfilled, rfl, -⟩ := hm.filled hfill h
  unfold FeesCovered
  rw [hfilled.chargesFee, feesOf_cons]
  by_cases hcharges : chargesFee s new = true
  · rw [hfilled.baseHeld_iff hcharges]
    by_cases hheld : BaseHeld s new.desiredProperty
    · exact ⟨fun _ _ _ _ => hheld, fun _ _ _ _ => hheld⟩
    · -- what is due of the rest is what is due of all, as nothing was distributed
      obtain ⟨hnot, hcached⟩ := hm.fee_cached hfill hcharges hheld h
      have hdue : (FeeOp.addFee (feesOf fills)).IsDue s' new.desiredProperty ↔
          (FeeOp.addFee (got.tdiv 2000 + feesOf fills)).IsDue s new.desiredProperty := by
        simp [FeeOp.IsDue, FeeOp.threshold, FeeOp.amount, hfilled.thresholds, hcached, add_assoc]
      rw [hdue]
      constructor
      · intro hall hc _ hd
        exact hall hc (by simp) hd
      · intro hrest hc _ hd
        by_cases hnil : fills = []
        · subst hnil
          exact absurd (by simpa [feesOf] using hd) hnot
        · exact hrest hc hnil hd
  · exact ⟨fun _ hc => absurd hc hcharges, fun _ hc => absurd hc hcharges⟩

end

/-! ### The loops -/

/-- The loops run to their end if and only if the fees of the plan are covered. -/
theorem Market.tradeLoop_isSome_iff (hm : Market s new l) :
    (tradeLoop l new s).isSome = true ↔ FeesCovered s new (plannedFills l new) := by
  induction l generalizing new s with
  | nil => exact ⟨fun _ _ hne => absurd rfl hne, fun _ => rfl⟩
  | cons r rest ih =>
    rw [tradeLoop, plannedFills]
    by_cases hprice : new.inversePrice < r.price
    · rw [if_pos hprice, if_pos hprice]
      exact ih hm.tail
    rw [if_neg hprice, if_neg hprice, hm.tradeOrder_eq hprice]
    cases hfill : fillOf new r with
    | none =>
      rw [Option.elim_none, Option.bind_some, if_neg hm.incoming.remaining.ne']
      exact ih hm.tail
    | some fill =>
      obtain ⟨got, paid⟩ := fill
      dsimp only [Option.elim_some]
      cases hex : executeTrade new r got paid s with
      | none =>
        -- the first fee is due, so all of them are
        have hblocked := (hm.fill_isSome_iff hfill).not.mp (by rw [hex]; simp)
        push Not at hblocked
        obtain ⟨hcharges, hdue, hheld⟩ := hblocked
        have hfair := plannedFills_fair hm.openOrders hm.incoming
        rw [plannedFills, if_neg hprice, hfill] at hfair
        have hrest := feesOf_nonneg fun f hf => hfair f (.tail _ hf)
        rw [Option.bind_none]
        constructor
        · intro h
          cases h
        · intro hcovered
          refine absurd (hcovered hcharges (by simp) ?_) hheld
          rw [feesOf_cons]
          simp only [FeeOp.IsDue, FeeOp.threshold, FeeOp.amount] at hdue ⊢
          omega
      | some out =>
        obtain ⟨new', s'⟩ := out
        have hnew := (hm.filled hfill hex).2.1
        rw [Option.bind_some, hm.feesCovered_cons hfill hex]
        have hleft : new'.amountRemaining = new.amountRemaining - paid := by rw [hnew]
        rw [← hnew, ← hleft]
        by_cases hdone : new'.amountRemaining = 0
        · rw [if_pos hdone, if_pos hdone]
          exact ⟨fun _ _ hne => absurd rfl hne, fun _ => rfl⟩
        · rw [if_neg hdone, if_neg hdone]
          exact ih (hm.after hprice hfill hex hdone)

/-- They fill what is planned, and what the new order has left is still there. -/
theorem Market.tradeLoop_spec (hm : Market s new l) (h : tradeLoop l new s = some (new', s')) :
    tradeFills l new s = plannedFills l new ∧ (new'.amountRemaining ≠ 0 → Market s' new' []) := by
  induction l generalizing new s with
  | nil =>
    cases h
    exact ⟨rfl, fun _ => hm⟩
  | cons r rest ih =>
    rw [tradeLoop] at h
    rw [tradeFills, plannedFills]
    by_cases hprice : new.inversePrice < r.price
    · rw [if_pos hprice] at h ⊢
      rw [if_pos hprice]
      exact ih hm.tail h
    rw [if_neg hprice] at h ⊢
    rw [if_neg hprice]
    rw [hm.tradeOrder_eq hprice] at h ⊢
    unfold roundFill
    cases hfill : fillOf new r with
    | none =>
      rw [hfill, Option.elim_none, Option.bind_some, if_neg hm.incoming.remaining.ne'] at h
      dsimp only [Option.elim_none]
      rw [if_neg hm.incoming.remaining.ne']
      exact ih hm.tail h
    | some fill =>
      obtain ⟨got, paid⟩ := fill
      rw [hfill] at h
      dsimp only [Option.elim_some] at h ⊢
      obtain ⟨out, hex, h⟩ := Option.bind_eq_some_iff.mp h
      obtain ⟨new₁, s₁⟩ := out
      have hnew := (hm.filled hfill hex).2.1
      have hleft : new₁.amountRemaining = new.amountRemaining - paid := by rw [hnew]
      rw [hex, ← hnew, ← hleft]
      dsimp only at h ⊢
      by_cases hdone : new₁.amountRemaining = 0
      · rw [if_pos hdone] at h ⊢
        cases h
        exact ⟨by rw [if_pos hdone]; rfl, fun hc => absurd hdone hc⟩
      · rw [if_neg hdone] at h ⊢
        obtain ⟨hfills, hend⟩ := ih (hm.after hprice hfill hex hdone) h
        exact ⟨by rw [if_neg hdone, hfills]; rfl, hend⟩

/-! ### Adding an order -/

section
variable (hm : Market s new [])
include hm

theorem Market.meet {prices : MdPricesMap}
    (hp : s.metadex.find? new.desiredProperty = some prices) :
    Market s new (MdPricesMap.orders new.desiredProperty prices) :=
  { hm with
    listed := listed_pricesOrders hp
    selling := fun _ hr => (mem_pricesOrders hr).1 }

theorem Market.xTrade_isSome_iff :
    (xTrade new s).isSome = true ↔ FeesCovered s new (s.plannedFills new) := by
  unfold xTrade State.plannedFills
  cases hp : s.metadex.find? new.desiredProperty with
  | none => exact ⟨fun _ _ hne => absurd rfl hne, fun _ => rfl⟩
  | some prices => exact (hm.meet hp).tradeLoop_isSome_iff

theorem Market.xTrade_spec (h : xTrade new s = some (new', s')) :
    xTradeFills new s = s.plannedFills new ∧ (new'.amountRemaining ≠ 0 → Market s' new' []) := by
  unfold xTrade at h
  unfold xTradeFills State.plannedFills
  cases hp : s.metadex.find? new.desiredProperty with
  | none =>
    rw [hp] at h
    cases h
    exact ⟨rfl, fun _ => hm⟩
  | some prices =>
    rw [hp] at h
    exact (hm.meet hp).tradeLoop_spec h

theorem Market.plannedFills_fair :
    ∀ f ∈ s.plannedFills new, FairFill f.new f.ref.order f.got f.paid := by
  unfold State.plannedFills
  refine Token.plannedFills_fair ?_ hm.incoming
  cases hp : s.metadex.find? new.desiredProperty with
  | none => exact fun r hr => absurd hr List.not_mem_nil
  | some prices => exact (hm.meet hp).openOrders

theorem Market.reserve_isSome (price : ℚ) (pos : Position) :
    ∃ s', transferTally (s.putOrder new.property price pos new) new.property new.amountRemaining
      (new.addr, .balance) (new.addr, .metadexReserve) = some s' := by
  have hfunded := hm.funded
  have hpos := hm.incoming.remaining
  have hparts := balance_add_reserve_le_held hm.ledger.solvent new.addr new.addr new.property
  have hreserve := hm.ledger.solvent.nonneg new.addr new.property .metadexReserve (by decide)
  have hcached := hm.ledger.solvent.cached new.property
  have hbounded := hm.ledger.bounded new.property
  unfold supply at hbounded
  have hput : ∀ a q t, getTokenBalance (s.putOrder new.property price pos new) a q t = getTokenBalance s a q t :=
    fun _ _ _ => rfl
  obtain ⟨s₁, h1⟩ := @assertTally_isSome (s.putOrder new.property price pos new) new.addr new.property
    (-new.amountRemaining) .balance (by omega) (by omega)
    (fun _ => by rw [hput]; unfold i64Min; omega) (fun _ => by rw [hput]; omega) fun _ _ => hm.notFrozen
  have t₁ := assertTally_spec h1
  have hsame : getTokenBalance s₁ new.addr new.property .metadexReserve =
      getTokenBalance s new.addr new.property .metadexReserve := by
    rw [t₁.balance, if_neg (by simp), add_zero, hput]
  obtain ⟨s₂, h2⟩ := @assertTally_isSome s₁ new.addr new.property new.amountRemaining .metadexReserve (by omega)
    (fun _ => by omega) (by omega) (fun _ => by omega) (by simp)
  refine ⟨s₂, ?_⟩
  simp [transferTally, h1, h2]

end

theorem metadexAdd_eq {tx : CMPTransaction} (hprice : ¬ tx.order.unitPrice ≤ 0) :
    metadexAdd s tx.sender tx.property (toI64 tx.nNewValue) tx.block tx.desiredProperty
        (toI64 tx.desiredValue) tx.txid tx.txIdx =
      (xTrade tx.order s).bind fun out =>
        if 0 < out.1.amountRemaining then
          if (metadexInsert out.2 out.1).1 then
            (transferTally (metadexInsert out.2 out.1).2 tx.property out.1.amountRemaining
              (tx.sender, .balance) (tx.sender, .metadexReserve)).map fun s => (0, s)
          else some (metadexError - 70, (metadexInsert out.2 out.1).2)
        else some (0, out.2) := by
  unfold metadexAdd
  dsimp only
  refine (if_neg hprice).trans ?_
  show (xTrade tx.order s).bind _ = _
  congr 1
  funext out
  cases hinsert : metadexInsert out.2 out.1 with
  | mk ok s₁ =>
    cases ok with
    | false => rfl
    | true =>
      simp only [if_true, Option.bind_eq_bind, Option.pure_def, Option.map_eq_bind]
      rfl

theorem Market.metadexAdd_isSome_iff {tx : CMPTransaction} (hm : Market s tx.order []) :
    (metadexAdd s tx.sender tx.property (toI64 tx.nNewValue) tx.block tx.desiredProperty
      (toI64 tx.desiredValue) tx.txid tx.txIdx).isSome = true ↔ (xTrade tx.order s).isSome = true := by
  have hprice : ¬ tx.order.unitPrice ≤ 0 := not_le.mpr hm.incoming.unitPrice_pos
  rw [metadexAdd_eq hprice]
  cases htrade : xTrade tx.order s with
  | none => simp
  | some out =>
    obtain ⟨new', s'⟩ := out
    simp only [Option.bind_some, Option.isSome_some, iff_true]
    have hnew := (xTrade_step htrade).2
    split_ifs with hleft hfree
    · have hm' := (hm.xTrade_spec htrade).2 hleft.ne'
      obtain ⟨s₂, h2⟩ := hm'.reserve_isSome new'.unitPrice (position new'.block new'.idx)
      have hput : (metadexInsert s' new').2 =
          s'.putOrder new'.property new'.unitPrice (position new'.block new'.idx) new' := by
        unfold metadexInsert at hfree ⊢
        split_ifs at hfree ⊢
        rfl
      have hsender : new'.addr = tx.sender := by rw [hnew]; rfl
      have hproperty : new'.property = tx.property := by rw [hnew]; rfl
      rw [hsender, hproperty, ← hproperty] at h2
      rw [hput, ← hproperty, h2]
      rfl
    · rfl
    · rfl

end

end Rapids.Token
