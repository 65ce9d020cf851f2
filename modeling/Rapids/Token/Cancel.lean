import Mathlib.Algebra.Order.BigOperators.Group.List
import Rapids.Token.Book
import Rapids.Token.Reissue

/-!
# Rapids.Token.Cancel

**Cancels are exact**: the selected orders leave the book, what they have left returns from
the reserve to the balance of their owners, and nothing else changes.

A cancel visits the orders of one property or of the whole book, and tests each against
what the caller asked for. In a reachable book an order's place agrees with its own fields,
so that the tests on keys of the maps are tests on the order.

What can go wrong is the credit: `assert(update_tally_map(...))` fails if the balance would
exceed 64 bits. A balance and what is reserved beside it are parts of one supply, so this
takes a property whose supply does not fit, and there is none as long as new properties
find their identifiers free.
-/

namespace Rapids.Token

open Rapids.Lib OrdMap

/-! ### Orders taken out of the book -/

/-- What the orders of a list return to an address, of one property. -/
def amountReturned (l : List OrderRef) (a : Address) (q : PropertyId) : Int :=
  (l.map fun r => orderWeight a q r.order).sum

/-- The orders of a list were taken out of the book, and what they had left was returned. -/
structure Removed (s s' : State) (l : List OrderRef) : Prop where
  frame : s' = { s with tally := s'.tally, metadex := s'.metadex }
  orders : ∀ p price pos, s'.orderAt p price pos =
    if (p, price, pos) ∈ l.map OrderRef.place then none else s.orderAt p price pos
  balance : ∀ a q, getTokenBalance s' a q .balance = getTokenBalance s a q .balance + amountReturned l a q
  reserve : ∀ a q, getTokenBalance s' a q .metadexReserve =
    getTokenBalance s a q .metadexReserve - amountReturned l a q
  others : ∀ a q t, t ≠ .balance → t ≠ .metadexReserve → getTokenBalance s' a q t = getTokenBalance s a q t

section
variable {s s' s₁ : State} {l rest : List OrderRef} {r : OrderRef} {sel : OrderRef → Bool}

theorem amountReturned_cons (a : Address) (q : PropertyId) :
    amountReturned (r :: rest) a q = orderWeight a q r.order + amountReturned rest a q := by
  unfold amountReturned
  rw [List.map_cons, List.sum_cons]

theorem Removed.refl (s : State) : Removed s s [] := by
  refine ⟨rfl, fun p price pos => ?_, fun a q => ?_, fun a q => ?_, fun _ _ _ _ _ => rfl⟩
  · rw [List.map_nil, if_neg List.not_mem_nil]
  · rw [amountReturned, List.map_nil, List.sum_nil, add_zero]
  · rw [amountReturned, List.map_nil, List.sum_nil, sub_zero]

theorem Removed.cons (h1 : transferTally s r.order.property r.order.amountRemaining
      (r.order.addr, .metadexReserve) (r.order.addr, .balance) = some s₁)
    (h : Removed (s₁.eraseOrder r.property r.price r.pos) s' rest) : Removed s s' (r :: rest) := by
  have mv := transferTally_moved (by simp) (by simp) h1
  have hweight : ∀ a q, orderWeight a q r.order =
      if a = r.order.addr ∧ q = r.order.property then r.order.amountRemaining else 0 := fun a q => by
    simp [orderWeight, eq_comm]
  -- erasing an order moves no tokens
  have hbal : ∀ a q t, getTokenBalance (s₁.eraseOrder r.property r.price r.pos) a q t =
      getTokenBalance s₁ a q t := fun _ _ _ => rfl
  refine ⟨?_, fun p price pos => ?_, fun a q => ?_, fun a q => ?_, fun a q t hb hm => ?_⟩
  · rw [h.frame, State.eraseOrder, State.putLevel, mv.frame]
  · have hmem : (p, price, pos) ∈ (r :: rest).map OrderRef.place ↔
        (p = r.property ∧ price = r.price ∧ pos = r.pos) ∨ (p, price, pos) ∈ rest.map OrderRef.place := by
      simp [OrderRef.place]
    rw [h.orders, State.orderAt_eraseOrder]
    by_cases hrest : (p, price, pos) ∈ rest.map OrderRef.place
    · rw [if_pos hrest, if_pos (hmem.mpr (.inr hrest))]
    · rw [if_neg hrest]
      by_cases hhere : p = r.property ∧ price = r.price ∧ pos = r.pos
      · rw [if_pos hhere, if_pos (hmem.mpr (.inl hhere))]
      · rw [if_neg hhere, if_neg fun hc => (hmem.mp hc).elim hhere hrest]
        unfold State.orderAt State.level
        rw [mv.frame]
  · rw [h.balance, hbal, mv.balance, amountReturned_cons, hweight]
    simp only [Prod.mk.injEq, reduceCtorEq, and_true, and_false, false_and, if_false]
    omega
  · rw [h.reserve, hbal, mv.balance, amountReturned_cons, hweight]
    simp only [Prod.mk.injEq, reduceCtorEq, and_true, and_false, false_and, if_false]
    omega
  · rw [h.others a q t hb hm, hbal, mv.balance]
    simp [hb, hm]

theorem cancelLoop_removed (h : cancelLoop sel l s = some s') : Removed s s' (l.filter sel) := by
  induction l generalizing s with
  | nil =>
    obtain rfl := Option.some.inj h
    exact Removed.refl s
  | cons r rest ih =>
    rw [cancelLoop] at h
    split_ifs at h with hsel
    · simp only [do_eq_some] at h
      obtain ⟨s₁, h1, h⟩ := h
      rw [List.filter_cons, if_pos hsel]
      exact Removed.cons h1 (ih h)
    · rw [List.filter_cons, if_neg hsel]
      exact ih h

/-! ### When the loop ends -/

theorem orderWeight_nonneg (hb : OrdersPlaced s) (ho : s.orderAt r.property r.price r.pos = some r.order)
    (a : Address) (q : PropertyId) : 0 ≤ orderWeight a q r.order := by
  have hopen := (hb.ref ho).remaining
  unfold orderWeight
  split_ifs
  · exact hopen.le
  · exact le_rfl

theorem amountReturned_nonneg (sel : OrderRef → Bool) (hb : OrdersPlaced s) (hl : Listed s l) (a : Address)
    (q : PropertyId) :
    0 ≤ amountReturned (l.filter sel) a q := by
  refine List.sum_nonneg fun x hx => ?_
  obtain ⟨r, hr, rfl⟩ := List.mem_map.mp hx
  exact orderWeight_nonneg hb (hl.found r (List.mem_of_mem_filter hr)) a q

/-- An order's tokens can be returned if its owner's balance has room for them. -/
theorem returnOrder_isSome (hs : Solvent s) (hb : BookInv s)
    (ho : s.orderAt r.property r.price r.pos = some r.order)
    (hfit : getTokenBalance s r.order.addr r.order.property .balance + r.order.amountRemaining ≤ i64Max) :
    ∃ s₁, transferTally s r.order.property r.order.amountRemaining (r.order.addr, .metadexReserve)
      (r.order.addr, .balance) = some s₁ := by
  have hpos := (hb.placed.ref ho).remaining
  have hreserve := reserve_of_order hb ho
  have hmin : i64Min ≤ 0 := by decide
  obtain ⟨s₁, h1⟩ := @assertTally_isSome s r.order.addr r.order.property (-r.order.amountRemaining)
    .metadexReserve (by omega) (fun _ => by omega) (fun _ => by omega) (fun _ => by omega) (fun hc => absurd hc (by decide))
  have hbal : getTokenBalance s₁ r.order.addr r.order.property .balance =
      getTokenBalance s r.order.addr r.order.property .balance := by
    rw [(assertTally_spec h1).balance]
    simp
  have hnonneg := hs.nonneg r.order.addr r.order.property .balance (by decide)
  obtain ⟨s₂, h2⟩ := @assertTally_isSome s₁ r.order.addr r.order.property r.order.amountRemaining .balance
    (by omega) (fun _ => by omega) (fun _ => by omega) (fun _ => by omega) (fun _ _ => by omega)
  refine ⟨s₂, ?_⟩
  simp [transferTally, h1, h2]

theorem cancelLoop_isSome (sel : OrderRef → Bool) {block : Nat} (hc : Core s block) (hb : BookInv s) (hl : Listed s l)
    (hfit : ∀ a q, getTokenBalance s a q .balance + amountReturned (l.filter sel) a q ≤ i64Max) :
    ∃ s', cancelLoop sel l s = some s' := by
  induction l generalizing s with
  | nil => exact ⟨s, rfl⟩
  | cons r rest ih =>
    rw [cancelLoop]
    by_cases hsel : sel r = true
    · rw [if_pos hsel]
      rw [List.filter_cons, if_pos hsel] at hfit
      have hrest := amountReturned_nonneg sel hb.placed hl.tail r.order.addr r.order.property
      have hfit1 := hfit r.order.addr r.order.property
      rw [amountReturned_cons, orderWeight, if_pos ⟨rfl, rfl⟩] at hfit1
      obtain ⟨s₁, h1⟩ := returnOrder_isSome hc.solvent hb hl.head (by omega)
      obtain ⟨hst, hsame⟩ := cancelOrder_step block (fun _ => False) hl.head h1
      have hone : Removed s (s₁.eraseOrder r.property r.price r.pos) [r] :=
        Removed.cons h1 (Removed.refl _)
      have hb1 : BookInv (s₁.eraseOrder r.property r.price r.pos) := by
        refine ⟨hb.placed.of_noNewOrders fun p price pos o ho => ?_, hst.reserved hb.reserved⟩
        rw [hone.orders] at ho
        split_ifs at ho
        exact ho
      obtain ⟨s', h'⟩ := ih (hst.core hc) hb1 (hl.after hsame) fun a q => by
        have hle := hfit a q
        rw [amountReturned_cons] at hle
        rw [hone.balance, amountReturned_cons, amountReturned, List.map_nil, List.sum_nil]
        omega
      exact ⟨s', by simp [h1, h']⟩
    · rw [if_neg hsel]
      rw [List.filter_cons, if_neg hsel] at hfit
      exact ih hc hb hl.tail hfit

theorem cancelLoop_fits {block : Nat} (hc : Core s block) (hl : Listed s l)
    (h : cancelLoop sel l s = some s') (a : Address) (q : PropertyId) :
    getTokenBalance s a q .balance + amountReturned (l.filter sel) a q ≤ i64Max := by
  rw [← (cancelLoop_removed h).balance]
  exact ((cancelLoop_step block (fun _ => False) hl h).1.core hc).solvent.fits a q .balance

end

/-! ### Selecting orders by their fields -/

/-- All orders of the book that have a property, such as being of one address. -/
def State.ordersWith (s : State) (P : CMPMetaDEx → Prop) [DecidablePred P] : List OrderRef :=
  (MdPropertiesMap.orders s.metadex).filter fun r => decide (P r.order)

/-- **An exact cancel** of the orders with a property: it returns, with these orders taken
out of the book and their tokens returned, and with the code 0 if there are any. -/
def ExactCancel (s : State) (P : CMPMetaDEx → Prop) [DecidablePred P] (out : Option (Int × State)) : Prop :=
  ∃ rc s', out = some (rc, s') ∧ Removed s s' (s.ordersWith P) ∧
    (rc = 0 ↔ ∃ p price pos o, s.orderAt p price pos = some o ∧ P o)

/-- Every balance has room for what these orders return to it. -/
def RoomFor (s : State) (P : CMPMetaDEx → Prop) [DecidablePred P] : Prop :=
  ∀ a q, getTokenBalance s a q .balance + amountReturned (s.ordersWith P) a q ≤ i64Max

section
variable {s s' : State} {l l' : List OrderRef} {r : OrderRef} {sel : OrderRef → Bool} {block : Nat}
  {P : CMPMetaDEx → Prop} [DecidablePred P]

theorem mem_pricesOrders_iff {p : PropertyId} {prices : MdPricesMap} (hp : s.metadex.find? p = some prices) :
    r ∈ MdPricesMap.orders p prices ↔
      r.property = p ∧ s.orderAt r.property r.price r.pos = some r.order := by
  constructor
  · intro hr
    exact ⟨(mem_pricesOrders hr).1, (listed_pricesOrders hp).found r hr⟩
  · intro hr
    obtain ⟨rprop, price, pos, o⟩ := r
    obtain ⟨rfl, ho⟩ := hr
    unfold State.orderAt State.level at ho
    rw [hp, Option.getD_some] at ho
    cases hlevel : prices.find? price with
    | none =>
      rw [hlevel] at ho
      cases ho
    | some set =>
      rw [hlevel, Option.getD_some] at ho
      simp only [MdPricesMap.orders, List.mem_flatMap, List.mem_map, Prod.exists]
      exact ⟨price, set, mem_entries_iff.mpr hlevel, pos, o, mem_entries_iff.mpr ho, rfl⟩

theorem mem_bookOrders_iff :
    r ∈ MdPropertiesMap.orders s.metadex ↔ s.orderAt r.property r.price r.pos = some r.order := by
  constructor
  · exact (listed_bookOrders s).found r
  · intro ho
    cases hp : s.metadex.find? r.property with
    | none =>
      unfold State.orderAt State.level at ho
      rw [hp] at ho
      cases ho
    | some prices =>
      simp only [MdPropertiesMap.orders, List.mem_flatMap, Prod.exists]
      exact ⟨r.property, prices, mem_entries_iff.mpr hp, (mem_pricesOrders_iff hp).mpr ⟨rfl, ho⟩⟩

theorem mem_ordersWith :
    r ∈ s.ordersWith P ↔ s.orderAt r.property r.price r.pos = some r.order ∧ P r.order := by
  rw [State.ordersWith, List.mem_filter, mem_bookOrders_iff, decide_eq_true_iff]

theorem exists_ordersWith :
    (∃ r, r ∈ s.ordersWith P) ↔ ∃ p price pos o, s.orderAt p price pos = some o ∧ P o := by
  constructor
  · rintro ⟨r, hr⟩
    exact ⟨_, _, _, _, mem_ordersWith.mp hr⟩
  · rintro ⟨p, price, pos, o, ho⟩
    exact ⟨⟨p, price, pos, o⟩, mem_ordersWith.mpr ho⟩

theorem Listed.nodup (hl : Listed s l) : l.Nodup :=
  hl.distinct.imp fun hne heq => hne (congrArg OrderRef.place heq)

theorem amountReturned_perm (hp : l.Perm l') (a : Address) (q : PropertyId) :
    amountReturned l a q = amountReturned l' a q := by
  unfold amountReturned
  exact (hp.map _).sum_eq

theorem Removed.of_perm (h : Removed s s' l) (hp : l.Perm l') : Removed s s' l' := by
  have hsum := amountReturned_perm hp
  refine ⟨h.frame, fun p price pos => ?_, fun a q => ?_, fun a q => ?_, h.others⟩
  · rw [h.orders]
    by_cases hmem : (p, price, pos) ∈ l.map OrderRef.place
    · rw [if_pos hmem, if_pos ((hp.map OrderRef.place).mem_iff.mp hmem)]
    · rw [if_neg hmem, if_neg fun hc => hmem ((hp.map OrderRef.place).mem_iff.mpr hc)]
  · rw [h.balance, hsum]
  · rw [h.reserve, hsum]

theorem cancelOrders_exact_iff {nothing : Int} (hc : Core s block) (hb : BookInv s) (hl : Listed s l)
    (hmem : ∀ r, r ∈ l.filter sel ↔ r ∈ s.ordersWith P) (hnothing : nothing ≠ 0) :
    ExactCancel s P (cancelOrders s sel l nothing) ↔ RoomFor s P := by
  have hperm : (l.filter sel).Perm (s.ordersWith P) := by
    refine (List.perm_ext_iff_of_nodup ?_ ?_).mpr hmem
    · exact hl.nodup.filter _
    · exact (listed_bookOrders s).nodup.filter _
  have hsum := amountReturned_perm hperm
  constructor
  · intro h a q
    obtain ⟨rc, s', hout, -, -⟩ := h
    simp only [cancelOrders, do_eq_some] at hout
    obtain ⟨s₁, h1, -⟩ := hout
    rw [← hsum]
    exact cancelLoop_fits hc hl h1 a q
  · intro hroom
    obtain ⟨s', h'⟩ := cancelLoop_isSome sel hc hb hl fun a q => by
      rw [hsum]
      exact hroom a q
    refine ⟨if l.any sel then 0 else nothing, s', ?_, (cancelLoop_removed h').of_perm hperm, ?_⟩
    · simp [cancelOrders, h']
    · have hany : l.any sel = true ↔ ∃ r, r ∈ s.ordersWith P := by
        simp [← hmem]
      rw [← exists_ordersWith, ← hany]
      split_ifs with hsel
      · simp [hsel]
      · simp [hsel, hnothing]

theorem exactCancel_nothing {rc : Int} (hs : Solvent s) (hrc : rc ≠ 0) (h : ∀ r, r ∉ s.ordersWith P) :
    ExactCancel s P (some (rc, s)) ↔ RoomFor s P := by
  have hnil : s.ordersWith P = [] := List.eq_nil_iff_forall_not_mem.mpr h
  constructor
  · intro _ a q
    rw [hnil, amountReturned, List.map_nil, List.sum_nil, add_zero]
    exact hs.fits a q .balance
  · intro _
    refine ⟨rc, s, rfl, hnil ▸ Removed.refl s, ?_⟩
    rw [← exists_ordersWith]
    exact ⟨fun hzero => absurd hzero hrc, fun hsome => absurd hsome.choose_spec (h _)⟩

/-! ### The three cancels -/

theorem not_mem_ordersWith {p : PropertyId} (hb : BookInv s) (hp : s.metadex.find? p = none)
    (hprop : ∀ o, P o → o.property = p) (r : OrderRef) : r ∉ s.ordersWith P := by
  intro hr
  obtain ⟨ho, hP⟩ := mem_ordersWith.mp hr
  rw [← hprop _ hP, (hb.placed.ref ho).property] at hp
  unfold State.orderAt State.level at ho
  rw [hp] at ho
  cases ho

section
variable (hc : Core s block) (hb : BookInv s)
include hc hb

theorem pricesCancel_exact_iff {p : PropertyId} {prices : MdPricesMap} {nothing : Int}
    (hp : s.metadex.find? p = some prices) (hprop : ∀ o, P o → o.property = p)
    (hsel : ∀ r : OrderRef, InBook r.property r.price r.pos r.order → r.property = p →
      (sel r = true ↔ P r.order))
    (hnothing : nothing ≠ 0) :
    ExactCancel s P (cancelOrders s sel (MdPricesMap.orders p prices) nothing) ↔ RoomFor s P := by
  refine cancelOrders_exact_iff hc hb (listed_pricesOrders hp) (fun r => ?_) hnothing
  rw [List.mem_filter, mem_pricesOrders_iff hp, mem_ordersWith]
  constructor
  · rintro ⟨⟨hr, ho⟩, hyes⟩
    exact ⟨ho, (hsel r (hb.placed.ref ho) hr).mp hyes⟩
  · rintro ⟨ho, hP⟩
    have hr : r.property = p := (hb.placed.ref ho).property.symm.trans (hprop _ hP)
    exact ⟨⟨hr, ho⟩, (hsel r (hb.placed.ref ho) hr).mpr hP⟩

theorem cancelAtPriceWalk_exact_iff (sender : Address) (p : PropertyId)
    (amount : Int) (desired : PropertyId) (amountDesired : Int) :
    ExactCancel s (fun o => o.addr = sender ∧ o.property = p ∧ o.desiredProperty = desired ∧
        o.unitPrice = (amountDesired : ℚ) / amount)
      (cancelAtPriceWalk s sender p amount desired amountDesired) ↔
    RoomFor s (fun o => o.addr = sender ∧ o.property = p ∧ o.desiredProperty = desired ∧
        o.unitPrice = (amountDesired : ℚ) / amount) := by
  have hprice : CMPMetaDEx.unitPrice ⟨sender, 0, p, amount, desired, amountDesired, 0, 0, amount⟩ =
      (amountDesired : ℚ) / amount := by
    unfold CMPMetaDEx.unitPrice
    split_ifs with hzero
    · have hzero' : amount = 0 := hzero
      rw [hzero', Int.cast_zero, div_zero]
    · rfl
  rw [cancelAtPriceWalk_eq, metadexCancelAtPrice, hprice]
  cases hp : s.metadex.find? p with
  | none =>
    exact exactCancel_nothing hc.solvent (by decide) (not_mem_ordersWith hb hp fun o hP => hP.2.1)
  | some prices =>
    refine pricesCancel_exact_iff hc hb hp (fun o hP => hP.2.1) (fun r hplace hr => ?_) (by decide)
    -- the level's price is the order's, and the price map's property the one it sells
    rw [hplace.property, hplace.unitPrice, hr]
    simp only [Bool.and_eq_true, decide_eq_true_iff, beq_iff_eq]
    tauto

theorem cancelAllForPairWalk_exact_iff (sender : Address)
    (p desired : PropertyId) :
    ExactCancel s (fun o => o.addr = sender ∧ o.property = p ∧ o.desiredProperty = desired)
      (cancelAllForPairWalk s sender p desired) ↔
    RoomFor s fun o => o.addr = sender ∧ o.property = p ∧ o.desiredProperty = desired := by
  rw [cancelAllForPairWalk_eq, metadexCancelAllForPair]
  cases hp : s.metadex.find? p with
  | none =>
    exact exactCancel_nothing hc.solvent (by decide) (not_mem_ordersWith hb hp fun o hP => hP.2.1)
  | some prices =>
    refine pricesCancel_exact_iff hc hb hp (fun o hP => hP.2.1) (fun r hplace hr => ?_) (by decide)
    rw [hplace.property, hr]
    simp only [Bool.and_eq_true, beq_iff_eq]
    tauto

/-- The properties of an ecosystem: 1 is the main one, 2 the test one. -/
def inEcosystem (ecosystem : Nat) (p : PropertyId) : Bool :=
  if ecosystem = propertyMSC then isMainEcosystemProperty p else isTestEcosystemProperty p

theorem cancelEverythingWalk_exact_iff (sender : Address)
    {ecosystem : Nat} (heco : ecosystem = propertyMSC ∨ ecosystem = propertyTMSC) :
    ExactCancel s (fun o => o.addr = sender ∧ inEcosystem ecosystem o.property = true)
      (cancelEverythingWalk s sender ecosystem) ↔
    RoomFor s fun o => o.addr = sender ∧ inEcosystem ecosystem o.property = true := by
  rw [cancelEverythingWalk_eq, metadexCancelEverything]
  refine cancelOrders_exact_iff hc hb (listed_bookOrders s) (fun r => ?_) (by decide)
  rw [List.mem_filter, mem_bookOrders_iff, mem_ordersWith]
  refine and_congr_right fun ho => ?_
  rw [(hb.placed.ref ho).property]
  have hskip : (!(isMainEcosystemProperty ecosystem && !isMainEcosystemProperty r.property) &&
      !(isTestEcosystemProperty ecosystem && !isTestEcosystemProperty r.property)) =
      inEcosystem ecosystem r.property := by
    rcases heco with rfl | rfl
    · rw [inEcosystem, if_pos rfl, show isMainEcosystemProperty propertyMSC = true by decide,
        show isTestEcosystemProperty propertyMSC = false by decide]
      simp
    · rw [inEcosystem, if_neg (by decide), show isMainEcosystemProperty propertyTMSC = false by decide,
        show isTestEcosystemProperty propertyTMSC = true by decide]
      simp
  rw [hskip, Bool.and_eq_true, beq_iff_eq, and_comm]

end

/-! ### Room -/

theorem amountReturned_le_reservedBy (hb : OrdersPlaced s) (hl : Listed s l) (a : Address) (q : PropertyId) :
    amountReturned l a q ≤ reservedBy s.metadex a q := by
  induction l generalizing s with
  | nil =>
    rw [amountReturned, List.map_nil, List.sum_nil]
    exact hb.reservedBy_nonneg a q
  | cons r rest ih =>
    have hrest : Listed (s.eraseOrder r.property r.price r.pos) rest := hl.after fun p price pos hne => by
      rw [State.orderAt_eraseOrder, if_neg]
      rintro ⟨rfl, rfl, rfl⟩
      exact hne rfl
    have hle := ih (hb.eraseOrder _ _ _) hrest
    rw [reservedBy_eraseOrder _ _ _ _ _ _ _ hl.head] at hle
    rw [amountReturned_cons]
    omega

theorem Listed.filter (hl : Listed s l) (f : OrderRef → Bool) : Listed s (l.filter f) :=
  ⟨fun r hr => hl.found r (List.mem_of_mem_filter hr), hl.distinct.sublist List.filter_sublist⟩

theorem roomFor_of_ledger (hl : LedgerInv s) (hb : BookInv s) : RoomFor s P := by
  intro a q
  have hreturned := amountReturned_le_reservedBy hb.placed
    ((listed_bookOrders s).filter fun r => decide (P r.order)) a q
  have hheld := balance_add_reserve_le_held hl.solvent a a q
  have hbounded := hl.bounded q
  have hcached := hl.solvent.cached q
  rw [hb.reserved] at hheld
  unfold supply at hbounded
  unfold State.ordersWith
  omega

end

theorem run_roomFor {cfg : Config} {es : List Event} {n : Node} (P : CMPMetaDEx → Prop) [DecidablePred P]
    (h : run freshStep (Node.initial cfg) es = some n) : RoomFor n.state P :=
  roomFor_of_ledger (run_ledgerInv h).2 (run_bookInv (run_of_guarded h)).2

/-- **Cancels, by iterator**, from every reachable state: each returns and is exact if and
only if the balances have room for what it returns to them. -/
theorem cancels_exact_iff {cfg : Config} {es : List Event} {n : Node}
    (h : run step (Node.initial cfg) es = some n) (sender : Address) :
    (∀ (p : PropertyId) (amount : Int) (desired : PropertyId) (amountDesired : Int),
      ExactCancel n.state (fun o => o.addr = sender ∧ o.property = p ∧ o.desiredProperty = desired ∧
          o.unitPrice = (amountDesired : ℚ) / amount)
        (cancelAtPriceWalk n.state sender p amount desired amountDesired) ↔
      RoomFor n.state fun o => o.addr = sender ∧ o.property = p ∧ o.desiredProperty = desired ∧
        o.unitPrice = (amountDesired : ℚ) / amount) ∧
    (∀ p desired,
      ExactCancel n.state (fun o => o.addr = sender ∧ o.property = p ∧ o.desiredProperty = desired)
        (cancelAllForPairWalk n.state sender p desired) ↔
      RoomFor n.state fun o => o.addr = sender ∧ o.property = p ∧ o.desiredProperty = desired) ∧
    ∀ ecosystem, ecosystem = propertyMSC ∨ ecosystem = propertyTMSC →
      (ExactCancel n.state (fun o => o.addr = sender ∧ inEcosystem ecosystem o.property = true)
        (cancelEverythingWalk n.state sender ecosystem) ↔
      RoomFor n.state fun o => o.addr = sender ∧ inEcosystem ecosystem o.property = true) := by
  obtain ⟨hi, hb⟩ := run_bookInv h
  refine ⟨fun p amount desired amountDesired => ?_, fun p desired => ?_, fun ecosystem heco => ?_⟩
  · exact cancelAtPriceWalk_exact_iff hi.core hb sender p amount desired amountDesired
  · exact cancelAllForPairWalk_exact_iff hi.core hb sender p desired
  · exact cancelEverythingWalk_exact_iff hi.core hb sender heco

/-! ### Two traders and an overrun -/

/-- Alice takes back both orders of her pair. -/
theorem cancels_exact_of_bookRun :
    ∃ n, run step (Node.initial exchangeCfg) bookRun = some n ∧
      ((cancelAllForPairWalk n.state "alice" 3 4).map fun out =>
        (out.1, getTokenBalance n.state "alice" 3 .balance, getTokenBalance out.2 "alice" 3 .balance)) =
          some (0, 890, 1000) ∧
      (ExactCancel n.state (fun o => o.addr = "alice" ∧ o.property = 3 ∧ o.desiredProperty = 4)
          (cancelAllForPairWalk n.state "alice" 3 4) ↔
        RoomFor n.state fun o => o.addr = "alice" ∧ o.property = 3 ∧ o.desiredProperty = 4) := by
  have hrun : ((run step (Node.initial exchangeCfg) bookRun).bind fun n =>
      (cancelAllForPairWalk n.state "alice" 3 4).map fun out =>
        (out.1, getTokenBalance n.state "alice" 3 .balance, getTokenBalance out.2 "alice" 3 .balance)) =
      some (0, 890, 1000) := by decide +kernel
  obtain ⟨n, hn, hout⟩ := Option.bind_eq_some_iff.mp hrun
  exact ⟨n, hn, hout, (cancels_exact_iff hn "alice").2.1 3 4⟩

/-- The first block: an account sells all its tokens of the first test property. -/
def stockedBlock : List Event :=
  [.blockBegin 1 serialTime 1, .packet (hoardTx "first" "FIRST" 2 1) issuanceEnv,
    .packet (orderTx "first" 2 testEcoProperty1 maxInt8Bytes 2 maxInt8Bytes) issuanceEnv,
    .blockEnd 1 serialTime]

/-- Once the property was issued again, the account has all that fits and as much reserved. -/
theorem exists_overstocked :
    ∃ n, run step (Node.initial regtestCfg) (stockedBlock ++ reissueRun "first") = some n ∧
      getTokenBalance n.state "first" testEcoProperty1 .balance = i64Max ∧
      ∃ o, n.state.orderAt testEcoProperty1 1 (position 1 2) = some o ∧ o.addr = "first" ∧
        o.property = testEcoProperty1 ∧ o.desiredProperty = 2 ∧ o.amountRemaining = i64Max := by
  have hblock : ((run step (Node.initial regtestCfg) stockedBlock).map fun n =>
      (canOverrun n, getTokenBalance n.state "first" testEcoProperty1 .balance,
        n.state.orderAt testEcoProperty1 1 (position 1 2))) =
      some (true, 0, some ⟨"first", 1, testEcoProperty1, i64Max, 2, i64Max, 2, 2, i64Max⟩) := by
    decide +kernel
  obtain ⟨n₀, hn0, hvals⟩ := Option.map_eq_some_iff.mp hblock
  obtain ⟨hready, hvals⟩ := Prod.mk.inj hvals
  obtain ⟨hempty, horder⟩ := Prod.mk.inj hvals
  obtain ⟨n, hn, hbook, -, -, hbal⟩ := exists_reissue hn0 hready hempty
  refine ⟨n, hn, ?_, ⟨"first", 1, testEcoProperty1, i64Max, 2, i64Max, 2, 2, i64Max⟩, ?_, rfl, rfl, rfl, rfl⟩
  · rw [hbal, hempty, if_pos ⟨rfl, rfl, rfl⟩, zero_add]
  · unfold State.orderAt State.level at horder ⊢
    rw [hbook]
    exact horder

/-- Cancelling the pair stops the node: the reserve no longer fits the balance. -/
theorem cancels_inexact_overstocked :
    ¬ ∀ (cfg : Config) (es : List Event) (n : Node), run step (Node.initial cfg) es = some n →
      ∀ sender p desired,
        ExactCancel n.state (fun o => o.addr = sender ∧ o.property = p ∧ o.desiredProperty = desired)
          (cancelAllForPairWalk n.state sender p desired) := by
  intro h
  obtain ⟨n, hn, hbal, o, ho, haddr, hprop, hdes, hleft⟩ := exists_overstocked
  obtain ⟨hi, hb⟩ := run_bookInv hn
  have hroom := (cancelAllForPairWalk_exact_iff hi.core hb "first" testEcoProperty1 2).mp
    (h _ _ n hn "first" testEcoProperty1 2)
  have hmem : (⟨testEcoProperty1, 1, position 1 2, o⟩ : OrderRef) ∈ n.state.ordersWith fun o =>
      o.addr = "first" ∧ o.property = testEcoProperty1 ∧ o.desiredProperty = 2 :=
    mem_ordersWith.mpr ⟨ho, haddr, hprop, hdes⟩
  have hle : i64Max ≤ amountReturned (n.state.ordersWith fun o =>
      o.addr = "first" ∧ o.property = testEcoProperty1 ∧ o.desiredProperty = 2) "first"
        testEcoProperty1 := by
    refine List.single_le_sum (fun x hx => ?_) _ (List.mem_map.mpr ⟨_, hmem, ?_⟩)
    · obtain ⟨r, hr, rfl⟩ := List.mem_map.mp hx
      exact orderWeight_nonneg hb.placed (mem_ordersWith.mp hr).1 _ _
    · rw [orderWeight, if_pos ⟨haddr, hprop⟩, hleft]
  have hfit := hroom "first" testEcoProperty1
  rw [hbal] at hfit
  have hpos : (0 : Int) < i64Max := by decide
  omega

end Rapids.Token
