import Rapids.Lib.Iterate
import Rapids.Token.Fills

/-!
# Rapids.Token.BookWalk

The loops of `mdex.cpp` **by iterator**, as the source runs them.

`x_Trade` walks the prices of one property and, at each price that is good enough, the
orders there; the cancels do the same, or walk all properties. All of them erase from a set
while they iterate over it, and `x_Trade` also puts a reduced order back. `Rapids.Token.MetaDex`
has loops over the list of orders instead, taken when the loop starts.

The two agree, since every round rewrites one place of the book: a round on an order
touches no other order, a round on a price no other price, and a round on a property no
other property.
-/

namespace Rapids.Token

open Rapids.Lib OrdMap

variable {x : State × Int} {s s' : State} {new new' : CMPMetaDEx} {r : OrderRef}

/-! ### One place of the book -/

/-- The prices of a property. -/
def State.prices (s : State) (p : PropertyId) : MdPricesMap := (s.metadex.find? p).getD ∅

section
variable (s : State) (p : PropertyId) (price : ℚ)

theorem State.level_eq :
    s.level p price = ((s.prices p).find? price).getD ∅ := rfl

theorem State.find?_level (pos : Position) :
    (s.level p price).find? pos = s.orderAt p price pos := rfl

/-- Two books that differ at one price of one property at most. -/
structure SamePricesBut (s s' : State) (p : PropertyId) (price : ℚ) : Prop where
  prices : ∀ price', price' ≠ price → (s'.prices p).find? price' = (s.prices p).find? price'
  properties : ∀ q, q ≠ p → s'.metadex.find? q = s.metadex.find? q

theorem SamePricesBut.refl : SamePricesBut s s p price :=
  ⟨fun _ _ => rfl, fun _ _ => rfl⟩

end

theorem SamePricesBut.of_eq (h : s'.metadex = s.metadex) (p : PropertyId) (price : ℚ) :
    SamePricesBut s s' p price := by
  refine ⟨fun price' _ => ?_, fun q _ => by rw [h]⟩
  unfold State.prices
  rw [h]

theorem SamePricesBut.trans {s₁ s₂ s₃ : State} {p : PropertyId} {price : ℚ}
    (h : SamePricesBut s₁ s₂ p price) (h' : SamePricesBut s₂ s₃ p price) : SamePricesBut s₁ s₃ p price :=
  ⟨fun price' hne => (h'.prices price' hne).trans (h.prices price' hne),
    fun q hne => (h'.properties q hne).trans (h.properties q hne)⟩

theorem samePricesBut_putLevel (s : State) (p : PropertyId) (price : ℚ) (set : MdSet) :
    SamePricesBut s (s.putLevel p price set) p price := by
  refine ⟨fun price' hne => ?_, fun q hne => find?_insert_ne _ _ hne⟩
  unfold State.prices State.putLevel
  rw [find?_insert, if_pos rfl, Option.getD_some]
  exact find?_insert_ne _ _ hne

theorem samePricesBut_replaceOrder (s : State) (r : OrderRef) (left : Int) :
    SamePricesBut s (replaceOrder s r left) r.property r.price := by
  have herase : SamePricesBut s (s.eraseOrder r.property r.price r.pos) r.property r.price :=
    samePricesBut_putLevel _ _ _ _
  unfold replaceOrder
  split_ifs
  · exact herase.trans (samePricesBut_putLevel _ _ _ _)
  · exact herase

/-! ### Matching -/

theorem executeTrade_samePricesBut {got paid : Int}
    (hg : 0 ≤ got) (h : executeTrade new r got paid s = some (new', s')) :
    SamePricesBut s s' r.property r.price := by
  obtain ⟨s₅, hbook, rfl⟩ := executeTrade_replace hg h
  exact (SamePricesBut.of_eq hbook _ _).trans (samePricesBut_replaceOrder _ _ _)

theorem tradeOrder_samePricesBut
    (h : tradeOrder new r s = some (new', s')) : SamePricesBut s s' r.property r.price := by
  rcases tradeOrder_cases h with ⟨-, rfl⟩ | ⟨-, -, got, paid, hgot, hex⟩
  · exact SamePricesBut.refl _ _ _
  · exact executeTrade_samePricesBut hgot.le hex

theorem tradeOrder_orderAt
    (ho : s.orderAt r.property r.price r.pos = some r.order) (h : tradeOrder new r s = some (new', s'))
    {p : PropertyId} {price : ℚ} {pos : Position} (hne : (p, price, pos) ≠ r.place) :
    s'.orderAt p price pos = s.orderAt p price pos := by
  rcases tradeOrder_cases h with ⟨-, rfl⟩ | ⟨hpre, hpay, got, paid, hgot, hex⟩
  · rfl
  · exact (executeTrade_step hgot.le hpay hpre.2.2.2.1 ho hex).2.1 p price pos hne

theorem tradeOrder_new (h : tradeOrder new r s = some (new', s')) :
    new' = { new with amountRemaining := new'.amountRemaining } := by
  rcases tradeOrder_cases h with ⟨rfl, -⟩ | ⟨-, -, got, paid, -, hex⟩
  · rfl
  · obtain ⟨-, -, -, -, -, -, -, -, -, -, -, hnew⟩ := executeTrade_cases hex
    rw [hnew]

/-- The loops' variables: the new order, the state, and the fills so far. -/
structure Trading where
  new : CMPMetaDEx
  state : State
  fills : List Fill

/-- The inner loop's body: `bBuyerSatisfied` ends both loops. -/
def tradeRound (q : PropertyId) (price : ℚ) (e : Position × CMPMetaDEx) (x : Trading) :
    Option (Trading × Bool) :=
  (tradeOrder x.new ⟨q, price, e.1, e.2⟩ x.state).map fun out =>
    (⟨out.1, out.2, x.fills ++ roundFill x.new ⟨q, price, e.1, e.2⟩⟩, decide (out.1.amountRemaining = 0))

/-- The outer loop's body: the orders at one price, unless it is too high. -/
def tradeLevel (q : PropertyId) (e : ℚ × MdSet) (x : Trading) : Option (Trading × Bool) :=
  if x.new.inversePrice < e.1 then some (x, false)
  else iterate (fun x => x.state.level q e.1) (tradeRound q e.1) e.2.entries.length e.2.first? x

/-- `x_Trade`, by iterator. -/
def xTradeWalk (new : CMPMetaDEx) (s : State) : Option Trading :=
  match s.metadex.find? new.desiredProperty with
  | none => some ⟨new, s, []⟩
  | some prices =>
    (iterate (fun x => x.state.prices new.desiredProperty) (tradeLevel new.desiredProperty)
      prices.entries.length prices.first? ⟨new, s, []⟩).map Prod.fst

section
variable {q : PropertyId} {price : ℚ}

theorem tradeRound_local : Local (fun x => x.state.level q price) (tradeRound q price) := by
  intro pos o x r hfind hround pos' hne
  simp only [tradeRound, Option.map_eq_some_iff] at hround
  obtain ⟨out, hout, rfl⟩ := hround
  have ho : x.state.orderAt q price pos = some o := hfind
  exact tradeOrder_orderAt ho hout (by simp [OrderRef.place, hne])

/-- A round changes nothing at the other prices, and the new order keeps its price. -/
theorem tradeRound_same {e : Position × CMPMetaDEx} {x : Trading} {r : Trading × Bool}
    (h : tradeRound q price e x = some r) :
    SamePricesBut x.state r.1.state q price ∧ r.1.new.inversePrice = x.new.inversePrice := by
  simp only [tradeRound, Option.map_eq_some_iff] at h
  obtain ⟨out, hout, rfl⟩ := h
  refine ⟨tradeOrder_samePricesBut hout, ?_⟩
  show out.1.inversePrice = x.new.inversePrice
  rw [tradeOrder_new hout]
  rfl

theorem visit_tradeRound {l : List (Position × CMPMetaDEx)} {x : Trading} {r : Trading × Bool}
    (h : visit (tradeRound q price) l x = some r) : SamePricesBut x.state r.1.state q price :=
  visit_rel (R := fun x x' : Trading => SamePricesBut x.state x'.state q price)
    (fun _ => SamePricesBut.refl _ _ _) (fun _ _ _ => SamePricesBut.trans)
    (fun _ _ _ hround => (tradeRound_same hround).1) h

/-- The outer loop's body, over the orders that are in the level when it starts. -/
def tradeEntries (q : PropertyId) (e : ℚ × MdSet) (x : Trading) : Option (Trading × Bool) :=
  if x.new.inversePrice < e.1 then some (x, false) else visit (tradeRound q e.1) e.2.entries x

theorem tradeLevel_eq {set : MdSet} {x : Trading} (hset : (x.state.prices q).find? price = some set) :
    tradeLevel q (price, set) x = tradeEntries q (price, set) x := by
  have hview : x.state.level q price = set := by rw [State.level_eq, hset, Option.getD_some]
  unfold tradeLevel tradeEntries
  split_ifs
  · rfl
  · have hloop := iterate_eq_visit tradeRound_local x set.entries.length (by rw [hview])
    rw [hview] at hloop
    exact hloop

theorem tradeEntries_local : Local (fun x => x.state.prices q) (tradeEntries q) := by
  intro price set x r hfind hround price' hne
  unfold tradeEntries at hround
  split_ifs at hround
  · cases hround
    rfl
  · exact (visit_tradeRound hround).prices price' hne

/-- One order of a list, as the loop over lists treats it. -/
def tradeRef (r : OrderRef) (x : Trading) : Option (Trading × Bool) :=
  if x.new.inversePrice < r.price then some (x, false)
  else (tradeOrder x.new r x.state).map fun out =>
    (⟨out.1, out.2, x.fills ++ roundFill x.new r⟩, decide (out.1.amountRemaining = 0))

theorem visit_tradeRef_eq (l : List OrderRef) (x : Trading) :
    (visit tradeRef l x).map Prod.fst = (tradeLoop l x.new x.state).map fun out =>
      ⟨out.1, out.2, x.fills ++ tradeFills l x.new x.state⟩ := by
  induction l generalizing x with
  | nil =>
    rw [visit, tradeLoop, tradeFills, Option.map_some, Option.map_some, List.append_nil]
  | cons r rest ih =>
    rw [visit, tradeRef, tradeLoop, tradeFills]
    by_cases hskip : x.new.inversePrice < r.price
    · rw [if_pos hskip, if_pos hskip, if_pos hskip, Option.bind_some, if_neg (by simp)]
      exact ih x
    · rw [if_neg hskip, if_neg hskip, if_neg hskip]
      cases tradeOrder x.new r x.state with
      | none => rfl
      | some out =>
        simp only [Option.bind_some, Option.map_some, decide_eq_true_eq]
        by_cases hdone : out.1.amountRemaining = 0
        · rw [if_pos hdone, if_pos hdone, if_pos hdone, Option.map_some, Option.map_some, List.append_nil]
        · rw [if_neg hdone, if_neg hdone, if_neg hdone, ih, ← List.append_assoc]

/-- At one price the order is compared once, or at each order there: it is the same. -/
theorem visit_tradeRef (l : List (Position × CMPMetaDEx)) (x : Trading) :
    visit (fun e => tradeRef ⟨q, price, e.1, e.2⟩) l x =
      if x.new.inversePrice < price then some (x, false) else visit (tradeRound q price) l x := by
  induction l generalizing x with
  | nil =>
    split_ifs
    · rfl
    · rfl
  | cons e rest ih =>
    rw [visit, tradeRef]
    split_ifs with hskip
    · rw [Option.bind_some, if_neg (by simp), ih, if_pos hskip]
    · rw [visit]
      show (tradeRound q price e x).bind _ = _
      cases hround : tradeRound q price e x with
      | none => rfl
      | some r =>
        rw [Option.bind_some, Option.bind_some]
        split_ifs
        · rfl
        · rw [ih, (tradeRound_same hround).2, if_neg hskip]

end

/-- **Matching by iterator** visits the orders of the start: none is skipped, and a reduced
order that was put back is not met again. -/
theorem xTradeWalk_eq (new : CMPMetaDEx) (s : State) :
    xTradeWalk new s = (xTrade new s).map fun out => ⟨out.1, out.2, xTradeFills new s⟩ := by
  unfold xTradeWalk xTrade xTradeFills
  cases hp : s.metadex.find? new.desiredProperty with
  | none => rfl
  | some prices =>
    dsimp only
    have hview : s.prices new.desiredProperty = prices := by rw [State.prices, hp, Option.getD_some]
    have hloop := iterate_eq_visit (tradeEntries_local) ⟨new, s, []⟩
      prices.entries.length (by rw [hview])
    rw [hview] at hloop
    have hlist : visit (tradeEntries new.desiredProperty) prices.entries ⟨new, s, []⟩ =
        visit tradeRef (MdPricesMap.orders new.desiredProperty prices) ⟨new, s, []⟩ := by
      rw [MdPricesMap.orders, visit_flatMap]
      congr 1
      funext e x
      rw [visit_map, visit_tradeRef]
      rfl
    rw [iterate_congr (fun _ _ _ hset => tradeLevel_eq hset), hloop, hlist, visit_tradeRef_eq]
    rfl

/-! ### Cancelling -/

/-- The innermost body of a cancel; the code becomes 0 with the first order removed. -/
def cancelRound (sel : OrderRef → Bool) (p : PropertyId) (price : ℚ) (e : Position × CMPMetaDEx)
    (x : State × Int) : Option ((State × Int) × Bool) :=
  if sel ⟨p, price, e.1, e.2⟩ then do
    let s ← transferTally x.1 e.2.property e.2.amountRemaining (e.2.addr, .metadexReserve)
      (e.2.addr, .balance)
    return ((s.eraseOrder p price e.1, 0), false)
  else some (x, false)

/-- The orders at one price. -/
def cancelLevel (skip : ℚ → Bool) (sel : OrderRef → Bool) (p : PropertyId) (e : ℚ × MdSet)
    (x : State × Int) : Option ((State × Int) × Bool) :=
  if skip e.1 then some (x, false)
  else iterate (fun x => x.1.level p e.1) (cancelRound sel p e.1) e.2.entries.length e.2.first? x

/-- The prices of one property. -/
def cancelPrices (skip : ℚ → Bool) (sel : OrderRef → Bool) (p : PropertyId) (prices : MdPricesMap)
    (x : State × Int) : Option ((State × Int) × Bool) :=
  iterate (fun x => x.1.prices p) (cancelLevel skip sel p) prices.entries.length prices.first? x

/-- All properties. -/
def cancelBook (skip : PropertyId → Bool) (sel : OrderRef → Bool) (x : State × Int) :
    Option ((State × Int) × Bool) :=
  iterate (fun x => x.1.metadex)
    (fun e x => if skip e.1 then some (x, false) else cancelPrices (fun _ => false) sel e.1 e.2 x)
    x.1.metadex.entries.length x.1.metadex.first? x

/-- State and code, in the order the callers have them. -/
def cancelResult (x : (State × Int) × Bool) : Int × State := (x.1.2, x.1.1)

/-- `MetaDEx_CANCEL_AT_PRICE`, by iterator. -/
def cancelAtPriceWalk (s : State) (sender : Address) (p : PropertyId) (amount : Int)
    (desiredProperty : PropertyId) (amountDesired : Int) : Option (Int × State) :=
  let price := CMPMetaDEx.unitPrice ⟨sender, 0, p, amount, desiredProperty, amountDesired, 0, 0, amount⟩
  match s.metadex.find? p with
  | none => some (metadexError - 20 - 1, s)
  | some prices =>
    (cancelPrices (fun price' => decide (price' ≠ price))
      (fun r => r.order.desiredProperty == desiredProperty && r.order.addr == sender) p prices
      (s, metadexError - 20)).map cancelResult

/-- `MetaDEx_CANCEL_ALL_FOR_PAIR`, by iterator. -/
def cancelAllForPairWalk (s : State) (sender : Address) (p desiredProperty : PropertyId) :
    Option (Int × State) :=
  match s.metadex.find? p with
  | none => some (metadexError - 30 - 1, s)
  | some prices =>
    (cancelPrices (fun _ => false)
      (fun r => r.order.desiredProperty == desiredProperty && r.order.addr == sender) p prices
      (s, metadexError - 30)).map cancelResult

/-- `MetaDEx_CANCEL_EVERYTHING`, by iterator. -/
def cancelEverythingWalk (s : State) (sender : Address) (ecosystem : Nat) : Option (Int × State) :=
  (cancelBook (fun p => (isMainEcosystemProperty ecosystem && !isMainEcosystemProperty p) ||
      (isTestEcosystemProperty ecosystem && !isTestEcosystemProperty p))
    (fun r => r.order.addr == sender) (s, metadexError - 40)).map cancelResult

section
variable {sel sel' : OrderRef → Bool} {skip : ℚ → Bool} {p : PropertyId} {price : ℚ}

/-- One order of a list, as the loop over lists treats it. -/
def cancelRef (sel : OrderRef → Bool) (r : OrderRef) (x : State × Int) : Option ((State × Int) × Bool) :=
  if sel r then do
    let s ← transferTally x.1 r.order.property r.order.amountRemaining (r.order.addr, .metadexReserve)
      (r.order.addr, .balance)
    return ((s.eraseOrder r.property r.price r.pos, 0), false)
  else some (x, false)

theorem transferTally_metadex {q : PropertyId} {amount : Int} {src dst : Bucket}
    (h : transferTally s q amount src dst = some s') : s'.metadex = s.metadex := by
  simp only [transferTally, do_eq_some] at h
  obtain ⟨s₁, h1, h2⟩ := h
  rw [(assertTally_spec h2).frame, ← show s₁.metadex = s.metadex by rw [(assertTally_spec h1).frame]]

/-- Taking an order out leaves the others of its level, and all other levels, alone. -/
theorem eraseOrder_same {s₁ : State} (hbook : s₁.metadex = s.metadex) (k : Position) :
    SamePricesBut s (s₁.eraseOrder p price k) p price ∧
      ∀ pos, pos ≠ k → ((s₁.eraseOrder p price k).level p price).find? pos = (s.level p price).find? pos := by
  refine ⟨(SamePricesBut.of_eq hbook _ _).trans (samePricesBut_putLevel _ _ _ _), fun pos hne => ?_⟩
  show (s₁.eraseOrder p price k).orderAt p price pos = s.orderAt p price pos
  rw [State.orderAt_eraseOrder, if_neg fun hc => hne hc.2.2]
  unfold State.orderAt State.level
  rw [hbook]

theorem cancelRound_same {e : Position × CMPMetaDEx} {r : (State × Int) × Bool}
    (h : cancelRound sel p price e x = some r) :
    SamePricesBut x.1 r.1.1 p price ∧
      ∀ pos, pos ≠ e.1 → (r.1.1.level p price).find? pos = (x.1.level p price).find? pos := by
  unfold cancelRound at h
  split_ifs at h
  · simp only [do_eq_some, pure_eq_some] at h
    obtain ⟨s₁, h1, rfl⟩ := h
    exact eraseOrder_same (transferTally_metadex h1) e.1
  · cases h
    exact ⟨SamePricesBut.refl _ _ _, fun _ _ => rfl⟩

theorem visit_cancelRound {l : List (Position × CMPMetaDEx)} {r : (State × Int) × Bool}
    (h : visit (cancelRound sel p price) l x = some r) : SamePricesBut x.1 r.1.1 p price :=
  visit_rel (R := fun x x' : State × Int => SamePricesBut x.1 x'.1 p price)
    (fun _ => SamePricesBut.refl _ _ _) (fun _ _ _ => SamePricesBut.trans)
    (fun _ _ _ hround => (cancelRound_same hround).1) h

/-- The orders that are at one price when the loop starts. -/
def cancelEntries (skip : ℚ → Bool) (sel : OrderRef → Bool) (p : PropertyId) (e : ℚ × MdSet)
    (x : State × Int) : Option ((State × Int) × Bool) :=
  if skip e.1 then some (x, false) else visit (cancelRound sel p e.1) e.2.entries x

theorem cancelLevel_eq {set : MdSet} (hset : (x.1.prices p).find? price = some set) :
    cancelLevel skip sel p (price, set) x = cancelEntries skip sel p (price, set) x := by
  have hview : x.1.level p price = set := by rw [State.level_eq, hset, Option.getD_some]
  unfold cancelLevel cancelEntries
  split_ifs
  · rfl
  · have hlocal : Local (fun x : State × Int => x.1.level p price) (cancelRound sel p price) :=
      fun _ _ _ _ _ hround => (cancelRound_same hround).2
    have hloop := iterate_eq_visit hlocal x set.entries.length (by rw [hview])
    rw [hview] at hloop
    exact hloop

theorem cancelEntries_local : Local (fun x : State × Int => x.1.prices p) (cancelEntries skip sel p) := by
  intro price set x r _ hround price' hne
  unfold cancelEntries at hround
  split_ifs at hround
  · cases hround
    rfl
  · exact (visit_cancelRound hround).prices price' hne

theorem visit_cancelRef_none {l : List OrderRef} (h : ∀ r ∈ l, sel r = false) :
    visit (cancelRef sel) l x = some (x, false) := by
  induction l with
  | nil => rfl
  | cons r rest ih =>
    rw [visit, cancelRef, h r List.mem_cons_self, if_neg (by simp), Option.bind_some, if_neg (by simp)]
    exact ih fun r' hr' => h r' (.tail _ hr')

theorem cancelPrices_eq_visit {prices : MdPricesMap}
    (hp : x.1.metadex.find? p = some prices) :
    cancelPrices skip sel p prices x = visit (cancelEntries skip sel p) prices.entries x := by
  have hview : x.1.prices p = prices := by rw [State.prices, hp, Option.getD_some]
  have hloop := iterate_eq_visit (@cancelEntries_local sel skip p) x prices.entries.length (by rw [hview])
  rw [hview] at hloop
  rw [cancelPrices, iterate_congr (fun _ _ _ hset => cancelLevel_eq hset), hloop]

theorem cancelPrices_eq {prices : MdPricesMap} (hp : x.1.metadex.find? p = some prices)
    (hsel : ∀ r : OrderRef, r.property = p → sel' r = (!skip r.price && sel r)) :
    cancelPrices skip sel p prices x = visit (cancelRef sel') (MdPricesMap.orders p prices) x := by
  rw [cancelPrices_eq_visit hp, MdPricesMap.orders, visit_flatMap]
  congr 1
  funext e x
  rw [visit_map, ← @visit_map _ _ _ (cancelRef sel')]
  cases hskip : skip e.1 with
  | false =>
    have heq : (fun o : Position × CMPMetaDEx => cancelRef sel' ⟨p, e.1, o.1, o.2⟩) =
        cancelRound sel p e.1 := by
      funext o x
      rw [cancelRef, cancelRound, hsel _ rfl, hskip]
      simp
    rw [cancelEntries, hskip, if_neg (by simp), visit_map, heq]
  | true =>
    rw [cancelEntries, hskip, if_pos rfl, visit_cancelRef_none]
    intro r hr
    obtain ⟨o, -, rfl⟩ := List.mem_map.mp hr
    rw [hsel _ rfl, hskip]
    rfl

theorem visit_cancelEntries {l : List (ℚ × MdSet)} {r : (State × Int) × Bool}
    (h : visit (cancelEntries skip sel p) l x = some r) :
    ∀ q, q ≠ p → r.1.1.metadex.find? q = x.1.metadex.find? q := by
  refine visit_rel (R := fun x x' : State × Int => ∀ q, q ≠ p → x'.1.metadex.find? q = x.1.metadex.find? q)
    (fun _ _ _ => rfl) (fun _ _ _ h1 h2 q hne => (h2 q hne).trans (h1 q hne)) (fun e x r hlevel => ?_) h
  unfold cancelEntries at hlevel
  split_ifs at hlevel
  · cases hlevel
    exact fun _ _ => rfl
  · exact (visit_cancelRound hlevel).properties

theorem cancelBook_eq {skip : PropertyId → Bool}
    (hsel : ∀ r : OrderRef, sel' r = (!skip r.property && sel r)) :
    cancelBook skip sel x = visit (cancelRef sel') (MdPropertiesMap.orders x.1.metadex) x := by
  have hbody : ∀ p prices (x : State × Int), x.1.metadex.find? p = some prices →
      (if skip p then some (x, false) else cancelPrices (fun _ => false) sel p prices x) =
        visit (cancelRef sel') (MdPricesMap.orders p prices) x := by
    intro p prices x hp
    cases hskip : skip p with
    | false =>
      rw [if_neg (by simp)]
      refine cancelPrices_eq hp fun r hr => ?_
      rw [hsel, hr, hskip]
    | true =>
      rw [if_pos rfl, visit_cancelRef_none]
      intro r hr
      rw [hsel, (mem_pricesOrders hr).1, hskip, Bool.not_true, Bool.false_and]
  have hlocal : Local (fun x : State × Int => x.1.metadex)
      fun e x => visit (cancelRef sel') (MdPricesMap.orders e.1 e.2) x := by
    intro p prices x r hp hround q hne
    dsimp only at hround
    rw [← hbody p prices x hp] at hround
    split_ifs at hround
    · cases hround
      rfl
    · rw [cancelPrices_eq_visit hp] at hround
      exact visit_cancelEntries hround q hne
  have hloop := iterate_eq_visit hlocal x x.1.metadex.entries.length le_rfl
  have hcongr := @iterate_congr _ _ _ _ (fun x : State × Int => x.1.metadex)
    (fun e x => if skip e.1 then some (x, false) else cancelPrices (fun _ => false) sel e.1 e.2 x)
    (fun e x => visit (cancelRef sel') (MdPricesMap.orders e.1 e.2) x) hbody
  rw [cancelBook, hcongr, hloop, MdPropertiesMap.orders, visit_flatMap]

theorem cancelLoop_eq_visit (l : List OrderRef) (s : State) (rc : Int) :
    (visit (cancelRef sel) l (s, rc)).map cancelResult =
      (cancelLoop sel l s).map fun s' => (if l.any sel then 0 else rc, s') := by
  induction l generalizing s rc with
  | nil => rfl
  | cons r rest ih =>
    rw [visit, cancelRef, cancelLoop, List.any_cons]
    cases hsel : sel r with
    | true =>
      rw [if_pos rfl, if_pos rfl]
      simp only [Option.bind_eq_bind, Option.pure_def, Bool.true_or, if_true]
      cases transferTally s r.order.property r.order.amountRemaining (r.order.addr, .metadexReserve)
          (r.order.addr, .balance) with
      | none => rfl
      | some s₁ =>
        simp only [Option.bind_some, Bool.false_eq_true, if_false]
        rw [ih, ite_self]
    | false =>
      simp only [Bool.false_eq_true, if_false, Option.bind_some, Bool.false_or]
      exact ih s rc

theorem cancelOrders_eq_visit (s : State) (l : List OrderRef) (nothing : Int) :
    cancelOrders s sel l nothing = (visit (cancelRef sel) l (s, nothing)).map cancelResult := by
  rw [cancelLoop_eq_visit, cancelOrders]
  cases cancelLoop sel l s <;> rfl

end

section
variable (s : State) (sender : Address)

/-- **The cancels by iterator** cancel the orders of the start: none is skipped, and none is
met twice. -/
theorem cancelAtPriceWalk_eq (p : PropertyId) (amount : Int)
    (desiredProperty : PropertyId) (amountDesired : Int) :
    cancelAtPriceWalk s sender p amount desiredProperty amountDesired =
      metadexCancelAtPrice s sender p amount desiredProperty amountDesired := by
  unfold cancelAtPriceWalk metadexCancelAtPrice
  cases hp : s.metadex.find? p with
  | none => rfl
  | some prices =>
    dsimp only
    rw [cancelOrders_eq_visit, cancelPrices_eq (x := (s, metadexError - 20)) hp]
    intro r _
    simp

theorem cancelAllForPairWalk_eq (p desiredProperty : PropertyId) :
    cancelAllForPairWalk s sender p desiredProperty =
      metadexCancelAllForPair s sender p desiredProperty := by
  unfold cancelAllForPairWalk metadexCancelAllForPair
  cases hp : s.metadex.find? p with
  | none => rfl
  | some prices =>
    dsimp only
    rw [cancelOrders_eq_visit, cancelPrices_eq (x := (s, metadexError - 30)) hp]
    intro r _
    simp

theorem cancelEverythingWalk_eq (ecosystem : Nat) :
    cancelEverythingWalk s sender ecosystem = metadexCancelEverything s sender ecosystem := by
  unfold cancelEverythingWalk metadexCancelEverything
  rw [cancelOrders_eq_visit, cancelBook_eq]
  intro r
  rw [Bool.not_or, Bool.and_assoc]

end

end Rapids.Token
