import Rapids.Token.Cancel

/-!
# Rapids.Token.Shutdown

**Closing the pairs without a reserved property**, `MetaDEx_SHUTDOWN_ALLPAIR`.

The innermost loop has no increment: it moves on by `erase(it++)`, in the branch for orders
of which neither side is reserved. At an order with a reserved side (property 1 or 2) it
stays forever. So the function returns only where the book has no such order, and what it
does then is to return every order there is.
-/

namespace Rapids.Token

open Rapids.Lib

/-! ### The loops -/

/-- No reserved property on either side. -/
def isAllpair (o : CMPMetaDEx) : Prop := propertyTMSC < o.desiredProperty ∧ propertyTMSC < o.property

instance (o : CMPMetaDEx) : Decidable (isAllpair o) := inferInstanceAs (Decidable (_ ∧ _))

/-- The innermost loop, for a number of rounds. The flag says that it is still running
when they are used up. -/
def allpairLevel (p : PropertyId) (price : ℚ) : Nat → Option Position → State → Option (State × Bool)
  | _, none, s => some (s, false)
  | 0, some _, s => some (s, true)
  | rounds + 1, some pos, s =>
    ((s.level p price).find? pos).bind fun o =>
      if isAllpair o then do
        let s₁ ← transferTally s o.property o.amountRemaining (o.addr, .metadexReserve) (o.addr, .balance)
        allpairLevel p price rounds ((s.level p price).next? pos) (s₁.eraseOrder p price pos)
      else allpairLevel p price rounds (some pos) s

/-- The prices of one property. Each innermost loop gets a round for every order it finds,
and `extra` more. -/
def allpairPrices (extra : Nat) (p : PropertyId) (prices : MdPricesMap) (s : State) :
    Option (State × Bool) :=
  iterate (fun s => s.prices p)
    (fun e s => allpairLevel p e.1 (e.2.entries.length + extra) e.2.first? s)
    prices.entries.length prices.first? s

/-- `MetaDEx_SHUTDOWN_ALLPAIR`, by iterator. -/
def shutdownAllpairWalk (extra : Nat) (s : State) : Option (State × Bool) :=
  iterate (fun s => s.metadex) (fun e s => allpairPrices extra e.1 e.2 s)
    s.metadex.entries.length s.metadex.first? s

/-- One order of a list: it is returned, or never left again. -/
def allpairRef (r : OrderRef) (s : State) : Option (State × Bool) :=
  if isAllpair r.order then do
    let s₁ ← transferTally s r.order.property r.order.amountRemaining (r.order.addr, .metadexReserve)
      (r.order.addr, .balance)
    return (s₁.eraseOrder r.property r.price r.pos, false)
  else some (s, true)

section
variable {s s' : State} {p : PropertyId} {price : ℚ} {l : List OrderRef} {extra rounds : Nat}

theorem allpairLevel_stuck {pos : Position} {o : CMPMetaDEx} (ho : (s.level p price).find? pos = some o)
    (hside : ¬ isAllpair o) (rounds : Nat) : allpairLevel p price rounds (some pos) s = some (s, true) := by
  induction rounds with
  | zero => rfl
  | succ rounds ih => rw [allpairLevel, ho, Option.bind_some, if_neg hside, ih]

variable {r : State × Bool}

theorem allpairRef_same {e : Position × CMPMetaDEx}
    (h : allpairRef ⟨p, price, e.1, e.2⟩ s = some r) :
    SamePricesBut s r.1 p price ∧
      ∀ pos, pos ≠ e.1 → (r.1.level p price).find? pos = (s.level p price).find? pos := by
  unfold allpairRef at h
  split_ifs at h
  · simp only [do_eq_some, pure_eq_some] at h
    obtain ⟨s₁, h1, rfl⟩ := h
    exact eraseOrder_same (transferTally_metadex h1) e.1
  · cases h
    exact ⟨SamePricesBut.refl _ _ _, fun _ _ => rfl⟩

/-- With enough rounds for the orders that are left, more of them do not matter. -/
theorem allpairLevel_eq_visit {it : Option Position} {rest : List (Position × CMPMetaDEx)}
    (h : Standing (s.level p price) it rest) (hrounds : rest.length ≤ rounds) :
    allpairLevel p price rounds it s = visit (fun e => allpairRef ⟨p, price, e.1, e.2⟩) rest s := by
  induction rest generalizing rounds it s with
  | nil =>
    rw [h.here]
    cases rounds <;> rfl
  | cons e rest ih =>
    obtain ⟨pos, o⟩ := e
    obtain ⟨hit, hfind, -⟩ := h.cons
    obtain ⟨rounds, rfl⟩ : ∃ n, rounds = n + 1 :=
      ⟨rounds - 1, by simp only [List.length_cons] at hrounds; omega⟩
    rw [hit, visit]
    by_cases hside : isAllpair o
    · rw [allpairLevel, hfind, Option.bind_some, if_pos hside]
      cases h1 : transferTally s o.property o.amountRemaining (o.addr, .metadexReserve)
          (o.addr, .balance) with
      | none =>
        rw [allpairRef, if_pos hside]
        simp [h1]
      | some s₁ =>
        have hround : allpairRef ⟨p, price, pos, o⟩ s = some (s₁.eraseOrder p price pos, false) := by
          rw [allpairRef, if_pos hside]
          simp [h1]
        rw [hround, Option.bind_eq_bind, Option.bind_some, Option.bind_some, if_neg (by simp)]
        have hsame := (allpairRef_same (e := (pos, o)) hround).2
        refine ih (h.next hsame) ?_
        simp only [List.length_cons] at hrounds
        omega
    · rw [allpairLevel_stuck hfind hside, allpairRef, if_neg hside, Option.bind_some, if_pos rfl]

theorem visit_allpairRef {rest : List (Position × CMPMetaDEx)}
    (h : visit (fun e => allpairRef ⟨p, price, e.1, e.2⟩) rest s = some r) :
    SamePricesBut s r.1 p price :=
  visit_rel (R := fun s s' => SamePricesBut s s' p price) (fun _ => SamePricesBut.refl _ _ _)
    (fun _ _ _ => SamePricesBut.trans) (fun _ _ _ hround => (allpairRef_same hround).1) h

/-- The body of the loop over prices. -/
def allpairEntries (p : PropertyId) (e : ℚ × MdSet) (s : State) : Option (State × Bool) :=
  visit (fun o => allpairRef ⟨p, e.1, o.1, o.2⟩) e.2.entries s

theorem allpairPrices_eq_visit {prices : MdPricesMap} (hp : s.metadex.find? p = some prices) :
    allpairPrices extra p prices s = visit (allpairEntries p) prices.entries s := by
  have hview : s.prices p = prices := by rw [State.prices, hp, Option.getD_some]
  have hbody : ∀ price set (s : State), (s.prices p).find? price = some set →
      allpairLevel p price (set.entries.length + extra) set.first? s = allpairEntries p (price, set) s := by
    intro price set s hset
    have hlevel : s.level p price = set := by rw [State.level_eq, hset, Option.getD_some]
    exact allpairLevel_eq_visit (hlevel ▸ standing_first _) (Nat.le_add_right _ _)
  have hlocal : Local (fun s : State => s.prices p) (allpairEntries p) :=
    fun price set s r _ hround => (visit_allpairRef hround).prices
  have hloop := iterate_eq_visit hlocal s prices.entries.length (by rw [hview])
  rw [hview] at hloop
  rw [allpairPrices, ← hloop]
  exact iterate_congr hbody _ _ _

theorem visit_allpairEntries {entries : List (ℚ × MdSet)}
    (h : visit (allpairEntries p) entries s = some r) :
    ∀ q, q ≠ p → r.1.metadex.find? q = s.metadex.find? q :=
  visit_rel (R := fun s s' : State => ∀ q, q ≠ p → s'.metadex.find? q = s.metadex.find? q)
    (fun _ _ _ => rfl) (fun _ _ _ h1 h2 q hne => (h2 q hne).trans (h1 q hne))
    (fun _ _ _ hlevel => (visit_allpairRef hlevel).properties) h

/-- **By iterator** the function visits the orders of the start, until it meets one that it
never leaves. -/
theorem shutdownAllpairWalk_eq (extra : Nat) (s : State) :
    shutdownAllpairWalk extra s = visit allpairRef (MdPropertiesMap.orders s.metadex) s := by
  have hlocal : Local (fun s : State => s.metadex) fun e s => visit (allpairEntries e.1) e.2.entries s :=
    fun p prices s r _ hround => visit_allpairEntries hround
  have hloop := iterate_eq_visit hlocal s s.metadex.entries.length le_rfl
  have hbody : ∀ p prices (s : State), s.metadex.find? p = some prices →
      allpairPrices extra p prices s = visit (allpairEntries p) prices.entries s :=
    fun _ _ _ hp => allpairPrices_eq_visit hp
  have hcongr := @iterate_congr _ _ _ _ (fun s : State => s.metadex)
    (fun e s => allpairPrices extra e.1 e.2 s) (fun e s => visit (allpairEntries e.1) e.2.entries s) hbody
    s.metadex.entries.length s.metadex.first? s
  rw [shutdownAllpairWalk, hcongr, hloop, MdPropertiesMap.orders, visit_flatMap]
  congr 1
  funext e s
  rw [MdPricesMap.orders, visit_flatMap]
  congr 1
  funext level s
  rw [visit_map]
  rfl

/-! ### When it returns -/

/-- It returns where all orders are of that kind, and then it returns all of them. -/
theorem visit_allpairRef_eq_some :
    visit allpairRef l s = some (s', false) ↔
      (∀ r ∈ l, isAllpair r.order) ∧ cancelLoop (fun _ => true) l s = some s' := by
  induction l generalizing s with
  | nil => simp [visit, cancelLoop]
  | cons r rest ih =>
    rw [visit, cancelLoop, if_pos rfl, List.forall_mem_cons]
    by_cases hside : isAllpair r.order
    · rw [allpairRef, if_pos hside]
      cases h1 : transferTally s r.order.property r.order.amountRemaining
          (r.order.addr, .metadexReserve) (r.order.addr, .balance) with
      | none => simp [h1]
      | some s₁ =>
        simp only [h1, Option.bind_eq_bind, Option.bind_some, Option.pure_def]
        rw [if_neg (by simp), ih]
        simp [hside]
    · rw [allpairRef, if_neg hside, Option.bind_some, if_pos rfl]
      simp [hside]

theorem shutdownAllpairLoop_eq_some :
    shutdownAllpairLoop (MdPropertiesMap.orders s.metadex) s = some s' ↔
      ∃ extra, shutdownAllpairWalk extra s = some (s', false) := by
  have hloop : ∀ (l : List OrderRef) (s : State), shutdownAllpairLoop l s = some s' ↔
      visit allpairRef l s = some (s', false) := by
    intro l
    induction l with
    | nil => simp [shutdownAllpairLoop, visit]
    | cons r rest ih =>
      intro s
      rw [shutdownAllpairLoop, visit, allpairRef]
      by_cases hside : isAllpair r.order
      · rw [if_pos hside, if_pos (show propertyTMSC < _ ∧ propertyTMSC < _ from hside)]
        cases h1 : transferTally s r.order.property r.order.amountRemaining
            (r.order.addr, .metadexReserve) (r.order.addr, .balance) with
        | none => simp
        | some s₁ =>
          simp only [Option.bind_eq_bind, Option.bind_some, Option.pure_def]
          rw [if_neg (by simp)]
          exact ih _
      · rw [if_neg hside, if_neg (show ¬ (propertyTMSC < _ ∧ propertyTMSC < _) from hside)]
        simp
  rw [hloop]
  constructor
  · intro h
    exact ⟨0, by rw [shutdownAllpairWalk_eq, h]⟩
  · rintro ⟨extra, h⟩
    rw [← shutdownAllpairWalk_eq extra, h]

theorem visit_allpairRef_stuck {block : Nat} (hc : Core s block) (hb : BookInv s) (hl : Listed s l)
    (hfit : ∀ a q, getTokenBalance s a q .balance +
      amountReturned (l.filter fun r => decide (isAllpair r.order)) a q ≤ i64Max)
    (hside : ∃ r ∈ l, ¬ isAllpair r.order) : ∃ s', visit allpairRef l s = some (s', true) := by
  -- the orders before it are all returned
  obtain ⟨pre, r, rest, rfl, hpre, hr⟩ : ∃ pre r rest, l = pre ++ r :: rest ∧
      (∀ x ∈ pre, isAllpair x.order) ∧ ¬ isAllpair r.order := by
    clear hl hfit
    induction l with
    | nil => simp at hside
    | cons x rest ih =>
      by_cases hx : isAllpair x.order
      · obtain ⟨r, hr, hnot⟩ := hside
        rcases List.mem_cons.mp hr with rfl | hr
        · exact absurd hx hnot
        · obtain ⟨pre, r, rest', rfl, hpre, hr⟩ := ih ⟨r, hr, hnot⟩
          exact ⟨x :: pre, r, rest', rfl, List.forall_mem_cons.mpr ⟨hx, hpre⟩, hr⟩
      · exact ⟨[], x, rest, rfl, fun _ h => absurd h List.not_mem_nil, hx⟩
  have hall : pre.filter (fun _ => true) = pre := List.filter_eq_self.mpr fun _ _ => rfl
  have hkept : pre.filter (fun r => decide (isAllpair r.order)) = pre :=
    List.filter_eq_self.mpr fun x hx => decide_eq_true (hpre x hx)
  obtain ⟨s₁, h1⟩ := cancelLoop_isSome (fun _ => true) hc hb hl.append_left fun a q => by
    have hle := hfit a q
    rw [List.filter_append, hkept, amountReturned, List.map_append, List.sum_append] at hle
    have hrest := amountReturned_nonneg (fun r => decide (isAllpair r.order)) hb.placed
      hl.append_right a q
    rw [hall]
    unfold amountReturned at hrest ⊢
    omega
  have hvisit := visit_allpairRef_eq_some.mpr ⟨hpre, h1⟩
  refine ⟨s₁, ?_⟩
  rw [visit_append, hvisit, Option.bind_some, if_neg (by simp), visit, allpairRef, if_neg hr,
    Option.bind_some, if_pos rfl]

end

/-- **An exact shutdown**: it returns, with the orders between other properties taken out of
the book and their tokens returned. -/
def ClosesExactly (s : State) : Prop :=
  ∃ extra s', shutdownAllpairWalk extra s = some (s', false) ∧ Removed s s' (s.ordersWith isAllpair)

theorem closesExactly_iff {s : State} {block : Nat} (hc : Core s block) (hb : BookInv s) :
    ClosesExactly s ↔
      (∀ p price pos o, s.orderAt p price pos = some o → isAllpair o) ∧ RoomFor s isAllpair := by
  have hl := listed_bookOrders s
  have hall : (∀ r ∈ MdPropertiesMap.orders s.metadex, isAllpair r.order) ↔
      ∀ p price pos o, s.orderAt p price pos = some o → isAllpair o := by
    constructor
    · exact fun h p price pos o ho => h ⟨p, price, pos, o⟩ (mem_bookOrders_iff.mpr ho)
    · exact fun h r hr => h _ _ _ _ (mem_bookOrders_iff.mp hr)
  have hwith : (∀ r ∈ MdPropertiesMap.orders s.metadex, isAllpair r.order) →
      (MdPropertiesMap.orders s.metadex).filter (fun _ => true) = s.ordersWith isAllpair := fun h =>
    List.filter_congr fun r hr => (decide_eq_true (h r hr)).symm
  constructor
  · rintro ⟨extra, s', hwalk, -⟩
    rw [shutdownAllpairWalk_eq, visit_allpairRef_eq_some] at hwalk
    refine ⟨hall.mp hwalk.1, fun a q => ?_⟩
    rw [← hwith hwalk.1]
    exact cancelLoop_fits hc hl hwalk.2 a q
  · intro h
    have horders := hall.mpr h.1
    obtain ⟨s', h'⟩ := cancelLoop_isSome (fun _ => true) hc hb hl fun a q => by
      rw [hwith horders]
      exact h.2 a q
    refine ⟨0, s', ?_, hwith horders ▸ cancelLoop_removed h'⟩
    rw [shutdownAllpairWalk_eq]
    exact visit_allpairRef_eq_some.mpr ⟨horders, h'⟩

/-- **Closing the pairs** from every reachable state: it returns and is exact if and only if
no order has a reserved side and there is room for what is returned. With room and such an
order it never ends, however many rounds it gets. -/
theorem shutdown_exact_iff {cfg : Config} {es : List Event} {n : Node}
    (h : run step (Node.initial cfg) es = some n) :
    (ClosesExactly n.state ↔
      (∀ p price pos o, n.state.orderAt p price pos = some o → isAllpair o) ∧
        RoomFor n.state isAllpair) ∧
    (RoomFor n.state isAllpair →
      (∃ p price pos o, n.state.orderAt p price pos = some o ∧ ¬ isAllpair o) →
      ∀ extra, ∃ s', shutdownAllpairWalk extra n.state = some (s', true)) := by
  obtain ⟨hi, hb⟩ := run_bookInv h
  refine ⟨closesExactly_iff hi.core hb, fun hroom hside extra => ?_⟩
  obtain ⟨p, price, pos, o, ho, hnot⟩ := hside
  rw [shutdownAllpairWalk_eq]
  exact visit_allpairRef_stuck hi.core hb (listed_bookOrders n.state) hroom
    ⟨⟨p, price, pos, o⟩, mem_bookOrders_iff.mpr ho, hnot⟩

/-! ### Two books -/

/-- Alice's orders of gold for silver are closed. -/
theorem shutdown_exact_of_bookRun :
    ∃ n, run step (Node.initial exchangeCfg) bookRun = some n ∧
      (shutdownAllpairWalk 0 n.state).map (fun r => (r.2, getTokenBalance r.1 "alice" 3 .balance)) =
        some (false, 1000) ∧
      (ClosesExactly n.state ↔
        (∀ p price pos o, n.state.orderAt p price pos = some o → isAllpair o) ∧
          RoomFor n.state isAllpair) := by
  have hrun : ((run step (Node.initial exchangeCfg) bookRun).bind fun n =>
      (shutdownAllpairWalk 0 n.state).map fun r => (r.2, getTokenBalance r.1 "alice" 3 .balance)) =
      some (false, 1000) := by decide +kernel
  obtain ⟨n, hn, hout⟩ := Option.bind_eq_some_iff.mp hrun
  exact ⟨n, hn, hout, (shutdown_exact_iff hn).1⟩

/-- An order for the test token: closing the pairs never ends. -/
theorem shutdown_stuck_stocked :
    ∃ n, run step (Node.initial regtestCfg) stockedBlock = some n ∧ ¬ ClosesExactly n.state ∧
      ∀ extra, ∃ s', shutdownAllpairWalk extra n.state = some (s', true) := by
  have hblock : ((run freshStep (Node.initial regtestCfg) stockedBlock).map fun n =>
      n.state.orderAt testEcoProperty1 1 (position 1 2)) =
      some (some ⟨"first", 1, testEcoProperty1, i64Max, 2, i64Max, 2, 2, i64Max⟩) := by decide +kernel
  obtain ⟨n, hn, horder⟩ := Option.map_eq_some_iff.mp hblock
  obtain ⟨hi, hb⟩ := run_bookInv (run_of_guarded hn)
  refine ⟨n, run_of_guarded hn, fun h => ?_, fun extra => ?_⟩
  · have hside := ((closesExactly_iff hi.core hb).mp h).1 _ _ _ _ horder
    exact absurd hside (by decide)
  · rw [shutdownAllpairWalk_eq]
    exact visit_allpairRef_stuck hi.core hb (listed_bookOrders n.state) (run_roomFor isAllpair hn)
      ⟨⟨testEcoProperty1, 1, position 1 2, _⟩, mem_bookOrders_iff.mpr horder, by decide⟩

end Rapids.Token
