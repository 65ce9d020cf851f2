import Rapids.Token.Matching

/-!
# Rapids.Token.Limits

**Limits of orders, along runs.** An order that `logicMath_MetaDExTrade` admits meets a
market (`Rapids.Token.Matching`): the checks give it positive amounts, two properties, and a
sender who owns what is sold and is not frozen for it. So in every reachable state it is
matched and added without a failed assertion, if its fees are covered.

Each fill is within the limits of both orders, and the limits are linear in the amounts. So
over a whole run an order gets at least what it asks for all that it gives, rounding
included.
-/

namespace Rapids.Token

open Rapids.Lib

/-! ### Admission -/

/-- The checks of `logicMath_MetaDExTrade`. -/
def tradeChecks (s : State) (tx : CMPTransaction) : List (Bool × Int) :=
  pairChecks s tx .metadexTrade ++ pairAmountChecks tx ++
    [ (!isFeatureActivated s.params Feature.tradeallpairs.id tx.block && !hasReservedSide tx,
        pktErrorMetadex - 35),
      (insufficient s tx tx.nNewValue, pktErrorMetadex - 25) ]

/-- Is the packet a trade that is admitted? -/
def admitsTrade (s : State) (tx : CMPTransaction) : Bool :=
  !tx.rpcOnly && tx.interpreted && !isAddressFrozen s tx.sender tx.property &&
    TxType.ofId tx.type == some .metadexTrade && (tradeChecks s tx).all fun c => !c.1

/-- **What is expected of an admitted order**: every assertion of the matching holds, the order
is added, and every fill is fair. -/
structure Executes (s : State) (tx : CMPTransaction) (env : TxEnv) : Prop where
  matched : (xTrade tx.order s).isSome = true
  added : (interpretPacket s tx env).isSome = true
  fair : ∀ f ∈ xTradeFills tx.order s, FairFill f.new f.ref.order f.got f.paid

section
variable {s : State} {tx : CMPTransaction} {env : TxEnv}

theorem admitsTrade_cases (h : admitsTrade s tx = true) :
    isAddressFrozen s tx.sender tx.property = false ∧ (∀ c ∈ tradeChecks s tx, c.1 = false) ∧
      interpretPacket s tx env = metadexAdd s tx.sender tx.property (toI64 tx.nNewValue) tx.block
        tx.desiredProperty (toI64 tx.desiredValue) tx.txid tx.txIdx := by
  simp only [admitsTrade, Bool.and_eq_true, Bool.not_eq_true', beq_iff_eq, List.all_eq_true] at h
  obtain ⟨⟨⟨⟨hrpc, hinterpreted⟩, hfrozen⟩, htype⟩, hchecks⟩ := h
  refine ⟨hfrozen, hchecks, ?_⟩
  unfold interpretPacket
  rw [reject_pass (by simp [hrpc, hinterpreted, hfrozen]), htype]
  exact reject_pass hchecks

theorem openOrder_of_admitted (h : admitsTrade s tx = true) :
    OpenOrder tx.order ∧ tx.property ≠ tx.desiredProperty ∧
      tx.order.amountRemaining ≤ getTokenBalance s tx.order.addr tx.order.property .balance := by
  obtain ⟨-, hchecks, -⟩ := @admitsTrade_cases s tx { blockHash := none } h
  simp only [tradeChecks, pairChecks, pairAmountChecks, List.cons_append, List.nil_append,
    List.forall_mem_cons] at hchecks
  obtain ⟨-, hpair, -, -, -, hvalue, hasked, -, hfunds, -⟩ := hchecks
  obtain ⟨hpos, -, hcast⟩ := isOutOfRange_eq_false hvalue
  obtain ⟨hposAsked, -, hcastAsked⟩ := isOutOfRange_eq_false hasked
  have hfits := (inI64_toI64 tx.nNewValue).2
  refine ⟨⟨?_, ?_, ?_, ?_⟩, ?_, ?_⟩
  · dsimp only [CMPTransaction.order]
    omega
  · dsimp only [CMPTransaction.order]
    exact le_rfl
  · dsimp only [CMPTransaction.order]
    exact hfits
  · dsimp only [CMPTransaction.order]
    omega
  · simpa using hpair
  · simpa [insufficient, CMPTransaction.order] using hfunds

section
variable (hi : LedgerInv s) (hb : BookInv s) (hf : FeesUpTo s tx.block) (h : admitsTrade s tx = true)
include hi hb hf h

theorem market_of_admitted
    : Market s tx.order [] := by
  obtain ⟨hfrozen, -, -⟩ := @admitsTrade_cases s tx { blockHash := none } h
  obtain ⟨hincoming, hdiffer, hfunded⟩ := openOrder_of_admitted h
  exact ⟨hi, hb, hf, ⟨fun r hr => absurd hr List.not_mem_nil, List.Pairwise.nil⟩,
    fun r hr => absurd hr List.not_mem_nil, hincoming, hdiffer, hfunded, hfrozen⟩

theorem executes_iff
    :
    Executes s tx env ↔ FeesCovered s tx.order (s.plannedFills tx.order) := by
  have hm := market_of_admitted hi hb hf h
  rw [← hm.xTrade_isSome_iff]
  constructor
  · exact fun hexec => hexec.matched
  · intro hmatched
    refine ⟨hmatched, ?_, ?_⟩
    · rw [(admitsTrade_cases h).2.2, hm.metadexAdd_isSome_iff]
      exact hmatched
    · obtain ⟨out, hout⟩ := Option.isSome_iff_exists.mp hmatched
      rw [(hm.xTrade_spec hout).1]
      exact hm.plannedFills_fair

end

end

/-! ### The life of an order -/

/-- An order as it was placed. -/
def CMPMetaDEx.placed (o : CMPMetaDEx) : CMPMetaDEx := { o with amountRemaining := o.amountForsale }

/-- What an order receives in a fill, before fees. -/
def Fill.receives (f : Fill) (o : CMPMetaDEx) : Int :=
  (if f.new.placed = o.placed then f.got else 0) + if f.ref.order.placed = o.placed then f.paid else 0

/-- What it sells in a fill. -/
def Fill.sells (f : Fill) (o : CMPMetaDEx) : Int :=
  (if f.new.placed = o.placed then f.paid else 0) + if f.ref.order.placed = o.placed then f.got else 0

/-- The fills an event makes. -/
def eventFills (s : State) : Event → List Fill
  | .packet tx _ => if admitsTrade s tx then xTradeFills tx.order s else []
  | _ => []

/-- The fills of a run. -/
def fillsAlong : Node → List Event → List Fill
  | _, [] => []
  | n, e :: rest => eventFills n.state e ++ ((step n e).map fun n' => fillsAlong n' rest).getD []

def totalReceived (fills : List Fill) (o : CMPMetaDEx) : Int := (fills.map fun f => f.receives o).sum

def totalSold (fills : List Fill) (o : CMPMetaDEx) : Int := (fills.map fun f => f.sells o).sum

/-- A fill within the limits of both orders, as whole numbers. -/
structure WithinLimits (f : Fill) : Prop where
  incoming : f.paid * f.new.amountDesired ≤ f.got * f.new.amountForsale
  resting : f.got * f.ref.order.amountDesired ≤ f.paid * f.ref.order.amountForsale

theorem FairFill.withinLimits {f : Fill} (h : FairFill f.new f.ref.order f.got f.paid)
    (hnew : OpenOrder f.new) (hold : OpenOrder f.ref.order) : WithinLimits f := by
  have hgot : (0 : ℚ) < f.got := Int.cast_pos.mpr (by have := h.got_pos; omega)
  have hincoming := h.incoming
  have hresting := h.resting
  rw [hnew.inversePrice_eq, div_le_div_iff₀ hgot (Int.cast_pos.mpr hnew.desired)] at hincoming
  rw [hold.unitPrice_eq, div_le_div_iff₀ (Int.cast_pos.mpr hold.forsale) hgot] at hresting
  refine ⟨?_, ?_⟩
  · rw [mul_comm f.got]
    exact_mod_cast hincoming
  · rw [mul_comm f.got]
    exact_mod_cast hresting

theorem plannedFills_withinLimits {l : List OrderRef} {new : CMPMetaDEx} (hopen : ∀ r ∈ l, OpenOrder r.order)
    (hnew : OpenOrder new) : ∀ f ∈ plannedFills l new, WithinLimits f := by
  refine plannedFills_forall hopen hnew fun new r got paid hnew hr hfill => ?_
  have hfair := fillOf_fair hnew.remaining.le (hnew.within.trans hnew.forsaleFits) hr hfill
  exact FairFill.withinLimits hfair hnew hr

/-- What holds of each fill for the amounts of both orders holds of their sums. -/
theorem totals_withinLimit {fills : List Fill} (h : ∀ f ∈ fills, WithinLimits f) (o : CMPMetaDEx) :
    totalSold fills o * o.amountDesired ≤ totalReceived fills o * o.amountForsale := by
  induction fills with
  | nil => simp [totalSold, totalReceived]
  | cons f rest ih =>
    have hf := h f (.head _)
    have hrest := ih fun f hf => h f (.tail _ hf)
    have hone : f.sells o * o.amountDesired ≤ f.receives o * o.amountForsale := by
      have hdesired : ∀ o' : CMPMetaDEx, o'.placed = o.placed →
          o'.amountDesired = o.amountDesired ∧ o'.amountForsale = o.amountForsale := by
        intro o' heq
        have hasked := congrArg CMPMetaDEx.amountDesired heq
        have hoffered := congrArg CMPMetaDEx.amountForsale heq
        exact ⟨hasked, hoffered⟩
      have hincoming : (if f.new.placed = o.placed then f.paid else 0) * o.amountDesired ≤
          (if f.new.placed = o.placed then f.got else 0) * o.amountForsale := by
        split_ifs with hnew
        · rw [← (hdesired _ hnew).1, ← (hdesired _ hnew).2]
          exact hf.incoming
        · simp
      have hresting : (if f.ref.order.placed = o.placed then f.got else 0) * o.amountDesired ≤
          (if f.ref.order.placed = o.placed then f.paid else 0) * o.amountForsale := by
        split_ifs with hold
        · rw [← (hdesired _ hold).1, ← (hdesired _ hold).2]
          exact hf.resting
        · simp
      unfold Fill.sells Fill.receives
      rw [add_mul, add_mul]
      exact add_le_add hincoming hresting
    unfold totalSold totalReceived at hrest ⊢
    rw [List.map_cons, List.map_cons, List.sum_cons, List.sum_cons, add_mul, add_mul]
    exact add_le_add hone hrest

/-! ### Runs -/

theorem eventFills_withinLimits {s s' : State} {e : Event} (hi : LedgerInv s) (hb : BookInv s)
    (hf : FeesUpTo s e.block) (h : handle s e = some s') : ∀ f ∈ eventFills s e, WithinLimits f := by
  cases e with
  | packet tx env =>
    rw [eventFills]
    split_ifs with hadmits
    · have hm := market_of_admitted hi hb hf hadmits
      have hadd : (interpretPacket s tx env).isSome = true := by
        obtain ⟨out, hout, -⟩ := Option.map_eq_some_iff.mp h
        exact Option.isSome_iff_exists.mpr ⟨out, hout⟩
      rw [(admitsTrade_cases hadmits).2.2, hm.metadexAdd_isSome_iff] at hadd
      obtain ⟨out, hout⟩ := Option.isSome_iff_exists.mp hadd
      rw [(hm.xTrade_spec hout).1]
      unfold State.plannedFills
      cases hp : s.metadex.find? tx.order.desiredProperty with
      | none => exact fun f hf => absurd hf List.not_mem_nil
      | some prices => exact plannedFills_withinLimits (hm.meet hp).openOrders hm.incoming
    · exact fun f hf => absurd hf List.not_mem_nil
  | _ => exact fun f hf => absurd hf List.not_mem_nil

theorem fillsAlong_withinLimits {es : List Event} {n n' : Node} (hi : NodeInv n) (hl : LedgerInv n.state)
    (hb : BookInv n.state) (h : run freshStep n es = some n') : ∀ f ∈ fillsAlong n es, WithinLimits f := by
  induction es generalizing n with
  | nil => exact fun f hf => absurd hf List.not_mem_nil
  | cons e rest ih =>
    rw [run_cons, Option.bind_eq_some_iff] at h
    obtain ⟨n₁, h1, h⟩ := h
    have hstep := (guarded_eq_some.mp h1).2
    obtain ⟨hnext, hhandle, -⟩ := step_eq_some.mp hstep
    have hcore := hi.core.mono (e.isNext_block hnext)
    intro f hf
    rw [fillsAlong, hstep, Option.map_some, Option.getD_some] at hf
    rcases List.mem_append.mp hf with hf | hf
    · exact eventFills_withinLimits hl hb hcore.feesUpTo hhandle f hf
    · exact ih (step_inv hi hstep) (freshStep_ledger hi hl h1).2 (handle_bookInv hcore hb hhandle) h f hf

/-- **No order executes worse than its limit.** In every state that a run of fresh steps
reaches, an admitted order is matched and added without a failed assertion, by fair fills only,
if and only if the fees of its planned fills are covered. Over the whole run, what an order has
received before fees is worth at least what it asked for all that it sold. -/
theorem orders_within_limits {cfg : Config} {es : List Event} {n : Node}
    (hrun : run freshStep (Node.initial cfg) es = some n) :
    (∀ tx env, (Event.packet tx env).isNext n.clock = true → admitsTrade n.state tx = true →
        (Executes n.state tx env ↔ FeesCovered n.state tx.order (n.state.plannedFills tx.order))) ∧
      ∀ o : CMPMetaDEx, totalSold (fillsAlong (Node.initial cfg) es) o * o.amountDesired ≤
        totalReceived (fillsAlong (Node.initial cfg) es) o * o.amountForsale := by
  obtain ⟨hi, hl⟩ := run_ledgerInv hrun
  have hb := (run_bookInv (run_of_guarded hrun)).2
  refine ⟨fun tx env hnext hadmits => ?_, totals_withinLimit ?_⟩
  · exact executes_iff hl hb (hi.core.mono (Event.isNext_block hnext)).feesUpTo hadmits
  · exact fillsAlong_withinLimits (initial_inv cfg) (initial_ledgerInv cfg) (initial_bookInv cfg) hrun

/-! ### Two markets -/

/-- The packet that takes all of a market's book in block 201. -/
def marketOrder (p desired : PropertyId) : CMPTransaction :=
  { txid := 0, block := 201, blockTime := vestedTime, txIdx := 0, sender := "bob", type := 25,
    property := p, nNewValue := 20000000, desiredProperty := desired, desiredValue := 20000000 }

/-- In the main ecosystem the fee is covered, and the order executes. -/
theorem orders_within_limits_market :
    ∃ n, run freshStep (Node.initial vestedConfig) (vestedBlock ++ marketBlock 20000000) = some n ∧
      Executes n.state (marketOrder 4 3) { blockHash := some 201 } := by
  have hrun : ((run freshStep (Node.initial vestedConfig) (vestedBlock ++ marketBlock 20000000)).map fun n =>
      decide ((Event.packet (marketOrder 4 3) { blockHash := some 201 }).isNext n.clock = true ∧
        admitsTrade n.state (marketOrder 4 3) = true ∧
        0 < heldByOthers n.state.tally "FEEDISTRIBUTION" 1)) = some true := by decide +kernel
  obtain ⟨n, hn, hvals⟩ := Option.map_eq_some_iff.mp hrun
  obtain ⟨hnext, hadmits, hheld⟩ := of_decide_eq_true hvals
  have hsolvent := (run_ledgerInv hn).2.solvent
  exact ⟨n, hn, ((orders_within_limits hn).1 _ _ hnext hadmits).mpr fun _ _ _ =>
    (baseHeld_iff (p := 3) hsolvent).mpr hheld⟩

/-- In the test ecosystem no one owns the reserved token, and the matching aborts. -/
theorem matching_aborts_test_market :
    ∃ n, run freshStep (Node.initial vestedConfig) (vestedBlock ++ testMarketBlock) = some n ∧
      (Event.packet (marketOrder 2147483652 2147483651) { blockHash := some 201 }).isNext n.clock = true ∧
      admitsTrade n.state (marketOrder 2147483652 2147483651) = true ∧
      xTrade (marketOrder 2147483652 2147483651).order n.state = none ∧
      ¬ Executes n.state (marketOrder 2147483652 2147483651) { blockHash := some 201 } := by
  have hrun : ((run freshStep (Node.initial vestedConfig) (vestedBlock ++ testMarketBlock)).map fun n =>
      decide ((Event.packet (marketOrder 2147483652 2147483651) { blockHash := some 201 }).isNext n.clock = true ∧
        admitsTrade n.state (marketOrder 2147483652 2147483651) = true ∧
        (xTrade (marketOrder 2147483652 2147483651).order n.state).isNone = true)) = some true := by
    decide +kernel
  obtain ⟨n, hn, hvals⟩ := Option.map_eq_some_iff.mp hrun
  obtain ⟨hnext, hadmits, hnone⟩ := of_decide_eq_true hvals
  have htrade := Option.isNone_iff_eq_none.mp hnone
  refine ⟨n, hn, hnext, hadmits, htrade, fun hexec => ?_⟩
  have hmatched := hexec.matched
  rw [htrade] at hmatched
  cases hmatched

end Rapids.Token
