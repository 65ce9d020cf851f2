import Rapids.Token.MetaDexSound
import Rapids.Token.Rounding

/-!
# Rapids.Token.Fills

**Fills**: what one round of `x_Trade` buys and pays.

The amount bought is rounded down, and what is paid for it at the resting order's price is
rounded up. So the resting order is never paid less than it asks, and what is paid never
exceeds what the new order has left, since rounding up stays below a whole number that is
not exceeded. Whether rounding has made the trade too expensive for the new order is
checked last.

`fillOf` is the decision alone; it moves nothing. `tradeFills` are the fills of the loop, in
the order they happen.
-/

namespace Rapids.Token

open Rapids.Lib

variable {o : CMPMetaDEx}

/-! ### One round -/

/-- What the new order gets from a resting order, and what it pays. -/
def fillOf (new : CMPMetaDEx) (r : OrderRef) : Option (Int × Int) :=
  if r.order.desiredProperty ≠ new.property then none
  else
    (amountCouldBuy new r.order).bind fun got =>
      if got = 0 then none
      else
        (amountWouldPay r.order got).bind fun paid =>
          if new.inversePrice < (paid : ℚ) / got then none else some (got, paid)

section
variable {new new' : CMPMetaDEx} {r : OrderRef} {s s' : State} {got paid : Int}

theorem tradeOrder_fill (h : tradeOrder new r s = some (new', s')) :
    (fillOf new r = none ∧ new' = new ∧ s' = s) ∨
    ∃ got paid, fillOf new r = some (got, paid) ∧ tradeAsserts new r.order ∧
      executeTrade new r got paid s = some (new', s') := by
  unfold tradeOrder at h
  unfold fillOf
  split_ifs at h with hprice hpair hasserts
  · rw [if_pos hpair]
    cases h
    exact .inl ⟨rfl, rfl, rfl⟩
  · rw [if_neg hpair]
    cases hgot : amountCouldBuy new r.order with
    | none =>
      rw [hgot] at h
      cases h
    | some got =>
      rw [hgot, Option.bind_some] at h
      rw [Option.bind_some]
      split_ifs at h ⊢ with hzero
      · cases h
        exact .inl ⟨rfl, rfl, rfl⟩
      · cases hpaid : amountWouldPay r.order got with
        | none =>
          rw [hpaid] at h
          cases h
        | some paid =>
          rw [hpaid, Option.bind_some] at h
          rw [Option.bind_some]
          split_ifs at h ⊢ with hdear
          · cases h
            exact .inl ⟨rfl, rfl, rfl⟩
          · exact .inr ⟨got, paid, rfl, hasserts, h⟩

theorem fillOf_eq_some (h : fillOf new r = some (got, paid)) :
    r.order.desiredProperty = new.property ∧ got ≠ 0 ∧ amountCouldBuy new r.order = some got ∧
      amountWouldPay r.order got = some paid ∧ (paid : ℚ) / got ≤ new.inversePrice := by
  unfold fillOf at h
  split_ifs at h with hpair
  simp only [Option.bind_eq_some_iff] at h
  obtain ⟨got', hgot, h⟩ := h
  split_ifs at h with hzero
  simp only [Option.bind_eq_some_iff] at h
  obtain ⟨paid', hpaid, h⟩ := h
  split_ifs at h with hdear
  cases h
  exact ⟨not_not.mp hpair, hzero, hgot, hpaid, not_lt.mp hdear⟩

end

/-! ### The arithmetic -/

/-- An order with something left of what it sells, at a price. -/
structure OpenOrder (o : CMPMetaDEx) : Prop where
  remaining : 0 < o.amountRemaining
  within : o.amountRemaining ≤ o.amountForsale
  forsaleFits : o.amountForsale ≤ i64Max
  desired : 0 < o.amountDesired

theorem OpenOrder.forsale (h : OpenOrder o) : 0 < o.amountForsale :=
  lt_of_lt_of_le h.remaining h.within

theorem OpenOrder.unitPrice_eq (h : OpenOrder o) :
    o.unitPrice = (o.amountDesired : ℚ) / o.amountForsale :=
  if_neg h.forsale.ne'

theorem OpenOrder.inversePrice_eq (h : OpenOrder o) :
    o.inversePrice = (o.amountForsale : ℚ) / o.amountDesired :=
  if_neg h.desired.ne'

theorem OpenOrder.unitPrice_pos (h : OpenOrder o) : 0 < o.unitPrice := by
  rw [h.unitPrice_eq]
  exact div_pos (Int.cast_pos.mpr h.desired) (Int.cast_pos.mpr h.forsale)

section
variable {new old : CMPMetaDEx} {got paid : Int}

/-- How much can be bought is computed without a failure: never more than is left, and
never more than the new order can pay for. -/
theorem exists_amountCouldBuy (hnew : 0 ≤ new.amountRemaining) (hold : OpenOrder old) :
    ∃ got, amountCouldBuy new old = some got ∧ 0 ≤ got ∧ got ≤ old.amountRemaining ∧
      got * old.amountDesired ≤ new.amountRemaining * old.amountForsale := by
  have hforsale := hold.forsale
  have hdesired := hold.desired
  have hfloor := Nat.div_mul_le_self (new.amountRemaining.toNat * old.amountForsale.toNat)
    old.amountDesired.toNat
  have hcast : ((new.amountRemaining.toNat * old.amountForsale.toNat / old.amountDesired.toNat *
      old.amountDesired.toNat : Nat) : Int) ≤
      ((new.amountRemaining.toNat * old.amountForsale.toNat : Nat) : Int) := Int.ofNat_le.mpr hfloor
  rw [Nat.cast_mul, Nat.cast_mul, Int.toNat_of_nonneg hdesired.le, Int.toNat_of_nonneg hnew,
    Int.toNat_of_nonneg hforsale.le] at hcast
  simp only [amountCouldBuy, convertTo256_of_nonneg hnew, convertTo256_of_nonneg hforsale.le,
    convertTo256_of_nonneg hdesired.le, convertTo256_of_nonneg hold.remaining.le, Option.bind_eq_bind,
    Option.bind_some, if_neg (show ¬ old.amountDesired.toNat = 0 by omega)]
  generalize hq : new.amountRemaining.toNat * old.amountForsale.toNat / old.amountDesired.toNat = q at hcast ⊢
  have hremaining := hold.remaining
  have hwithin := hold.within
  have hfits := hold.forsaleFits
  split_ifs with hfew
  · refine ⟨q, convertTo64_of_le rfl (by omega), by omega, by omega, hcast⟩
  · refine ⟨old.amountRemaining, rfl, by omega, le_rfl, le_trans ?_ hcast⟩
    exact mul_le_mul_of_nonneg_right (by omega) hdesired.le

/-- What it costs is computed without a failure, and the new order can pay it. -/
theorem exists_amountWouldPay (hnewFits : new.amountRemaining ≤ i64Max) (hold : OpenOrder old) (hgot : 0 < got)
    (hpay : got * old.amountDesired ≤ new.amountRemaining * old.amountForsale) :
    ∃ paid, amountWouldPay old got = some paid ∧ 0 < paid ∧ paid ≤ new.amountRemaining ∧
      got * old.amountDesired ≤ paid * old.amountForsale := by
  have hforsale := hold.forsale
  have hdesired := hold.desired
  have hforsaleQ : (0 : ℚ) < old.amountForsale := Int.cast_pos.mpr hforsale
  obtain ⟨q, hq, hpaid⟩ := divideAndRoundUp_mul hgot.le hdesired.le hforsale
  have hle : (q : Int) ≤ new.amountRemaining := by
    rw [hpaid, Int.ceil_le, div_le_iff₀ hforsaleQ]
    exact_mod_cast hpay
  have hcovers : got * old.amountDesired ≤ q * old.amountForsale := by
    have hceil : ((got * old.amountDesired : Int) : ℚ) ≤ ((q * old.amountForsale : Int) : ℚ) := by
      rw [hpaid, Int.cast_mul ⌈_⌉, ← div_le_iff₀ hforsaleQ]
      exact Int.le_ceil _
    exact Int.cast_le.mp hceil
  refine ⟨q, ?_, ?_, hle, hcovers⟩
  · simp only [amountWouldPay, convertTo256_of_nonneg hgot.le, convertTo256_of_nonneg hdesired.le,
      convertTo256_of_nonneg hforsale.le, Option.bind_eq_bind, Option.bind_some, hq]
    exact convertTo64_of_le rfl (hle.trans hnewFits)
  · by_contra hnone
    have hzero : (q : Int) = 0 := by omega
    rw [hzero, zero_mul] at hcovers
    have := mul_pos hgot hdesired
    omega

end

/-- **A fair fill** of two orders: both get and give something, neither gives more than it
has left, and the price lies between the two limits. -/
structure FairFill (new old : CMPMetaDEx) (got paid : Int) : Prop where
  got_pos : 1 ≤ got
  paid_pos : 1 ≤ paid
  got_le : got ≤ old.amountRemaining
  paid_le : paid ≤ new.amountRemaining
  resting : old.unitPrice ≤ (paid : ℚ) / got
  incoming : (paid : ℚ) / got ≤ new.inversePrice

theorem fillOf_fair {new : CMPMetaDEx} {r : OrderRef} {got paid : Int} (hnew : 0 ≤ new.amountRemaining)
    (hnewFits : new.amountRemaining ≤ i64Max) (hold : OpenOrder r.order)
    (h : fillOf new r = some (got, paid)) : FairFill new r.order got paid := by
  obtain ⟨-, hne, hgot, hpaid, hincoming⟩ := fillOf_eq_some h
  obtain ⟨got', hgot', hnonneg, hle, hpay⟩ := exists_amountCouldBuy hnew hold
  obtain rfl := Option.some.inj (hgot.symm.trans hgot')
  have hgotpos : 0 < got := by omega
  obtain ⟨paid', hpaid', hpos, hpaidle, hcovers⟩ := exists_amountWouldPay hnewFits hold hgotpos hpay
  obtain rfl := Option.some.inj (hpaid.symm.trans hpaid')
  refine ⟨hgotpos, hpos, hle, hpaidle, ?_, hincoming⟩
  have hforsale : (0 : ℚ) < r.order.amountForsale := Int.cast_pos.mpr hold.forsale
  have hgotQ : (0 : ℚ) < got := Int.cast_pos.mpr hgotpos
  rw [hold.unitPrice_eq, div_le_div_iff₀ hforsale hgotQ, mul_comm (r.order.amountDesired : ℚ)]
  exact_mod_cast hcovers

/-! ### The fills of a loop -/

/-- A fill: the new order as it was before it, the resting order, and the amounts. -/
structure Fill where
  new : CMPMetaDEx
  ref : OrderRef
  got : Int
  paid : Int

/-- The fill of one round, if there is one. -/
def roundFill (new : CMPMetaDEx) (r : OrderRef) : List Fill :=
  (fillOf new r).toList.map fun a => ⟨new, r, a.1, a.2⟩

/-- The fills of the loop over prices and orders. -/
def tradeFills : List OrderRef → CMPMetaDEx → State → List Fill
  | [], _, _ => []
  | r :: rest, new, s =>
    if new.inversePrice < r.price then tradeFills rest new s
    else
      match tradeOrder new r s with
      | none => []
      | some out =>
        roundFill new r ++ if out.1.amountRemaining = 0 then [] else tradeFills rest out.1 out.2

/-- The fills of `x_Trade`. -/
def xTradeFills (new : CMPMetaDEx) (s : State) : List Fill :=
  match s.metadex.find? new.desiredProperty with
  | none => []
  | some prices => tradeFills (MdPricesMap.orders new.desiredProperty prices) new s

theorem mem_roundFill {new : CMPMetaDEx} {r : OrderRef} {f : Fill} :
    f ∈ roundFill new r ↔ f.new = new ∧ f.ref = r ∧ fillOf new r = some (f.got, f.paid) := by
  unfold roundFill
  obtain ⟨fnew, fref, got, paid⟩ := f
  cases fillOf new r with
  | none => simp
  | some a =>
    obtain ⟨got', paid'⟩ := a
    simp only [Option.toList_some, List.map_cons, List.map_nil, List.mem_singleton, Fill.mk.injEq,
      Option.some.injEq, Prod.mk.injEq]
    constructor
    · rintro ⟨rfl, rfl, rfl, rfl⟩
      exact ⟨rfl, rfl, rfl, rfl⟩
    · rintro ⟨rfl, rfl, rfl, rfl⟩
      exact ⟨rfl, rfl, rfl, rfl⟩

/-- Each order that is visited is filled at most once, and in the order of the visits. -/
theorem tradeFills_sublist (l : List OrderRef) (new : CMPMetaDEx) (s : State) :
    ((tradeFills l new s).map Fill.ref).Sublist l := by
  induction l generalizing new s with
  | nil => exact List.Sublist.refl _
  | cons r rest ih =>
    rw [tradeFills]
    split_ifs with hskip
    · exact (ih new s).cons r
    · cases tradeOrder new r s with
      | none => exact List.nil_sublist _
      | some out =>
        have hrest : ((if out.1.amountRemaining = 0 then [] else tradeFills rest out.1 out.2).map
            Fill.ref).Sublist rest := by
          split_ifs
          · exact List.nil_sublist _
          · exact ih out.1 out.2
        have hround : (roundFill new r).map Fill.ref = [] ∨ (roundFill new r).map Fill.ref = [r] := by
          unfold roundFill
          cases fillOf new r with
          | none => exact .inl rfl
          | some a => exact .inr rfl
        rw [List.map_append]
        rcases hround with hnone | hone
        · rw [hnone, List.nil_append]
          exact hrest.cons r
        · rw [hone, List.singleton_append]
          exact hrest.cons_cons r

end Rapids.Token
