import Rapids.Token.Ledger
import Rapids.Token.Rules

/-!
# Rapids.Token.MetaDex

The **token exchange** (`mdex.cpp`): matching, inserting and cancelling orders.

The book maps each property for sale to its prices, each price to the orders at
it, ordered by their position in the chain. Levels and price maps stay in the
book when their last order leaves. The nested loops of the source visit the
orders of a price map, or of the whole book, in key order; they are loops over
the list of `OrderRef`s here, taken when the loop starts. Every loop body
rewrites the book at the visited order only, so that list stays accurate for
the orders still to come.

A failed `assert`, and a 256-bit division by zero, is `none`.
-/

namespace Rapids.Token

open Rapids.Lib

def metadexError : Int := -81000

/-! ### Prices -/

/-- What is asked for one token for sale; 0 for an order that sells nothing. -/
def CMPMetaDEx.unitPrice (o : CMPMetaDEx) : ℚ :=
  if o.amountForsale = 0 then 0 else (o.amountDesired : ℚ) / o.amountForsale

/-- What is given for one token desired; 0 for an order that desires nothing. -/
def CMPMetaDEx.inversePrice (o : CMPMetaDEx) : ℚ :=
  if o.amountDesired = 0 then 0 else (o.amountForsale : ℚ) / o.amountDesired

/-! ### The book -/

/-- The orders at one price of one property; none where the level is missing. -/
def State.level (s : State) (p : PropertyId) (price : ℚ) : MdSet :=
  (((s.metadex.find? p).getD ∅).find? price).getD ∅

variable (new : CMPMetaDEx) (s : State) (sender : Address) (p : PropertyId)

/-- Replace one level. -/
def State.putLevel (price : ℚ) (set : MdSet) : State :=
  { s with metadex := s.metadex.insert p (((s.metadex.find? p).getD ∅).insert price set) }

def State.putOrder (price : ℚ) (pos : Position) (o : CMPMetaDEx) :
    State :=
  s.putLevel p price ((s.level p price).insert pos o)

def State.eraseOrder (price : ℚ) (pos : Position) : State :=
  s.putLevel p price ((s.level p price).erase pos)

/-- An order together with its place in the book. -/
structure OrderRef where
  property : PropertyId
  price : ℚ
  pos : Position
  order : CMPMetaDEx

/-- The orders selling one property, in the order the loops visit them. -/
def MdPricesMap.orders (p : PropertyId) (prices : MdPricesMap) : List OrderRef :=
  prices.entries.flatMap fun level => level.2.entries.map fun o => ⟨p, level.1, o.1, o.2⟩

/-- All orders, in the order the loops visit them. -/
def MdPropertiesMap.orders (book : MdPropertiesMap) : List OrderRef :=
  book.entries.flatMap fun e => MdPricesMap.orders e.1 e.2

/-! ### Matching -/

/-- How many of the resting order's tokens the new order can pay for, rounded
down, up to what is left of them. -/
def amountCouldBuy (old : CMPMetaDEx) : Option Int := do
  let offered ← convertTo256 new.amountRemaining
  let forsale ← convertTo256 old.amountForsale
  let desired ← convertTo256 old.amountDesired
  if desired = 0 then none
  else
    let couldBuy := offered * forsale / desired
    if couldBuy < (← convertTo256 old.amountRemaining) then convertTo64 couldBuy
    else some old.amountRemaining

/-- What they cost at the resting order's price, rounded up. -/
def amountWouldPay (old : CMPMetaDEx) (couldBuy : Int) : Option Int := do
  let bought ← convertTo256 couldBuy
  let desired ← convertTo256 old.amountDesired
  let forsale ← convertTo256 old.amountForsale
  convertTo64 (← divideAndRoundUp (bought * desired) forsale)

/-- Is a fee taken? Only between two properties of which neither is reserved. -/
def takesFee (new old : CMPMetaDEx) : Bool :=
  isFeatureActivated s.params Feature.fees.id new.block &&
    decide (propertyTMSC < old.property) && decide (propertyTMSC < old.desiredProperty)

/-- The fee on a trade: 0.05% of what the buyer gets. -/
def tradingFee (new old : CMPMetaDEx) (got : Int) : Int :=
  if takesFee s new old then got.tdiv 2000 else 0

/-- Put the fee into the cache. -/
def chargeFee (new old : CMPMetaDEx) (got : Int) : Option State :=
  if takesFee s new old then addFee s new.desiredProperty new.block (tradingFee s new old got)
  else some s

/-- The resting order after a trade: erased, and reinserted with what is left. -/
def replaceOrder (r : OrderRef) (left : Int) : State :=
  let s := s.eraseOrder r.property r.price r.pos
  if 0 < left then s.putOrder r.property r.price r.pos { r.order with amountRemaining := left } else s

/-- Carry out a trade: the buyer gets `got` tokens for `paid`. The fee enters
the cache before the tokens move. -/
def executeTrade (r : OrderRef) (got paid : Int) (s : State) :
    Option (CMPMetaDEx × State) :=
  let old := r.order
  let buyerLeft := new.amountRemaining - paid
  let sellerLeft := old.amountRemaining - got
  if ¬ (old.unitPrice ≤ (paid : ℚ) / got ∧ 0 ≤ sellerLeft ∧ 0 ≤ buyerLeft) then none
  else do
    let afterFee := got - tradingFee s new old got
    let s ← chargeFee s new old got
    let s ← assertTally s new.addr new.property (-paid) .balance
    let s ← assertTally s old.addr old.desiredProperty paid .balance
    let s ← assertTally s old.addr old.property (-got) .metadexReserve
    let s ← assertTally s new.addr new.desiredProperty afterFee .balance
    return ({ new with amountRemaining := buyerLeft }, replaceOrder s r sellerLeft)

/-- The preconditions the loop body asserts. -/
def tradeAsserts (old : CMPMetaDEx) : Prop :=
  0 < old.amountRemaining ∧ 0 < new.amountRemaining ∧ new.property ≠ new.desiredProperty ∧
    old.property = new.desiredProperty ∧ old.unitPrice ≤ new.inversePrice ∧
    new.unitPrice ≤ old.inversePrice

instance (new old : CMPMetaDEx) : Decidable (tradeAsserts new old) :=
  inferInstanceAs (Decidable (_ ∧ _))

/-- One round of the loop: match the new order with one resting order. -/
def tradeOrder (r : OrderRef) (s : State) : Option (CMPMetaDEx × State) :=
  if r.order.unitPrice ≠ r.price then none
  else if r.order.desiredProperty ≠ new.property then some (new, s)
  else if ¬ tradeAsserts new r.order then none
  else
    (amountCouldBuy new r.order).bind fun got =>
      if got = 0 then some (new, s)
      else
        (amountWouldPay r.order got).bind fun paid =>
          -- rounding must not make the trade more expensive than the new order allows
          if new.inversePrice < (paid : ℚ) / got then some (new, s)
          else executeTrade new r got paid s

/-- The loops over prices and orders; they end when the new order is filled. -/
def tradeLoop : List OrderRef → CMPMetaDEx → State → Option (CMPMetaDEx × State)
  | [], new, s => some (new, s)
  | r :: rest, new, s =>
    if new.inversePrice < r.price then tradeLoop rest new s
    else
      (tradeOrder new r s).bind fun out =>
        if out.1.amountRemaining = 0 then some out else tradeLoop rest out.1 out.2

/-- `x_Trade`: the new order with what is left of it, and the new state. -/
def xTrade : Option (CMPMetaDEx × State) :=
  match s.metadex.find? new.desiredProperty with
  | none => some (new, s)
  | some prices => tradeLoop (MdPricesMap.orders new.desiredProperty prices) new s

/-! ### Adding -/

/-- `MetaDEx_INSERT`: refused if the level has an order with this position. -/
def metadexInsert (o : CMPMetaDEx) : Bool × State :=
  if (s.level o.property o.unitPrice).contains (position o.block o.idx) then (false, s)
  else (true, s.putOrder o.property o.unitPrice (position o.block o.idx) o)

def metadexAdd (amount : Int) (block : Nat)
    (desiredProperty : PropertyId) (amountDesired : Int) (txid : Hash) (idx : Nat) :
    Option (Int × State) :=
  let new : CMPMetaDEx :=
    ⟨sender, block, p, amount, desiredProperty, amountDesired, txid, idx, amount⟩
  if new.unitPrice ≤ 0 then some (metadexError - 66, s)
  else
    (xTrade new s).bind fun (new, s) =>
      if 0 < new.amountRemaining then
        match metadexInsert s new with
        | (false, s) => some (metadexError - 70, s)
        | (true, s) => do
          let s ← transferTally s p new.amountRemaining (sender, .balance) (sender, .metadexReserve)
          return (0, s)
      else some (0, s)

/-! ### Cancelling -/

/-- Cancel the selected orders of a list. -/
def cancelLoop (sel : OrderRef → Bool) : List OrderRef → State → Option State
  | [], s => some s
  | r :: rest, s =>
    if sel r then do
      let o := r.order
      let s ← transferTally s o.property o.amountRemaining (o.addr, .metadexReserve) (o.addr, .balance)
      cancelLoop sel rest (s.eraseOrder r.property r.price r.pos)
    else cancelLoop sel rest s

/-- Cancel the selected orders; the code is 0 if there are any. -/
def cancelOrders (sel : OrderRef → Bool) (orders : List OrderRef) (nothing : Int) :
    Option (Int × State) := do
  let s ← cancelLoop sel orders s
  return (if orders.any sel then 0 else nothing, s)

def metadexCancelAtPrice (amount : Int)
    (desiredProperty : PropertyId) (amountDesired : Int) : Option (Int × State) :=
  let price := CMPMetaDEx.unitPrice ⟨sender, 0, p, amount, desiredProperty, amountDesired, 0, 0, amount⟩
  match s.metadex.find? p with
  | none => some (metadexError - 20 - 1, s)
  | some prices =>
    cancelOrders s (fun r => decide (r.price = price) &&
        (r.order.desiredProperty == desiredProperty && r.order.addr == sender))
      (MdPricesMap.orders p prices) (metadexError - 20)

def metadexCancelAllForPair (desiredProperty : PropertyId) :
    Option (Int × State) :=
  match s.metadex.find? p with
  | none => some (metadexError - 30 - 1, s)
  | some prices =>
    cancelOrders s (fun r => r.order.desiredProperty == desiredProperty && r.order.addr == sender)
      (MdPricesMap.orders p prices) (metadexError - 30)

def metadexCancelEverything (ecosystem : Nat) : Option (Int × State) :=
  cancelOrders s (fun r =>
      !(isMainEcosystemProperty ecosystem && !isMainEcosystemProperty r.property) &&
      !(isTestEcosystemProperty ecosystem && !isTestEcosystemProperty r.property) &&
      r.order.addr == sender)
    (MdPropertiesMap.orders s.metadex) (metadexError - 40)

/-- `MetaDEx_SHUTDOWN`: everything is returned. -/
def metadexShutdown : Option (Int × State) :=
  cancelOrders s (fun _ => true) (MdPropertiesMap.orders s.metadex) 0

end Rapids.Token
