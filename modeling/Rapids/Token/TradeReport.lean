import Rapids.Token.Limits
import Rapids.Token.TradeList

/-!
# Rapids.Token.TradeReport

**What is recorded of the trades of an order, and what is reported.** `x_Trade` records each
of its fills from the side of the order that was resting (`recordMatchedTrade`): what that
order was paid, and what the new order got, less the fee. `getMatchingTrades` looks for the
records of one order and turns each of them around if need be; from its sums
`MetaDEx_getStatus` tells whether the order is filled.

A `Journal` is what a run writes besides the state: the trades database, and of the list of
transactions whether they are valid. Beside these two it keeps what the claims about them
are measured by: every fill as it was carried out, and every order as it last was, before
it was cancelled.
-/

namespace Rapids.Token

open Rapids.Lib

/-! ### Reports -/

/-- The fields of a match, as they are read. -/
structure MatchFields where
  address1 : List Char
  address2 : List Char
  prop1 : Int
  prop2 : Int
  amount1 : Int
  amount2 : Int
  blockNum : Int
  tradingFee : Int

/-- The largest `uint32_t`. -/
def u32Max : Int := 4294967295

/-- Decode the details from the tokens of a value. -/
def readMatch (vstr : List (List Char)) : Option MatchFields := do
  let prop1 ← lexicalCast 0 u32Max (vstr.getD 2 [])
  let prop2 ← lexicalCast 0 u32Max (vstr.getD 3 [])
  let amount1 ← lexicalCast i64Min i64Max (vstr.getD 4 [])
  let amount2 ← lexicalCast i64Min i64Max (vstr.getD 5 [])
  let tradingFee ← lexicalCast i64Min i64Max (vstr.getD 7 [])
  return ⟨vstr.getD 0 [], vstr.getD 1 [], prop1, prop2, amount1, amount2, atoi (vstr.getD 6 []), tradingFee⟩

/-- One match as it is shown for an order. Amounts are formatted for their property. -/
structure ReportedTrade where
  txid : Hash
  block : Int
  address : List Char
  amountSold : Int × Int
  amountReceived : Int × Int
  tradingFee : Int × Int

/-- The results of `getMatchingTrades`; it returns whether there are any trades. -/
structure MatchingTrades where
  tradeArray : List ReportedTrade := []
  totalSold : Int := 0
  totalReceived : Int := 0

/-- Populate a trade and add it, correcting for the orientation. -/
def MatchingTrades.add (found : MatchingTrades) (propertyId : PropertyId) (matchTxid : Hash) (f : MatchFields) :
    MatchingTrades :=
  if f.prop1 = propertyId then
    { tradeArray := found.tradeArray ++ [{
        txid := matchTxid
        block := f.blockNum
        address := f.address1
        amountSold := (f.prop1, f.amount1)
        amountReceived := (f.prop2, f.amount2)
        tradingFee := (f.prop2, f.tradingFee) }]
      totalSold := toI64 (found.totalSold + f.amount1)
      totalReceived := toI64 (found.totalReceived + f.amount2) }
  else
    { tradeArray := found.tradeArray ++ [{
        txid := matchTxid
        block := f.blockNum
        address := f.address2
        amountSold := (f.prop2, toI64 (f.amount2 + f.tradingFee))
        amountReceived := (f.prop1, f.amount1)
        -- not the liquidity taker, so no fee for this participant
        tradingFee := (f.prop1, 0) }]
      totalSold := toI64 (found.totalSold + f.amount2)
      totalReceived := toI64 (found.totalReceived + f.amount1) }

/-- The loop's body. A transaction is found in a key where one of its two parts is the
transaction; the key of an order has one part and is too short for a match. -/
def examineTrade (txid : Hash) (propertyId : PropertyId) (found : MatchingTrades)
    (entry : TradeKey × List Char) : Option MatchingTrades :=
  if entry.1.txid1 ≠ txid ∧ entry.1.txid2 ≠ some txid then some found
  else
    entry.1.txid2.elim (some found) fun txid2 =>
      let matchTxid := if entry.1.txid1 = txid then txid2 else entry.1.txid1
      let vstr := splitFields ':' entry.2
      if vstr.length ≠ 8 then some found
      else (readMatch vstr).map (found.add propertyId matchTxid)

/-- `getMatchingTrades`; a field that cannot be cast throws. -/
def getMatchingTrades (db : TradeDB) (txid : Hash) (propertyId : PropertyId) : Option MatchingTrades :=
  db.entries.foldlM (examineTrade txid propertyId) {}

variable (j : Journal) (s : State) (t : Settlement)

/-- `MetaDEx_isOpen` -/
def metadexIsOpen (txid : Hash) (propertyIdForSale : PropertyId) : Bool :=
  s.metadex.entries.any fun e => (propertyIdForSale == 0 || propertyIdForSale == e.1) &&
    (MdPricesMap.orders e.1 e.2).any fun r => r.order.txid == txid

/-- The states of a trade. -/
inductive TradeStatus
  | invalid
  | open
  | openPartFilled
  | cancelled
  | cancelledPartFilled
  | filled
  deriving DecidableEq, Repr

/-- The status from what was sold, and from whether the order is valid and open. -/
def tradeStatus (valid isOpen : Bool) (amountForSale totalSold : Int) : TradeStatus :=
  if !valid then .invalid
  else if isOpen then
    if totalSold = 0 then .open else .openPartFilled
  else if totalSold = 0 then .cancelled
  else if totalSold < amountForSale then .cancelledPartFilled
  else .filled

/-- The validity of transactions, as the list of transactions has it. -/
abbrev TxValidity := OrdMap Hash Bool

/-- `getValidMPTX` -/
def getValidMPTX (txs : TxValidity) (txid : Hash) : Bool := (txs.find? txid).getD false

/-- `MetaDEx_getStatus`; an amount of -1 is looked up. -/
def metadexGetStatus (db : TradeDB) (txs : TxValidity) (txid : Hash) (propertyIdForSale : PropertyId)
    (amountForSale totalSold : Int) : Option TradeStatus :=
  let sold :=
    if totalSold = -1 then (getMatchingTrades db txid propertyIdForSale).map MatchingTrades.totalSold
    else some totalSold
  sold.map (tradeStatus (getValidMPTX txs txid) (metadexIsOpen s txid propertyIdForSale) amountForSale)

/-! ### Records -/

/-- A fill as it was carried out, and the fee that was taken from what the new order got. -/
structure Settlement where
  fill : Fill
  fee : Int

namespace Settlement

/-- What `x_Trade` records of it. -/
def record : MatchedTrade where
  txid1 := t.fill.ref.order.txid
  txid2 := t.fill.new.txid
  address1 := t.fill.ref.order.addr
  address2 := t.fill.new.addr
  prop1 := t.fill.ref.order.desiredProperty
  prop2 := t.fill.new.desiredProperty
  amount1 := t.fill.paid
  amount2 := t.fill.got - t.fee
  blockNum := t.fill.new.block
  fee := t.fee

/-- The resting order after it. -/
def resting : CMPMetaDEx :=
  { t.fill.ref.order with amountRemaining := t.fill.ref.order.amountRemaining - t.fill.got }

/-- The new order after it. -/
def incoming : CMPMetaDEx :=
  { t.fill.new with amountRemaining := t.fill.new.amountRemaining - t.fill.paid }

/-- What an order has sold in it. -/
def sells (txid : Hash) : Int :=
  (if t.fill.new.txid = txid then t.fill.paid else 0) + if t.fill.ref.order.txid = txid then t.fill.got else 0

/-- What the owner of an order is credited in it. -/
def credits (txid : Hash) : Int :=
  (if t.fill.new.txid = txid then t.fill.got - t.fee else 0) +
    if t.fill.ref.order.txid = txid then t.fill.paid else 0

/-- The fee, if the order was resting. -/
def restingFee (txid : Hash) : Int := if t.fill.ref.order.txid = txid then t.fee else 0

end Settlement

/-- The fill of one round with its fee, if there is one. -/
def roundSettlement (new : CMPMetaDEx) (r : OrderRef) (s : State) : List Settlement :=
  (roundFill new r).map fun f => ⟨f, tradingFee s new r.order f.got⟩

/-- The fills of the loops of `x_Trade`, with their fees. -/
def settlements : List OrderRef → CMPMetaDEx → State → List Settlement
  | [], _, _ => []
  | r :: rest, new, s =>
    if new.inversePrice < r.price then settlements rest new s
    else
      (tradeOrder new r s).elim [] fun out =>
        roundSettlement new r s ++ if out.1.amountRemaining = 0 then [] else settlements rest out.1 out.2

/-- The fills of `x_Trade`, with their fees. -/
def xTradeSettlements (new : CMPMetaDEx) (s : State) : List Settlement :=
  (s.metadex.find? new.desiredProperty).elim [] fun prices =>
    settlements (MdPricesMap.orders new.desiredProperty prices) new s

/-! ### Journals -/

/-- What a run writes besides the state, and what has happened in it. -/
structure Journal where
  /-- `pDbTradeList` -/
  trades : TradeDB := ∅
  /-- `pDbTransactionList` -/
  txs : TxValidity := ∅
  /-- The fills so far. -/
  settled : List Settlement := []
  /-- The orders so far, each as it last was. -/
  orders : OrdMap Hash CMPMetaDEx := ∅

/-- A fill is recorded, and both orders have less remaining. -/
def Journal.settle : Journal :=
  { j with
    trades := recordTrade j.trades (.matched t.record)
    settled := j.settled ++ [t]
    orders := (j.orders.insert t.resting.txid t.resting).insert t.incoming.txid t.incoming }

variable (tx : CMPTransaction)

/-- The record of a new order. -/
def CMPTransaction.newTrade : NewTrade :=
  ⟨tx.txid, tx.sender, tx.property, tx.desiredProperty, tx.block, tx.txIdx⟩

/-- `recordNewTrade` -/
def Journal.place : Journal :=
  { j with
    trades := recordTrade j.trades (.new tx.newTrade)
    orders := j.orders.insert tx.txid tx.order }

/-- `recordTX`, for a result of `interpretPacket`: all but malformed packets are listed. -/
def Journal.recordTX (txid : Hash) (rc : Int) : Journal :=
  if rc = pktError - 2 then j else { j with txs := j.txs.insert txid (decide (0 ≤ rc)) }

/-- What a trade writes. -/
def Journal.trade : Journal :=
  if admitsTrade s tx then (xTradeSettlements tx.order s).foldl Journal.settle (j.place tx) else j

/-- What an event writes that finds the state `s`. -/
def Journal.after : Event → Journal
  | .packet tx env =>
    (interpretPacket s tx env).elim j fun r => (j.trade s tx).recordTX tx.txid r.1
  | _ => j

/-- A node with its journal. -/
structure Recorder where
  node : Node
  journal : Journal

def Recorder.initial (cfg : Config) : Recorder := ⟨Node.initial cfg, {}⟩

/-- One call, with its records. -/
def recordStep (r : Recorder) (e : Event) : Option Recorder :=
  (step r.node e).map fun n => ⟨n, r.journal.after r.node.state e⟩

/-- Is the packet that of a transaction that is not listed yet, by an address, about properties
with 32-bit identifiers? -/
def isListable : Event → Bool
  | .packet tx _ =>
    !j.txs.contains tx.txid && decide (IsField ':' tx.sender.toList) && decide (tx.property ≤ u32Max) &&
      decide (tx.desiredProperty ≤ u32Max)
  | _ => true

/-- A step with a transaction as the chain has it: each comes once, and from an address. -/
def chainStep : Recorder → Event → Option Recorder := guarded (fun r e => isListable r.journal e) recordStep

end Rapids.Token
