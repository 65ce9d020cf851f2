import Rapids.Lib.Binary64
import Rapids.Token.Ledger
import Rapids.Token.Rules

/-!
# Rapids.Token.Dex

The **traditional exchange** (`dex.cpp`): sell offers for RPD, accepts, payments
and the expiry of accepts.

An offer holds the seller's tokens in `SELLOFFER_RESERVE`. An accept moves part
of them to `ACCEPT_RESERVE` and copies the offer's price, window and hash, so
that it survives the offer. A payment is matched to an accept through the
seller's *open offer*. When an accept ends, what is left returns to the offer
if that very offer is still open, and to the seller's balance otherwise.

Results are a return code and the new state; `none` is a failed `assert`.
-/

namespace Rapids.Token

open Rapids.Lib

def dexErrorSelloffer : Int := -10000
def dexErrorAccept : Int := -20000
def dexErrorPayment : Int := -30000

/-! ### Lookups -/

variable (s : State) (seller buyer : Address) (p : PropertyId) (amountOffered amountDesired : Int) (accept : CMPAccept) (amountPaid : Int) (block : Nat)

def dexOfferExists : Bool :=
  s.offers.contains ⟨seller, p⟩

/-- Does the seller have any open offer? -/
def dexHasOffer : Bool :=
  s.offers.entries.any fun o => o.1.seller == seller

/-- The property of the seller's first open offer. -/
def dexGetTokenForSale : Option PropertyId :=
  (s.offers.entries.find? fun o => o.1.seller == seller).map fun o => o.1.property

/-! ### Writes to the two books -/

def State.putOffer (k : OfferKey) (o : CMPOffer) : State :=
  { s with offers := s.offers.insert k o }

def State.eraseOffer (k : OfferKey) : State := { s with offers := s.offers.erase k }

def State.putAccept (k : AcceptKey) (a : CMPAccept) : State :=
  { s with accepts := s.accepts.insert k a }

def State.eraseAccept (k : AcceptKey) : State := { s with accepts := s.accepts.erase k }

/-! ### Amounts -/

/-- `rounduint64`; a value past 64 bits keeps its low bits. -/
def rounduint64 (x : ℚ) : Nat := roundHalfUp x % 18446744073709551616

/-- The price of an over-offer, in floating point (`legacy::calculateDesiredRPD`). -/
def legacyCalculateDesiredRPD (amountAvailable : Int) : Int :=
  let product := toU64 amountDesired * toU64 amountAvailable % 18446744073709551616
  let rpd := toBinary64 (toBinary64 product / toBinary64 (toU64 amountOffered))
  toI64 (rounduint64 rpd)

/-- Tokens bought, in floating point (`legacy::calculateDExPurchase`). -/
def legacyCalculateDExPurchase : Int :=
  let percX := toBinary64 (toBinary64 (toU64 amountPaid) / toBinary64 (toU64 amountDesired))
  let purchased := toBinary64 (toBinary64 (toU64 amountOffered) * percX)
  toI64 (rounduint64 purchased)

/-- Tokens bought, rounded up. -/
def calculateDExPurchase : Option Int := do
  let offered ← convertTo256 amountOffered
  let desired ← convertTo256 amountDesired
  let paid ← convertTo256 amountPaid
  convertTo64 (← divideAndRoundUp (paid * offered) desired)

/-! ### Offers -/

/-- Move tokens if there are any. -/
def transferIfPositive (amount : Int) (src dst : Bucket) : Option State :=
  if 0 < amount then transferTally s p amount src dst else some s

def dexOfferCreate
    (amountDesired minAcceptFee : Int) (paymentWindow : Nat) (txid : Hash) : Option (Int × State) :=
  if paymentWindow = 0 then some (dexErrorSelloffer - 101, s)
  else if amountDesired = 0 then some (dexErrorSelloffer - 101, s)
  else if dexOfferExists s seller p then some (dexErrorSelloffer - 10, s)
  else if dexHasOffer s seller then some (dexErrorSelloffer - 10, s)
  else
    let available := getTokenBalance s seller p .balance
    if isFeatureActivated s.params Feature.dexmath.id block ∧ available < amountOffered then
      some (dexErrorSelloffer - 25, s)
    else
      -- an over-offer puts everything up for sale
      let desired := if available < amountOffered then
          legacyCalculateDesiredRPD amountOffered amountDesired available
        else amountDesired
      let offered := if available < amountOffered then available else amountOffered
      if 0 < offered then do
        let s ← transferTally s p offered (seller, .balance) (seller, .sellofferReserve)
        let offer := ⟨block, offered, p, desired, minAcceptFee, paymentWindow, txid⟩
        return (0, s.putOffer ⟨seller, p⟩ offer)
      else some (dexErrorSelloffer, s)

def dexOfferDestroy : Option (Int × State) :=
  if !dexOfferExists s seller p then some (dexErrorSelloffer - 11, s)
  else do
    let reserved := getTokenBalance s seller p .sellofferReserve
    let s ← transferIfPositive s p reserved (seller, .sellofferReserve) (seller, .balance)
    return (0, s.eraseOffer ⟨seller, p⟩)

/-- Destroy the old offer, then try to create the new one. -/
def dexOfferUpdate
    (amountDesired minAcceptFee : Int) (paymentWindow : Nat) (txid : Hash) : Option (Int × State) :=
  if !dexOfferExists s seller p then some (dexErrorSelloffer - 12, s)
  else do
    let (rc, s) ← dexOfferDestroy s seller p
    if rc = 0 then
      dexOfferCreate s seller p amountOffered block amountDesired minAcceptFee paymentWindow txid
    else some (rc, s)

/-! ### Accepts -/

def dexAcceptCreate (seller : Address) (p : PropertyId) (amountAccepted : Int)
    (block : Nat) (feePaid : Int) : Option (Int × State) :=
  match s.offers.find? ⟨seller, p⟩ with
  | none => some (dexErrorAccept - 15, s)
  | some offer =>
    if s.accepts.contains ⟨seller, p, buyer⟩ then some (dexErrorAccept - 205, s)
    else if feePaid < offer.minFee then some (dexErrorAccept - 105, s)
    else
      let forSale := getTokenBalance s seller p .sellofferReserve
      let reserved := if amountAccepted ≤ forSale then amountAccepted else forSale
      if 0 < reserved then do
        let s ← transferTally s p reserved (seller, .sellofferReserve) (seller, .acceptReserve)
        let accept := ⟨reserved, reserved, offer.blocktimelimit, offer.property,
          offer.offerAmountOriginal, offer.rpdDesiredOriginal, offer.txid, block⟩
        return (0, s.putAccept ⟨seller, p, buyer⟩ accept)
      else some (dexErrorAccept - 10, s)

/-- Does an accept's rest go back to the offer? Only to the offer it was made
on. -/
def acceptReturnsTo : TallyType :=
  match s.offers.find? ⟨seller, p⟩ with
  | some offer => if offer.txid = accept.offerTxid then .sellofferReserve else .balance
  | none => .balance

/-- Return what is left of an accept and erase it. The expiry loop erases it
itself, after the call. -/
def dexAcceptDestroy (seller : Address) (p : PropertyId) : Option (Int × State) :=
  match s.accepts.find? ⟨seller, p, buyer⟩ with
  | none => some (dexErrorAccept - 20, s)
  | some accept => do
    let s ← transferIfPositive s p accept.acceptAmountRemaining (seller, .acceptReserve)
      (seller, acceptReturnsTo s seller p accept)
    return (0, s.eraseAccept ⟨seller, p, buyer⟩)

/-- Is the payment window over? -/
def CMPAccept.isExpired (a : CMPAccept) (blockNow : Nat) : Bool :=
  decide ((a.blocktimelimit : Int) ≤ (blockNow : Int) - a.block)

/-- The loop over the accepts. -/
def eraseExpiredAcceptsLoop (blockNow : Nat) : List (AcceptKey × CMPAccept) → State → Option State
  | [], s => some s
  | (key, accept) :: rest, s =>
    if accept.isExpired blockNow then do
      let (_, s) ← dexAcceptDestroy s key.buyer key.seller key.property
      eraseExpiredAcceptsLoop blockNow rest s
    else eraseExpiredAcceptsLoop blockNow rest s

/-- `eraseExpiredAccepts`, run at the end of every block. -/
def eraseExpiredAccepts (blockNow : Nat) : Option State :=
  eraseExpiredAcceptsLoop blockNow s.accepts.entries s

/-! ### Payments -/

/-- The royalties on a sale of a property: who gets them, and how much. -/
def dexRoyalties : Address × Int :=
  let sp := (getSP s p).getD {}
  let receiver := if isUsernameValid sp.royaltiesReceiver then
      getUsernameAddress s sp.royaltiesReceiver
    else sp.royaltiesReceiver
  (receiver, (toI64 (amountDesired * sp.royaltiesPercentage)).tdiv 100)

/-- Does the transaction pay the royalties that are due? -/
def dexRoyaltiesPaid
    (payments : List (Address × Int)) : Bool :=
  let (receiver, amount) := dexRoyalties s p amountDesired
  ((getSP s p).getD {}).royaltiesPercentage == 0 ||
    payments.any fun pay => pay.1 == receiver && decide (amount ≤ pay.2)

/-- What counts as paid: royalties to another receiver are added. -/
def dexAmountPaid
    : Int :=
  let (receiver, royalties) := dexRoyalties s p accept.rpdDesiredOriginal
  if seller ≠ receiver then toI64 (amountPaid + royalties) else amountPaid

/-- The tokens a payment buys under the accept's price, before the cap at what
is left of the accept. -/
def dexAmountBought
    : Option Int :=
  let paid := dexAmountPaid s seller p accept amountPaid
  if isFeatureActivated s.params Feature.dexmath.id block then
    calculateDExPurchase accept.offerAmountOriginal accept.rpdDesiredOriginal paid
  else some (legacyCalculateDExPurchase accept.offerAmountOriginal accept.rpdDesiredOriginal paid)

/-- The purchase is complete: end the accept, and the offer too if nothing is
reserved any more. -/
def dexFinish : Option State := do
  let reserveSell := getTokenBalance s seller p .sellofferReserve
  let reserveAccept := getTokenBalance s seller p .acceptReserve
  let (_, s) ← dexAcceptDestroy s buyer seller p
  if reserveSell = 0 ∧ reserveAccept = 0 then (dexOfferDestroy s seller p).map Prod.snd else some s

/-- The tokens that change hands: what the payment buys, up to what is left. -/
def CMPAccept.purchased (bought : Int) : Int :=
  if accept.acceptAmountRemaining < bought then accept.acceptAmountRemaining else bought

/-- The accept after a purchase (`reduceAcceptAmountRemaining_andIsZero`). -/
def CMPAccept.reduce (purchased : Int) : CMPAccept :=
  { accept with acceptAmountRemaining := accept.acceptAmountRemaining - purchased }

/-- The accept a payment is matched to, with its property. -/
def dexPayableAccept : Option (PropertyId × CMPAccept) := do
  let p ← dexGetTokenForSale s seller
  let accept ← s.accepts.find? ⟨seller, p, buyer⟩
  return (p, accept)

/-- `DEx_payment` -/
def dexPayment
    (payments : List (Address × Int)) : Option (Int × State) :=
  match dexPayableAccept s seller buyer with
  | none => some (dexErrorPayment - 1, s)
  | some (p, accept) =>
    if accept.rpdDesiredOriginal = 0 then some (dexErrorPayment - 2, s)
    else if !dexRoyaltiesPaid s p accept.rpdDesiredOriginal payments then
      some (dexErrorPayment - 3, s)
    else do
      let bought ← dexAmountBought s seller p accept amountPaid block
      let purchased := accept.purchased bought
      let s ← transferIfPositive s p purchased (seller, .acceptReserve) (buyer, .balance)
      let rc := if 0 < purchased then 0 else dexErrorPayment
      let s := s.putAccept ⟨seller, p, buyer⟩ (accept.reduce purchased)
      if accept.acceptAmountRemaining ≤ purchased then
        (dexFinish s seller buyer p).map fun s => (rc, s)
      else some (rc, s)

/-- `HandleDExPayments`: every output to an address is offered as a payment,
and the loop over the outputs stands twice in the source. -/
def handleDExPayments (sender : Address) (outputs : List (Address × Int)) (block : Nat) :
    Option State :=
  (outputs ++ outputs).foldlM
    (fun s out => (dexPayment s out.1 sender out.2 block outputs).map Prod.snd) s

end Rapids.Token
