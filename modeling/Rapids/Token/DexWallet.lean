import Mathlib.Data.Rat.Floor
import Rapids.Token.DexPayments

/-!
# Rapids.Token.DexWallet

**Paying an accepted offer from the wallet**: `sendtokendexpay`, and the transaction that
`CreateDExTransaction` builds for it.

The builder pays the seller the amount less the royalties on it, and the royalties to their
receiver. The validator asks for the royalties on the whole offer, and counts each output
by itself, twice.
-/

namespace Rapids.Token

open Rapids.Lib

/-! ### Prices -/

/-- `calculateDesiredRPD`: the price of an amount, rounded up. -/
def calculateDesiredRPD (amountOffered amountDesired amountAvailable : Int) : Option Int :=
  if amountOffered = 0 then some 0
  else do
    let offered ← convertTo256 amountOffered
    let desired ← convertTo256 amountDesired
    let available ← convertTo256 amountAvailable
    convertTo64 (← divideAndRoundUp (desired * available) offered)

/-- The tokens that an amount is worth at the price of an accept, rounded up. -/
def CMPAccept.tokensFor (accept : CMPAccept) (amount : Int) : Int :=
  ⌈((amount * accept.offerAmountOriginal : Int) : ℚ) / accept.rpdDesiredOriginal⌉

/-! ### The wallet -/

/-- What building a transaction takes from the wallet. -/
structure DexWallet where
  /-- How an output to an address is read back: `EncodeDestination` of `DecodeDestination`. -/
  encoded : Address → Address
  encoded_encoded : ∀ a, encoded (encoded a) = encoded a
  /-- `GetDustThreshold` of an output to an address. -/
  dustThreshold : Address → Int
  /-- What the selected coins are worth. -/
  nValueIn : Int
  nValueIn_le : nValueIn ≤ i64Max
  nFeeRet : Nat
  /-- The random place of a change output. -/
  nChangePosInOut : Nat

variable (w : DexWallet)

/-- Merge change into the first output to its address. -/
def mergeChange (dest : Address) (nChange : Int) : List (Address × Int) → List (Address × Int)
  | [] => []
  | out :: rest => if out.1 = dest then (out.1, out.2 + nChange) :: rest else out :: mergeChange dest nChange rest

/-- The outputs with the change, which goes to an output that pays its address, into one of
its own, or to the fee if it is dust. -/
def DexWallet.addChange (dest : Address) (nChange : Int) (vout : List (Address × Int)) : List (Address × Int) :=
  if nChange ≤ 0 then vout
  else if vout.any fun out => out.1 = dest then mergeChange dest nChange vout
  else if nChange < w.dustThreshold dest then vout
  else vout.insertIdx (w.nChangePosInOut % (vout.length + 1)) (dest, nChange)

/-- `CWallet::CreateTransaction`, with the change to an address: the outputs. -/
def DexWallet.createTransaction (destChange : Address) (vecSend : List (Address × Int)) :
    Option (List (Address × Int)) :=
  let nValue := (vecSend.map Prod.snd).sum
  if vecSend.any fun rec => rec.2 < 0 || rec.2 < w.dustThreshold rec.1 then none
  else if w.nValueIn < nValue + w.nFeeRet then none
  else some (w.addChange (w.encoded destChange) (w.nValueIn - nValue - w.nFeeRet) vecSend)

/-- The royalties on an amount. -/
def royaltiesOn (percentage : Nat) (nAmount : Int) : Int :=
  if 0 < percentage then (toI64 (nAmount * percentage)).tdiv 100 else 0

variable (s : State) (buyer : Address)

/-- `CreateDExTransaction`: the outputs to the Exodus address, the seller and the receiver of
royalties. -/
def createDExTransaction (seller : Address) (nAmount : Int) (royaltiesPercentage : Nat)
    (royaltiesReceiver : String) : Option (List (Address × Int)) :=
  let royaltiesAmount := royaltiesOn royaltiesPercentage nAmount
  let royaltiesAddress := if isUsernameValid royaltiesReceiver then getUsernameAddress s royaltiesReceiver
    else royaltiesReceiver
  w.createTransaction buyer
    ([(s.cfg.exodusAddress, w.dustThreshold s.cfg.exodusAddress), (w.encoded seller, nAmount - royaltiesAmount)] ++
      if 0 < royaltiesAmount then [(w.encoded royaltiesAddress, royaltiesAmount)] else [])

/-- `sendtokendexpay`, for a property. -/
def sendTokenDexPay (seller : Address) (p : PropertyId) (nAmount : Int) :
    Option (List (Address × Int)) :=
  if nAmount ≤ 0 then none
  else do
    let accept ← s.accepts.find? ⟨seller, p, buyer⟩
    let amountToPay ← calculateDesiredRPD accept.offerAmountOriginal accept.rpdDesiredOriginal
      accept.acceptAmountRemaining
    if amountToPay < nAmount then none
    else if !isPropertyDivisible s p && decide (nAmount < amountToPay) then none
    else
      let royaltiesSP := (getSP s p).getD {}
      createDExTransaction w s buyer seller nAmount royaltiesSP.royaltiesPercentage royaltiesSP.royaltiesReceiver

/-- The payments of the transaction, as `HandleDExPayments` lists them. -/
def paymentsOf (vout : List (Address × Int)) : List (Address × Int) :=
  paymentOutputs s (vout.map fun out => (some out.1, out.2))

/-- The transaction credits the buyer with some tokens of the property, no more and no less. -/
def DeliversTokens (p : PropertyId) (block : Nat) (vout : List (Address × Int))
    (tokens : Int) : Prop :=
  ∃ s', handleDExPayments s buyer (paymentsOf s vout) block = some s' ∧
    getTokenBalance s' buyer p .balance = getTokenBalance s buyer p .balance + tokens

/-! ### When the tokens arrive -/

/-- The payments concern one accept, and its terms are those of its offer: the buyer has no
accept with another payee, the purchase does not change to whom a username of the
royalties belongs, and the royalties are computed without overflow. -/
structure OneBargain (s : State) (seller buyer : Address) (p : PropertyId) (accept : CMPAccept)
    (payments : List (Address × Int)) : Prop where
  alone : ∀ out ∈ payments, out.1 ≠ seller → dexPayableAccept s out.1 buyer = none
  steady : dexRoyalties (creditName s buyer p) p accept.rpdDesiredOriginal =
    dexRoyalties s p accept.rpdDesiredOriginal
  within : accept.acceptAmountRemaining ≤ accept.offerAmountOriginal
  fits : accept.offerAmountOriginal ≤ i64Max
  exact_ : accept.rpdDesiredOriginal * ((getSP s p).getD {}).royaltiesPercentage ≤ i64Max

/-- The payment is for all that is left of the accept, with the royalties on the whole offer,
and the tokens can be moved. -/
structure PaidInFull (s : State) (seller buyer : Address) (p : PropertyId) (accept : CMPAccept) (block : Nat)
    (payments : List (Address × Int)) (nAmount : Int) : Prop where
  offered : dexGetTokenForSale s seller = some p
  visible : w.encoded seller = seller ∧ seller ≠ s.cfg.exodusAddress
  royalties : dexRoyaltiesPaid s p accept.rpdDesiredOriginal payments = true
  full : accept.acceptAmountRemaining ≤ accept.tokensFor nAmount
  priced : ∀ out ∈ payments.find? fun out => out.1 = seller,
    (dexAmountBought s seller p accept out.2 block).isSome = true
  reserved : accept.acceptAmountRemaining ≤ getTokenBalance s seller p .acceptReserve
  room : getTokenBalance s buyer p .balance + accept.acceptAmountRemaining ≤ i64Max

end Rapids.Token
