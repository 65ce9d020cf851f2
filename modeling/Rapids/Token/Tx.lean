import Rapids.Token.Crowd
import Rapids.Token.Dex
import Rapids.Token.MetaDex

/-!
# Rapids.Token.Tx

**Transactions** (`tx.cpp`): one `logicMath` handler for each type, and
`interpretPacket`, which runs the handler of a parsed packet.

A handler checks first and acts afterwards. The checks are a list of
conditions with error codes, in the order of the source; `reject` returns the
code of the first one that holds and leaves the state as it is. What a handler
asks the node about (the hash of the block, the cost of an issuance, a linked
transaction) is in `TxEnv`. Amounts of a packet are unsigned 64-bit numbers and
are cast (`toI64`) where the source casts them.
-/

namespace Rapids.Token

open Rapids.Lib

def pktError : Int := -9000
def pktErrorSp : Int := -40000
def pktErrorSto : Int := -50000
def pktErrorSend : Int := -60000
def pktErrorTradeoffer : Int := -70000
def pktErrorMetadex : Int := -80000
def pktErrorTokens : Int := -82000
def pktErrorSendAll : Int := -83000
def pktErrorSendMany : Int := -84000
def mpTxNotFound : Int := -3331
def mpTxIsNotTokenProtocol : Int := -3336

/-! ### Packets -/

/-- A parsed transaction (`CMPTransaction`). -/
structure CMPTransaction where
  txid : Hash
  block : Nat
  blockTime : Int
  txIdx : Nat
  txFeePaid : Nat := 0
  sender : Address
  receiver : Address := ""
  type : Nat
  version : Nat := 0
  nValue : Nat := 0
  nNewValue : Nat := 0
  nDonation : Int := 0
  property : PropertyId := 0
  distributionProperty : PropertyId := 0
  ecosystem : Nat := 0
  propType : Nat := 0
  category : String := ""
  subcategory : String := ""
  name : String := ""
  ticker : String := ""
  url : String := ""
  data : String := ""
  royaltiesReceiver : String := ""
  royaltiesPercentage : Nat := 0
  deadline : Nat := 0
  earlyBird : UInt8 := 0
  percentage : UInt8 := 0
  desiredProperty : PropertyId := 0
  desiredValue : Nat := 0
  amountDesired : Nat := 0
  blocktimelimit : Nat := 0
  minFee : Nat := 0
  subaction : Nat := 0
  numberOfSTMReceivers : Nat := 0
  /-- Output number and amount. -/
  outputValuesForSTM : List (Nat × Nat) := []
  validOutputAddressesForSTM : OrdMap Nat Address := ∅
  alertType : Nat := 0
  alertExpiry : Nat := 0
  alertText : String := ""
  featureId : Nat := 0
  activationBlock : Nat := 0
  minClientVersion : Nat := 0
  linkedTxid : Hash := 0
  rpcOnly : Bool := false
  /-- Did `interpret_Transaction` accept the payload? -/
  interpreted : Bool := true

/-- What the governance asks for an issuance of some kind. -/
inductive GovernanceCost
  | fixed
  | variable
  | managed
  | sub
  | username
  deriving DecidableEq, Repr

/-- What the node knows of a linked transaction. -/
inductive LinkedTx
  /-- Unknown or unconfirmed. -/
  | notFound
  /-- No token transaction. -/
  | notToken
  | token (valid : Bool) (type version : Nat) (sender : Address)
  deriving DecidableEq, Repr

/-- The answers of the node to a transaction's handler. -/
structure TxEnv where
  /-- The hash of the transaction's block, if that is in the active chain. -/
  blockHash : Option Hash
  cost : GovernanceCost → Int := fun _ => 0
  linked : LinkedTx := .notFound
  /-- What the transaction pays to an address, in RPD. -/
  paymentTo : Address → Int := fun _ => 0

variable (s : State) (tx : CMPTransaction) (p : PropertyId) (env : TxEnv)

/-- The transaction, as a crowdsale participation reads it. -/
def CMPTransaction.investment : Investment :=
  ⟨tx.sender, tx.receiver, tx.property, tx.nValue, tx.txid, tx.block, tx.blockTime, env.blockHash⟩

/-! ### Checks -/

/-- Return the code of the first check that holds, and the state as it is; go
on if none does. -/
def reject (checks : List (Bool × Int)) (go : Option (Int × State)) :
    Option (Int × State) :=
  match checks.find? Prod.fst with
  | some check => some (check.2, s)
  | none => go

/-- `nValue <= 0 || MAX_INT_8_BYTES < nValue` -/
def isOutOfRange (value : Nat) : Bool := decide (value = 0) || decide (maxInt8Bytes < value)

/-- Is the type not permitted for the property at the transaction's block? -/
def notAllowed (txType : TxType) : Bool :=
  !isTransactionTypeAllowed s.params tx.block p txType tx.version

/-- Does the sender own less than the amount? -/
def insufficient (amount : Nat) : Bool :=
  decide (getTokenBalance s tx.sender tx.property .balance < toI64 amount)

/-! ### Sends -/

/-- Tx 0 -/
def logicMathSimpleSend : Option (Int × State) :=
  reject s
    [ (notAllowed s tx tx.property .simpleSend, pktErrorSend - 22),
      (isOutOfRange tx.nValue, pktErrorSend - 23),
      (!isPropertyIdValid s tx.property, pktErrorSend - 24),
      (insufficient s tx tx.nValue, pktErrorSend - 25) ]
    do
      let s ← transferTally s tx.property (toI64 tx.nValue) (tx.sender, .balance) (tx.receiver, .balance)
      let (_, s) ← crowdsaleParticipation s (tx.investment env)
      return (0, s)

/-- The loop that pays the owners. -/
def payOwners (s : State) (sender : Address) (p : PropertyId) : List (Int × Address) → Option State
  | [] => some s
  | (amount, address) :: rest => do
    let s ← transferTally s p amount (sender, .balance) (address, .balance)
    payOwners s sender p rest

/-- In version 0 the thresholds of the first reserved property are updated. -/
def notifyFeeBurned : Option State :=
  if tx.version = 0 then notifyTotalTokensChanged s propertyMSC tx.block else some s

/-- Tx 3 -/
def logicMathSendToOwners : Option (Int × State) :=
  reject s
    [ (notAllowed s tx tx.property .sendToOwners, pktErrorSto - 22),
      (isOutOfRange tx.nValue, pktErrorSto - 23),
      (!isPropertyIdValid s tx.property, pktErrorSto - 24),
      (decide (0 < tx.version) && !isPropertyIdValid s tx.distributionProperty, pktErrorSto - 24),
      (insufficient s tx tx.nValue, pktErrorSto - 25) ]
    do
      let distributeTo := if tx.version = 0 then tx.property else tx.distributionProperty
      let receivers ← stoGetReceivers s tx.sender distributeTo (toI64 tx.nValue)
      reject s [(receivers.isEmpty, pktErrorSto - 26)] do
        let s ← payOwners s tx.sender tx.property receivers
        if (receivers.map Prod.fst).sum ≠ toI64 tx.nValue then none
        else do
          let s ← notifyFeeBurned s tx
          return (0, s)

/-- Does sending everything in an ecosystem leave the property out? -/
def skippedBySendAll : Bool :=
  (tx.ecosystem == propertyMSC && isTestEcosystemProperty p) ||
    (tx.ecosystem == propertyTMSC && isMainEcosystemProperty p) || isAddressFrozen s tx.sender p

/-- The loop over the sender's properties, counting those sent. -/
def sendAllLoop (tx : CMPTransaction) : List PropertyId → Nat → State → Option (Nat × State)
  | [], sent, s => some (sent, s)
  | p :: rest, sent, s =>
    let moneyAvailable := getTokenBalance s tx.sender p .balance
    if skippedBySendAll s tx p ∨ moneyAvailable ≤ 0 then sendAllLoop tx rest sent s
    else do
      let s ← transferTally s p moneyAvailable (tx.sender, .balance) (tx.receiver, .balance)
      sendAllLoop tx rest (sent + 1) s

/-- Tx 4. The traversal ends at a property 0. -/
def logicMathSendAll : Option (Int × State) :=
  reject s
    [ (notAllowed s tx tx.ecosystem .sendAll, pktErrorSendAll - 22),
      ((s.tally.find? tx.sender).isNone, pktErrorSendAll - 54) ]
    do
      let properties := (((s.tally.find? tx.sender).getD ∅).entries.map Prod.fst).takeWhile (· != 0)
      let (sent, s) ← sendAllLoop tx properties 0 s
      return (if sent = 0 then pktErrorSendAll - 55 else 0, s)

/-- The first output that does not refer to a destination, as an error code. -/
def stmOutputError : Option Int :=
  tx.outputValuesForSTM.findSome? fun entry =>
    match tx.validOutputAddressesForSTM.find? entry.1 with
    | none => some (pktErrorSendMany - 26)
    | some receiver => if receiver = "" then some (pktErrorSendMany - 27) else none

/-- The loop that moves the tokens. An amount past the signed range moves the
other way. -/
def sendManyLoop (tx : CMPTransaction) : List (Nat × Nat) → State → Option State
  | [], s => some s
  | (output, amount) :: rest, s => do
    let receiver ← tx.validOutputAddressesForSTM.find? output
    let s ← assertTally s tx.sender tx.property (toI64 (-(amount : Int))) .balance
    let s ← assertTally s receiver tx.property (toI64 amount) .balance
    sendManyLoop tx rest s

/-- Tx 5. The total is a 64-bit sum, the number of outputs an 8-bit one. -/
def logicMathSendToMany : Option (Int × State) :=
  reject s
    [ (notAllowed s tx tx.property .sendToMany, pktErrorSendMany - 22),
      (isOutOfRange tx.nValue, pktErrorSendMany - 23),
      (!isPropertyIdValid s tx.property, pktErrorSendMany - 24),
      (insufficient s tx tx.nValue, pktErrorSendMany - 25),
      ((stmOutputError tx).isSome, (stmOutputError tx).getD 0),
      (decide ((tx.outputValuesForSTM.map Prod.snd).sum % 18446744073709551616 ≠ tx.nValue),
        pktErrorSendMany - 28),
      (decide (tx.outputValuesForSTM.length % 256 ≠ tx.numberOfSTMReceivers), pktErrorSendMany - 29) ]
    do
      let s ← sendManyLoop tx tx.outputValuesForSTM s
      return (0, s)

/-! ### The exchanges -/

def subactionNew : Nat := 1
def subactionUpdate : Nat := 2
def subactionCancel : Nat := 3

/-- Create the offer of the packet. -/
def createOffer : Option (Int × State) :=
  dexOfferCreate s tx.sender tx.property (toI64 tx.nValue) tx.block (toI64 tx.amountDesired)
    (toI64 tx.minFee) tx.blocktimelimit tx.txid

/-- Replace the sender's offer by that of the packet. -/
def updateOffer : Option (Int × State) :=
  dexOfferUpdate s tx.sender tx.property (toI64 tx.nValue) tx.block (toI64 tx.amountDesired)
    (toI64 tx.minFee) tx.blocktimelimit tx.txid

/-- Version 0 of a sell offer: the action follows from the amount. -/
def tradeOfferV0 : Option (Int × State) :=
  if tx.nValue ≠ 0 then
    if dexOfferExists s tx.sender tx.property then updateOffer s tx else createOffer s tx
  else if dexOfferExists s tx.sender tx.property then dexOfferDestroy s tx.sender tx.property
  else some (pktErrorTradeoffer - 49, s)

/-- Version 1 of a sell offer: the packet names the action. -/
def tradeOfferV1 : Option (Int × State) :=
  let exist := dexOfferExists s tx.sender tx.property
  reject s
    [ (exist && tx.subaction != subactionCancel && tx.subaction != subactionUpdate,
        pktErrorTradeoffer - 48),
      (!exist && tx.subaction != subactionNew, pktErrorTradeoffer - 49) ]
    (if tx.subaction = subactionNew then createOffer s tx
    else if tx.subaction = subactionUpdate then updateOffer s tx
    else if tx.subaction = subactionCancel then dexOfferDestroy s tx.sender tx.property
    else some (pktError - 999, s))

/-- Tx 20 -/
def logicMathTradeOffer : Option (Int × State) :=
  reject s
    [ (notAllowed s tx tx.property .tradeOffer, pktErrorTradeoffer - 22),
      (decide (maxInt8Bytes < tx.nValue), pktErrorTradeoffer - 23) ]
    (if tx.version = 0 then tradeOfferV0 s tx
    else if tx.version = 1 then tradeOfferV1 s tx
    else some (pktError - 500, s))

/-- Tx 22 -/
def logicMathAcceptOfferRPD : Option (Int × State) :=
  reject s
    [ (notAllowed s tx tx.property .acceptOfferRPD, dexErrorAccept - 22),
      (isOutOfRange tx.nValue, dexErrorAccept - 23) ]
    (dexAcceptCreate s tx.sender tx.receiver tx.property (toI64 tx.nValue) tx.block (toI64 tx.txFeePaid))

/-- The checks on the pair of properties that three of the handlers share. -/
def pairChecks (txType : TxType) : List (Bool × Int) :=
  [ (notAllowed s tx tx.property txType, pktErrorMetadex - 22),
    (decide (tx.property = tx.desiredProperty), pktErrorMetadex - 29),
    (isTestEcosystemProperty tx.property != isTestEcosystemProperty tx.desiredProperty,
      pktErrorMetadex - 30),
    (!isPropertyIdValid s tx.property, pktErrorMetadex - 31),
    (!isPropertyIdValid s tx.desiredProperty, pktErrorMetadex - 32) ]

/-- The checks on the amounts that two of them share. -/
def pairAmountChecks : List (Bool × Int) :=
  [ (isOutOfRange tx.nNewValue, pktErrorMetadex - 33),
    (isOutOfRange tx.desiredValue, pktErrorMetadex - 34) ]

/-- Is one side of the pair a reserved property? -/
def hasReservedSide : Bool :=
  tx.property == propertyMSC || tx.desiredProperty == propertyMSC || tx.property == propertyTMSC ||
    tx.desiredProperty == propertyTMSC

/-- Tx 25 -/
def logicMathMetaDExTrade : Option (Int × State) :=
  reject s
    (pairChecks s tx .metadexTrade ++ pairAmountChecks tx ++
      [ (!isFeatureActivated s.params Feature.tradeallpairs.id tx.block && !hasReservedSide tx,
          pktErrorMetadex - 35),
        (insufficient s tx tx.nNewValue, pktErrorMetadex - 25) ])
    (metadexAdd s tx.sender tx.property (toI64 tx.nNewValue) tx.block tx.desiredProperty
      (toI64 tx.desiredValue) tx.txid tx.txIdx)

/-- Tx 26 -/
def logicMathMetaDExCancelPrice : Option (Int × State) :=
  reject s (pairChecks s tx .metadexCancelPrice ++ pairAmountChecks tx)
    (metadexCancelAtPrice s tx.sender tx.property (toI64 tx.nNewValue) tx.desiredProperty
      (toI64 tx.desiredValue))

/-- Tx 27 -/
def logicMathMetaDExCancelPair : Option (Int × State) :=
  reject s (pairChecks s tx .metadexCancelPair)
    (metadexCancelAllForPair s tx.sender tx.property tx.desiredProperty)

/-- Is the ecosystem neither of the two? -/
def isNoEcosystem (ecosystem : Nat) : Bool := ecosystem != propertyMSC && ecosystem != propertyTMSC

/-- Tx 28 -/
def logicMathMetaDExCancelEcosystem : Option (Int × State) :=
  reject s
    [ (notAllowed s tx tx.ecosystem .metadexCancelEcosystem, pktErrorMetadex - 22),
      (isNoEcosystem tx.ecosystem, pktErrorMetadex - 21) ]
    (metadexCancelEverything s tx.sender tx.ecosystem)

/-! ### Creating properties -/

/-- The fields every new entry takes from its packet. -/
def CMPTransaction.newSP : SPEntry :=
  SPEntry.updateIssuer
    { issuer := tx.sender
      txid := tx.txid
      propType := tx.propType
      category := tx.category
      subcategory := tx.subcategory
      name := tx.name
      ticker := tx.ticker
      url := tx.url
      data := tx.data
      creationBlock := env.blockHash.getD 0
      updateBlock := env.blockHash.getD 0 }
    tx.block tx.txIdx tx.sender

def CMPTransaction.fixedSP : SPEntry :=
  { tx.newSP env with
    numTokens := toI64 tx.nValue
    fixed := true
    royaltiesPercentage := tx.royaltiesPercentage
    royaltiesReceiver := tx.royaltiesReceiver }

def CMPTransaction.variableSP : SPEntry :=
  { tx.newSP env with
    numTokens := toI64 tx.nValue
    propertyDesired := tx.property
    deadline := toI64 tx.deadline
    earlyBird := tx.earlyBird
    percentage := tx.percentage }

def CMPTransaction.managedSP : SPEntry :=
  { tx.newSP env with manual := true }

/-- Is the transaction's property type unknown? -/
def isNoPropertyType (propType : Nat) : Bool :=
  propType != propertyTypeIndivisible && propType != propertyTypeDivisible

/-- One indivisible unit. -/
def CMPTransaction.isNFT : Bool :=
  tx.propType == propertyTypeIndivisible && tx.nValue == 1

/-- Is the sender not the issuer of the token before the `#`? -/
def isNotRootIssuer : Bool :=
  match splitSubTicker tx.ticker.toList with
  | [root, _] =>
    let p := findSPByTicker s (String.ofList root)
    p == 0 || ((getSP s p).getD {}).issuer != tx.sender
  | _ => true

/-- What the issuance of a fixed property costs. -/
def fixedCost : Int :=
  if isUsernameValid tx.ticker then env.cost .username
  else if isSubTickerValid tx.ticker then env.cost .sub
  else env.cost .fixed

/-- The receiver of royalties is a registered username or an address. -/
def royaltiesChecks : List (Bool × Int) :=
  let named := tx.royaltiesReceiver != ""
  [ (decide (99 < tx.royaltiesPercentage), pktErrorSp - 78),
    (!tx.isNFT && (named || decide (0 < tx.royaltiesPercentage)), pktErrorSp - 79),
    (!named && decide (0 < tx.royaltiesPercentage), pktErrorSp - 80),
    (named && tx.royaltiesPercentage == 0, pktErrorSp - 81),
    (named && isUsernameValid tx.royaltiesReceiver && findSPByTicker s tx.royaltiesReceiver == 0,
      pktErrorSp - 82),
    (named && !isUsernameValid tx.royaltiesReceiver && !s.cfg.isValidDestination tx.royaltiesReceiver,
      pktErrorSp - 83) ]

/-- Tx 50 -/
def logicMathCreatePropertyFixed :
    Option (Int × State) :=
  reject s
    ([ (env.blockHash.isNone, pktErrorSp - 20),
       (isNoEcosystem tx.ecosystem, pktErrorSp - 21),
       (notAllowed s tx tx.ecosystem .createPropertyFixed, pktErrorSp - 22),
       (isOutOfRange tx.nValue, pktErrorSp - 23),
       (isNoPropertyType tx.propType, pktErrorSp - 36),
       (tx.name == "", pktErrorSp - 37),
       (tx.ticker == "", pktErrorSp - 51),
       (decide (0 < findSPByTicker s tx.ticker), pktErrorSp - 71),
       (!isTokenTickerValid tx.ticker && !isUsernameValid tx.ticker && !isSubTickerValid tx.ticker,
         pktErrorSp - 72),
       (isSubTickerValid tx.ticker && isNotRootIssuer s tx, pktErrorSp - 72),
       ((isUsernameValid tx.ticker || isSubTickerValid tx.ticker) && !tx.isNFT, pktErrorSp - 23),
       (decide (tx.nDonation < fixedCost tx env), pktErrorSp - 73),
       (!isTokenIPFSValid tx.data, pktErrorSp - 74) ] ++ royaltiesChecks s tx)
    do
      let (p, s) := putSP s tx.ecosystem (tx.fixedSP env)
      if p = 0 then none
      else do
        let s ← assertTally s tx.sender p (toI64 tx.nValue) .balance
        let s ← notifyTotalTokensChanged s p tx.block
        return (0, s)

/-- Tx 51 -/
def logicMathCreatePropertyVariable :
    Option (Int × State) :=
  reject s
    [ (env.blockHash.isNone, pktErrorSp - 20),
      (isNoEcosystem tx.ecosystem, pktErrorSp - 21),
      (isFeatureActivated s.params Feature.spcrowdcrossover.id tx.block &&
        isTestEcosystemProperty tx.ecosystem != isTestEcosystemProperty tx.property, pktErrorSp - 50),
      (notAllowed s tx tx.ecosystem .createPropertyVariable, pktErrorSp - 22),
      (isOutOfRange tx.nValue, pktErrorSp - 23),
      (decide (tx.version < 2) && !isPropertyIdValid s tx.property, pktErrorSp - 24),
      (isNoPropertyType tx.propType, pktErrorSp - 36),
      (tx.name == "", pktErrorSp - 37),
      (tx.ticker == "", pktErrorSp - 51),
      (tx.deadline == 0 || decide (toI64 tx.deadline < tx.blockTime), pktErrorSp - 38),
      (s.crowds.contains tx.sender, pktErrorSp - 39),
      (decide (0 < findSPByTicker s tx.ticker), pktErrorSp - 71),
      (!isTokenTickerValid tx.ticker, pktErrorSp - 72),
      (decide (tx.nDonation < env.cost .variable), pktErrorSp - 73),
      (!isTokenIPFSValid tx.data, pktErrorSp - 74) ]
    (let (p, s) := putSP s tx.ecosystem (tx.variableSP env)
    let crowd : CMPCrowd :=
      ⟨p, toI64 tx.nValue, tx.property, toI64 tx.deadline, tx.earlyBird, tx.percentage, 0, 0, ∅⟩
    if p = 0 then none else some (0, { s with crowds := s.crowds.insertNew tx.sender crowd }))

/-- Tx 54 -/
def logicMathCreatePropertyManaged :
    Option (Int × State) :=
  reject s
    [ (env.blockHash.isNone, pktErrorSp - 20),
      (isNoEcosystem tx.ecosystem, pktErrorSp - 21),
      (notAllowed s tx tx.ecosystem .createPropertyManual, pktErrorSp - 22),
      (isNoPropertyType tx.propType, pktErrorSp - 36),
      (tx.name == "", pktErrorSp - 37),
      (tx.ticker == "", pktErrorSp - 51),
      (decide (0 < findSPByTicker s tx.ticker), pktErrorSp - 71),
      (!isTokenTickerValid tx.ticker, pktErrorSp - 72),
      (decide (tx.nDonation < env.cost .managed), pktErrorSp - 73),
      (!isTokenIPFSValid tx.data, pktErrorSp - 74) ]
    (let (p, s) := putSP s tx.ecosystem (tx.managedSP env)
    if p = 0 then none else some (0, s))

/-! ### Crowdsales and managed properties -/

/-- Close the sender's crowdsale, crediting the missed bonus. -/
def closeCrowdsale (crowd : CMPCrowd) :
    Option State := do
  let sp ← getSP s tx.property
  let missedTokens ← getMissedIssuerBonus s sp crowd
  let s ← updateSP s tx.property { sp with
    historicalData := crowd.txFundraiserData
    updateBlock := env.blockHash.getD 0
    closeEarly := true
    timeclosed := tx.blockTime
    txidClose := tx.txid
    missedTokens := missedTokens }
  let s ← creditIfPositive s sp.issuer tx.property missedTokens
  return { s with crowds := s.crowds.erase tx.sender }

/-- Tx 53 -/
def logicMathCloseCrowdsale : Option (Int × State) :=
  reject s
    [ (env.blockHash.isNone, pktErrorSp - 20),
      (notAllowed s tx tx.property .closeCrowdsale, pktErrorSp - 22),
      (!isPropertyIdValid s tx.property, pktErrorSp - 24) ]
    (match s.crowds.find? tx.sender with
    | none => some (pktErrorSp - 40, s)
    | some crowd =>
      reject s [(decide (tx.property ≠ crowd.propertyId), pktErrorSp - 41)] do
        let s ← closeCrowdsale s tx env crowd
        return (0, s))

/-- The checks the handlers on a managed property start with, up to the lookup
of the property. -/
def managedChecks (txType : TxType) :
    List (Bool × Int) :=
  [ (env.blockHash.isNone, pktErrorTokens - 20),
    (notAllowed s tx tx.property txType, pktErrorTokens - 22),
    (!isPropertyIdValid s tx.property, pktErrorTokens - 24) ]

/-- Is the sender not the issuer of the property? -/
def notIssuer (sp : SPEntry) : Bool := tx.sender != sp.getIssuer tx.block

/-- Record a grant or a revocation in the property's history. -/
def SPEntry.record (sp : SPEntry) (tx : CMPTransaction) (env : TxEnv) (entry : List Int) : SPEntry :=
  { sp with
    historicalData := sp.historicalData.insertNew tx.txid entry
    updateBlock := env.blockHash.getD 0 }

/-- Granting may count as a transfer to a crowdsale, until the feature that
disables this is live. -/
def grantEffects : Option State :=
  if isFeatureActivated s.params Feature.granteffects.id tx.block then some s
  else (crowdsaleParticipation s (tx.investment env)).map Prod.snd

/-- Tx 55 -/
def logicMathGrantTokens : Option (Int × State) :=
  reject s
    [ (env.blockHash.isNone, pktErrorSp - 20),
      (notAllowed s tx tx.property .grantPropertyTokens, pktErrorTokens - 22),
      (isOutOfRange tx.nValue, pktErrorTokens - 23),
      (!isPropertyIdValid s tx.property, pktErrorTokens - 24) ]
    do
      let sp ← getSP s tx.property
      reject s
        [ (!sp.manual, pktErrorTokens - 42),
          (notIssuer tx sp, pktErrorTokens - 43),
          (decide (toU64 (maxInt8Bytes - getTotalTokens s tx.property) < tx.nValue),
            pktErrorTokens - 44) ]
        do
          let s ← updateSP s tx.property (sp.record tx env [toI64 tx.nValue, 0])
          let s ← assertTally s tx.receiver tx.property (toI64 tx.nValue) .balance
          let s ← grantEffects s tx env
          let s ← notifyTotalTokensChanged s tx.property tx.block
          return (0, s)

/-- Tx 56 -/
def logicMathRevokeTokens : Option (Int × State) :=
  reject s
    [ (env.blockHash.isNone, pktErrorTokens - 20),
      (notAllowed s tx tx.property .revokePropertyTokens, pktErrorTokens - 22),
      (isOutOfRange tx.nValue, pktErrorTokens - 23),
      (!isPropertyIdValid s tx.property, pktErrorTokens - 24) ]
    do
      let sp ← getSP s tx.property
      reject s
        [ (!sp.manual, pktErrorTokens - 42),
          (insufficient s tx tx.nValue, pktErrorTokens - 25) ]
        do
          let s ← assertTally s tx.sender tx.property (-toI64 tx.nValue) .balance
          let s ← updateSP s tx.property (sp.record tx env [0, toI64 tx.nValue])
          let s ← notifyTotalTokensChanged s tx.property tx.block
          return (0, s)

/-- Tx 70 -/
def logicMathChangeIssuer : Option (Int × State) :=
  reject s (managedChecks s tx env .changeIssuerAddress) do
    let sp ← getSP s tx.property
    reject s
      [ (notIssuer tx sp, pktErrorTokens - 43),
        (s.crowds.contains tx.sender, pktErrorTokens - 39),
        (tx.receiver == "", pktErrorTokens - 45),
        (s.crowds.contains tx.receiver, pktErrorTokens - 46) ]
      do
        let s ← updateSP s tx.property
          { sp.updateIssuer tx.block tx.txIdx tx.receiver with
            issuer := tx.receiver
            updateBlock := env.blockHash.getD 0 }
        return (0, s)

/-! ### Freezing -/

/-- Is freezing enabled for the property, as of the block? -/
def isFreezingEnabled (block : Nat) : Bool :=
  s.freezingEnabled.entries.any fun e => (ofLex e.1).1 == p && decide ((ofLex e.1).2 ≤ block)

def enableFreezing (liveBlock : Nat) : State :=
  { s with freezingEnabled := s.freezingEnabled.insert (toLex (p, liveBlock)) () }

def freezeAddress (who : Address) (p : PropertyId) : State :=
  { s with frozen := s.frozen.insert (toLex (who, p)) () }

def unfreezeAddress (who : Address) (p : PropertyId) : State :=
  { s with frozen := s.frozen.erase (toLex (who, p)) }

/-- The loop that unfreezes all addresses for a property. After each one, the
source asserts that the *next* element of the set is not frozen; past the last
element the assertion reads an invalid iterator, and is taken to hold. -/
def unfreezeLoop (p : PropertyId) : List ((Address ×ₗ PropertyId) × Unit) → State → Option State
  | [], s => some s
  | (e, _) :: rest, s =>
    if (ofLex e).2 = p then
      let s := unfreezeAddress s (ofLex e).1 (ofLex e).2
      match rest with
      | [] => some s
      | (next, _) :: _ =>
        if isAddressFrozen s (ofLex next).1 (ofLex next).2 then none else unfreezeLoop p rest s
    else unfreezeLoop p rest s

/-- `disableFreezing`: the latest live block of the property is removed. -/
def disableFreezing : Option State := do
  let live := s.freezingEnabled.entries.filter fun e => (ofLex e.1).1 == p
  let liveBlock := (live.getLast?.map fun e => (ofLex e.1).2).getD 0
  if liveBlock = 0 then none
  else do
    let s := { s with freezingEnabled := s.freezingEnabled.erase (toLex (p, liveBlock)) }
    let s ← unfreezeLoop p s.frozen.entries s
    if isFreezingEnabled s p liveBlock then none else some s

/-- Tx 71 -/
def logicMathEnableFreezing : Option (Int × State) :=
  reject s (managedChecks s tx env .enableFreezing) do
    let sp ← getSP s tx.property
    reject s
      [ (!sp.manual, pktErrorTokens - 42),
        (notIssuer tx sp, pktErrorTokens - 43),
        (isFreezingEnabled s tx.property tx.block, pktErrorTokens - 49) ]
      (let liveBlock := if isFeatureActivated s.params Feature.freezenotice.id tx.block then
          s.params.tokenFreezeWaitPeriod + tx.block
        else tx.block
      some (0, enableFreezing s tx.property liveBlock))

/-- Tx 72 -/
def logicMathDisableFreezing : Option (Int × State) :=
  reject s (managedChecks s tx env .disableFreezing) do
    let sp ← getSP s tx.property
    reject s
      [ (!sp.manual, pktErrorTokens - 42),
        (notIssuer tx sp, pktErrorTokens - 43),
        (!isFreezingEnabled s tx.property tx.block, pktErrorTokens - 47) ]
      ((disableFreezing s tx.property).map fun s => (0, s))

/-- Tx 185 -/
def logicMathFreezeTokens : Option (Int × State) :=
  reject s (managedChecks s tx env .freezePropertyTokens) do
    let sp ← getSP s tx.property
    reject s
      [ (!sp.manual, pktErrorTokens - 42),
        (notIssuer tx sp, pktErrorTokens - 43),
        (!isFreezingEnabled s tx.property tx.block, pktErrorTokens - 47),
        (isAddressFrozen s tx.receiver tx.property, pktErrorTokens - 50) ]
      (some (0, freezeAddress s tx.receiver tx.property))

/-- Tx 186 -/
def logicMathUnfreezeTokens : Option (Int × State) :=
  reject s (managedChecks s tx env .unfreezePropertyTokens) do
    let sp ← getSP s tx.property
    reject s
      [ (!sp.manual, pktErrorTokens - 42),
        (notIssuer tx sp, pktErrorTokens - 43),
        (!isFreezingEnabled s tx.property tx.block, pktErrorTokens - 47),
        (!isAddressFrozen s tx.receiver tx.property, pktErrorTokens - 48) ]
      (some (0, unfreezeAddress s tx.receiver tx.property))

/-! ### Payments in RPD -/

/-- Take part in the receiver's crowdsale, which must be the linked one. -/
def payCrowdsale : Option (Int × State) :=
  match s.crowds.find? tx.receiver with
  | none => some (pktErrorTokens - 47, s)
  | some crowd =>
    reject s [(decide (findSPByTX s tx.linkedTxid ≠ crowd.propertyId), pktErrorTokens - 48)] do
      let (_, s) ← crowdsaleParticipation s (tx.investment env)
      return (0, s)

/-- Tx 80. The amount is what the transaction pays to the linked sender. -/
def logicMathRapidsPayment : Option (Int × State) :=
  reject s
    [ (env.blockHash.isNone, pktErrorTokens - 20),
      (notAllowed s tx tx.property .rapidsPayment, pktErrorTokens - 22) ]
    (match env.linked with
    | .notFound => some (mpTxNotFound, s)
    | .notToken => some (mpTxIsNotTokenProtocol, s)
    | .token valid type version sender =>
      let allowed := ((TxType.ofId type).map fun t => isRapidsPaymentAllowed t version).getD false
      let nValue := toU64 (env.paymentTo sender)
      reject s
        [ (!valid, mpTxIsNotTokenProtocol - 101),
          (!allowed, pktErrorTokens - 61),
          (nValue == 0, pktErrorTokens - 62) ]
        (if TxType.ofId type = some .createPropertyVariable then
          payCrowdsale s { tx with nValue := nValue } env
        else some (0, s)))

/-! ### Features and alerts -/

/-- The loop of `MetaDEx_SHUTDOWN_ALLPAIR`. It does not move past an order with
a reserved property on one side, so it ends only if there is none. -/
def shutdownAllpairLoop : List OrderRef → State → Option State
  | [], s => some s
  | r :: rest, s =>
    let o := r.order
    if propertyTMSC < o.desiredProperty ∧ propertyTMSC < o.property then do
      let s ← transferTally s o.property o.amountRemaining (o.addr, .metadexReserve) (o.addr, .balance)
      shutdownAllpairLoop rest (s.eraseOrder r.property r.price r.pos)
    else none

/-- Close the orders a deactivated feature made possible. -/
def closeOrders (featureId : Nat) : Option State :=
  if featureId = Feature.metadex.id then (metadexShutdown s).map Prod.snd
  else if featureId = Feature.tradeallpairs.id then
    shutdownAllpairLoop (MdPropertiesMap.orders s.metadex) s
  else some s

/-- Tx 65533 -/
def logicMathDeactivation : Option (Int × State) :=
  reject s
    [ (notAllowed s tx tx.property .deactivation, pktError - 22),
      (!checkDeactivationAuthorization s.cfg tx.sender, pktError - 51) ]
    (match deactivateFeature s tx.featureId tx.block with
    | (false, s) => some (pktError - 54, s)
    | (true, s) => (closeOrders s tx.featureId).map fun s => (0, s))

/-- Tx 65534 -/
def logicMathActivation : Option (Int × State) :=
  reject s
    [ (notAllowed s tx tx.property .activation, pktError - 22),
      (!checkActivationAuthorization s.cfg tx.sender, pktError - 51) ]
    (match activateFeature s tx.featureId tx.activationBlock tx.minClientVersion tx.block with
    | (false, s) => some (pktError - 54, s)
    | (true, s) => some (0, s))

/-- Tx 65535. A forced shutdown only stops the node later. -/
def logicMathAlert : Option (Int × State) :=
  reject s
    [ (notAllowed s tx tx.property .alert, pktError - 22),
      (!checkAlertAuthorization s.cfg tx.sender, pktError - 51) ]
    (some (0, if tx.alertType = 65535 then deleteAlerts s tx.sender
      else addAlert s tx.sender tx.alertType tx.alertExpiry tx.alertText))

/-! ### Interpreting -/

/-- The handler of a transaction type. -/
def logicMath : TxType → Option (Int × State)
  | .simpleSend => logicMathSimpleSend s tx env
  | .sendToMany => logicMathSendToMany s tx
  | .sendToOwners => logicMathSendToOwners s tx
  | .sendAll => logicMathSendAll s tx
  | .tradeOffer => logicMathTradeOffer s tx
  | .acceptOfferRPD => logicMathAcceptOfferRPD s tx
  | .metadexTrade => logicMathMetaDExTrade s tx
  | .metadexCancelPrice => logicMathMetaDExCancelPrice s tx
  | .metadexCancelPair => logicMathMetaDExCancelPair s tx
  | .metadexCancelEcosystem => logicMathMetaDExCancelEcosystem s tx
  | .createPropertyFixed => logicMathCreatePropertyFixed s tx env
  | .createPropertyVariable => logicMathCreatePropertyVariable s tx env
  | .createPropertyManual => logicMathCreatePropertyManaged s tx env
  | .closeCrowdsale => logicMathCloseCrowdsale s tx env
  | .grantPropertyTokens => logicMathGrantTokens s tx env
  | .revokePropertyTokens => logicMathRevokeTokens s tx env
  | .changeIssuerAddress => logicMathChangeIssuer s tx env
  | .rapidsPayment => logicMathRapidsPayment s tx env
  | .enableFreezing => logicMathEnableFreezing s tx env
  | .disableFreezing => logicMathDisableFreezing s tx env
  | .freezePropertyTokens => logicMathFreezeTokens s tx env
  | .unfreezePropertyTokens => logicMathUnfreezeTokens s tx env
  | .deactivation => logicMathDeactivation s tx
  | .activation => logicMathActivation s tx
  | .alert => logicMathAlert s tx
  | .offerAcceptABet => some (pktError - 100, s)

/-- `interpretPacket` -/
def interpretPacket : Option (Int × State) :=
  reject s
    [ (tx.rpcOnly, pktError - 1),
      (!tx.interpreted, pktError - 2),
      (isAddressFrozen s tx.sender tx.property, pktError - 3) ]
    (match TxType.ofId tx.type with
    | none => some (pktError - 100, s)
    | some txType => logicMath s tx env txType)

end Rapids.Token
