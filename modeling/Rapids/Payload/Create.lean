import Rapids.Payload.Wire

/-!
# Rapids.Payload.Create

**Payload creation** (`createpayload.cpp`): one encoder for each transaction
type. A payload is the version and the type of its message and then the
arguments, integers with their highest byte first and strings with a NUL behind
them. Strings are cut to 255 bytes before they are written, by each encoder for
itself, and by some encoders not all of them.

A **`Message`** is a call of an encoder with its arguments.
-/

namespace Rapids.Payload

def rpdPropertyId : UInt32 := 0

/-- What `if (s.size() > 255) s = s.substr(0,255)` leaves. -/
def cut (s : List UInt8) : List UInt8 := if s.length > 255 then s.take 255 else s

/-- A string and the NUL behind it. -/
def pushString (s : List UInt8) : List UInt8 := s ++ [0]

section
variable (isBigEndian : Bool)

/-- The start of every message. -/
def pushHead (messageVer messageType : UInt16) : List UInt8 :=
  push16 isBigEndian messageVer ++ push16 isBigEndian messageType

/-! ### Sends -/

variable (ecosystem : UInt8) (messageType : UInt16) (propertyId : UInt32) (amount : UInt64)

def createPayloadSimpleSend : List UInt8 :=
  pushHead isBigEndian 0 0 ++ push32 isBigEndian propertyId ++ push64 isBigEndian amount

/-- The outputs that are sent: the first 255. -/
def cutOutputs (outputValues : List (UInt8 × UInt64)) : List (UInt8 × UInt64) :=
  if outputValues.length > 255 then outputValues.take 255 else outputValues

def createPayloadSendToMany (outputValues : List (UInt8 × UInt64)) : List UInt8 :=
  pushHead isBigEndian 0 5 ++ push32 isBigEndian propertyId ++
    [UInt8.ofNat (cutOutputs outputValues).length] ++
    (cutOutputs outputValues).flatMap fun o => o.1 :: push64 isBigEndian o.2

def createPayloadRapidsPayment (linkedtxid : Uint256) : List UInt8 :=
  pushHead isBigEndian 0 80 ++ pushString linkedtxid.getHex

def createPayloadSendAll : List UInt8 := pushHead isBigEndian 0 4 ++ [ecosystem]

/-- Version 0 says that the tokens go to the holders of the same property. -/
def createPayloadSendToOwners (distributionProperty : UInt32) :
    List UInt8 :=
  if propertyId = distributionProperty then
    pushHead isBigEndian 0 3 ++ push32 isBigEndian propertyId ++ push64 isBigEndian amount
  else
    pushHead isBigEndian 1 3 ++ push32 isBigEndian propertyId ++ push64 isBigEndian amount ++
      push32 isBigEndian distributionProperty

/-! ### Trades -/

def createPayloadDExSell (amountForSale amountDesired : UInt64) (timeLimit : UInt8)
    (minFee : UInt64) (subAction : UInt8) : List UInt8 :=
  pushHead isBigEndian 1 20 ++ push32 isBigEndian propertyId ++ push64 isBigEndian amountForSale ++
    push64 isBigEndian amountDesired ++ [timeLimit] ++ push64 isBigEndian minFee ++ [subAction]

def createPayloadDExAccept : List UInt8 :=
  pushHead isBigEndian 0 22 ++ push32 isBigEndian propertyId ++ push64 isBigEndian amount

/-- A trade, or a message that names all four of its numbers. -/
def pushTrade (propertyIdForSale : UInt32) (amountForSale : UInt64)
    (propertyIdDesired : UInt32) (amountDesired : UInt64) : List UInt8 :=
  pushHead isBigEndian 0 messageType ++ push32 isBigEndian propertyIdForSale ++
    push64 isBigEndian amountForSale ++ push32 isBigEndian propertyIdDesired ++
    push64 isBigEndian amountDesired

def createPayloadMetaDExTrade : UInt32 → UInt64 → UInt32 → UInt64 → List UInt8 := pushTrade isBigEndian 25

def createPayloadMetaDExCancelPrice : UInt32 → UInt64 → UInt32 → UInt64 → List UInt8 :=
  pushTrade isBigEndian 26

def createPayloadMetaDExCancelPair (propertyIdForSale propertyIdDesired : UInt32) : List UInt8 :=
  pushHead isBigEndian 0 27 ++ push32 isBigEndian propertyIdForSale ++ push32 isBigEndian propertyIdDesired

def createPayloadMetaDExCancelEcosystem : List UInt8 :=
  pushHead isBigEndian 0 28 ++ [ecosystem]

/-! ### Issuance -/

/-- What the three issuances start with. -/
def pushIssuance (messageVer messageType : UInt16) (ecosystem : UInt8) (propertyType : UInt16)
    (previousPropertyId : UInt32) : List UInt8 :=
  pushHead isBigEndian messageVer messageType ++ [ecosystem] ++ push16 isBigEndian propertyType ++
    push32 isBigEndian previousPropertyId

variable (propertyType : UInt16) (previousPropertyId : UInt32)

def createPayloadIssuanceFixed
    (category subcategory name ticker url data : List UInt8) (amount : UInt64)
    (royaltiesReceiver : List UInt8) (royaltiesPercentage : UInt8) : List UInt8 :=
  pushIssuance isBigEndian 0 50 ecosystem propertyType previousPropertyId ++
    [cut category, cut subcategory, cut name, cut ticker, cut url, cut data,
      cut royaltiesReceiver].flatMap pushString ++
    (push64 isBigEndian amount ++ [royaltiesPercentage])

/-- The ticker is written as it is. -/
def createPayloadIssuanceVariable
    (category subcategory name ticker url data : List UInt8) (propertyIdDesired : UInt32)
    (amountPerUnit deadline : UInt64) (earlyBonus issuerPercentage : UInt8) : List UInt8 :=
  pushIssuance isBigEndian (if propertyIdDesired = rpdPropertyId then 2 else 0) 51 ecosystem propertyType
      previousPropertyId ++
    [cut category, cut subcategory, cut name, ticker, cut url, cut data].flatMap pushString ++
    (push32 isBigEndian propertyIdDesired ++ push64 isBigEndian amountPerUnit ++
      push64 isBigEndian deadline ++ [earlyBonus] ++ [issuerPercentage])

/-- The ticker is written as it is. -/
def createPayloadIssuanceManaged
    (category subcategory name ticker url data : List UInt8) : List UInt8 :=
  pushIssuance isBigEndian 0 54 ecosystem propertyType previousPropertyId ++
    [cut category, cut subcategory, cut name, ticker, cut url, cut data].flatMap pushString

/-! ### Management -/

/-- A message about a property. -/
def pushProperty : List UInt8 :=
  pushHead isBigEndian 0 messageType ++ push32 isBigEndian propertyId

def createPayloadCloseCrowdsale : UInt32 → List UInt8 := pushProperty isBigEndian 53

def createPayloadChangeIssuer : UInt32 → List UInt8 := pushProperty isBigEndian 70

def createPayloadEnableFreezing : UInt32 → List UInt8 := pushProperty isBigEndian 71

def createPayloadDisableFreezing : UInt32 → List UInt8 := pushProperty isBigEndian 72

/-- A message about an amount, with a memo. -/
def pushMemo (memo : List UInt8) :
    List UInt8 :=
  pushHead isBigEndian 0 messageType ++ push32 isBigEndian propertyId ++ push64 isBigEndian amount ++
    pushString (cut memo)

def createPayloadGrant : UInt32 → UInt64 → List UInt8 → List UInt8 := pushMemo isBigEndian 55

def createPayloadRevoke : UInt32 → UInt64 → List UInt8 → List UInt8 := pushMemo isBigEndian 56

/-- A message about an amount of an address. -/
def pushAddress (address : List UInt8) :
    List UInt8 :=
  pushHead isBigEndian 0 messageType ++ push32 isBigEndian propertyId ++ push64 isBigEndian amount ++
    addressToBytes address

def createPayloadFreezeTokens : UInt32 → UInt64 → List UInt8 → List UInt8 := pushAddress isBigEndian 185

def createPayloadUnfreezeTokens : UInt32 → UInt64 → List UInt8 → List UInt8 := pushAddress isBigEndian 186

/-! ### Features and alerts -/

def createPayloadDeactivateFeature (featureId : UInt16) : List UInt8 :=
  pushHead isBigEndian 65535 65533 ++ push16 isBigEndian featureId

def createPayloadActivateFeature (featureId : UInt16) (activationBlock minClientVersion : UInt32) :
    List UInt8 :=
  pushHead isBigEndian 65535 65534 ++ push16 isBigEndian featureId ++ push32 isBigEndian activationBlock ++
    push32 isBigEndian minClientVersion

/-- The message is written as it is. -/
def createPayloadTokenCoreAlert (alertType : UInt16) (expiryValue : UInt32) (alertMessage : List UInt8) :
    List UInt8 :=
  pushHead isBigEndian 65535 65535 ++ push16 isBigEndian alertType ++ push32 isBigEndian expiryValue ++
    pushString alertMessage

end

/-! ### Messages -/

/-- A call of an encoder. -/
inductive Message
  | simpleSend (propertyId : UInt32) (amount : UInt64)
  | sendToMany (propertyId : UInt32) (outputValues : List (UInt8 × UInt64))
  | rapidsPayment (linkedtxid : Uint256)
  | sendAll (ecosystem : UInt8)
  | sendToOwners (propertyId : UInt32) (amount : UInt64) (distributionProperty : UInt32)
  | dExSell (propertyId : UInt32) (amountForSale amountDesired : UInt64) (timeLimit : UInt8)
      (minFee : UInt64) (subAction : UInt8)
  | dExAccept (propertyId : UInt32) (amount : UInt64)
  | metaDExTrade (propertyIdForSale : UInt32) (amountForSale : UInt64) (propertyIdDesired : UInt32)
      (amountDesired : UInt64)
  | metaDExCancelPrice (propertyIdForSale : UInt32) (amountForSale : UInt64) (propertyIdDesired : UInt32)
      (amountDesired : UInt64)
  | metaDExCancelPair (propertyIdForSale propertyIdDesired : UInt32)
  | metaDExCancelEcosystem (ecosystem : UInt8)
  | issuanceFixed (ecosystem : UInt8) (propertyType : UInt16) (previousPropertyId : UInt32)
      (category subcategory name ticker url data : List UInt8) (amount : UInt64)
      (royaltiesReceiver : List UInt8) (royaltiesPercentage : UInt8)
  | issuanceVariable (ecosystem : UInt8) (propertyType : UInt16) (previousPropertyId : UInt32)
      (category subcategory name ticker url data : List UInt8) (propertyIdDesired : UInt32)
      (amountPerUnit deadline : UInt64) (earlyBonus issuerPercentage : UInt8)
  | issuanceManaged (ecosystem : UInt8) (propertyType : UInt16) (previousPropertyId : UInt32)
      (category subcategory name ticker url data : List UInt8)
  | closeCrowdsale (propertyId : UInt32)
  | grant (propertyId : UInt32) (amount : UInt64) (memo : List UInt8)
  | revoke (propertyId : UInt32) (amount : UInt64) (memo : List UInt8)
  | changeIssuer (propertyId : UInt32)
  | enableFreezing (propertyId : UInt32)
  | disableFreezing (propertyId : UInt32)
  | freezeTokens (propertyId : UInt32) (amount : UInt64) (address : List UInt8)
  | unfreezeTokens (propertyId : UInt32) (amount : UInt64) (address : List UInt8)
  | deactivateFeature (featureId : UInt16)
  | activateFeature (featureId : UInt16) (activationBlock minClientVersion : UInt32)
  | tokenCoreAlert (alertType : UInt16) (expiryValue : UInt32) (alertMessage : List UInt8)
  deriving DecidableEq

/-- The payload that the encoder makes. -/
def createPayload (isBigEndian : Bool) : Message → List UInt8
  | .simpleSend p a => createPayloadSimpleSend isBigEndian p a
  | .sendToMany p os => createPayloadSendToMany isBigEndian p os
  | .rapidsPayment h => createPayloadRapidsPayment isBigEndian h
  | .sendAll e => createPayloadSendAll isBigEndian e
  | .sendToOwners p a d => createPayloadSendToOwners isBigEndian p a d
  | .dExSell p a d t f s => createPayloadDExSell isBigEndian p a d t f s
  | .dExAccept p a => createPayloadDExAccept isBigEndian p a
  | .metaDExTrade p a q d => createPayloadMetaDExTrade isBigEndian p a q d
  | .metaDExCancelPrice p a q d => createPayloadMetaDExCancelPrice isBigEndian p a q d
  | .metaDExCancelPair p q => createPayloadMetaDExCancelPair isBigEndian p q
  | .metaDExCancelEcosystem e => createPayloadMetaDExCancelEcosystem isBigEndian e
  | .issuanceFixed e t p c s n k u d a r y => createPayloadIssuanceFixed isBigEndian e t p c s n k u d a r y
  | .issuanceVariable e t p c s n k u d q a l b i =>
    createPayloadIssuanceVariable isBigEndian e t p c s n k u d q a l b i
  | .issuanceManaged e t p c s n k u d => createPayloadIssuanceManaged isBigEndian e t p c s n k u d
  | .closeCrowdsale p => createPayloadCloseCrowdsale isBigEndian p
  | .grant p a m => createPayloadGrant isBigEndian p a m
  | .revoke p a m => createPayloadRevoke isBigEndian p a m
  | .changeIssuer p => createPayloadChangeIssuer isBigEndian p
  | .enableFreezing p => createPayloadEnableFreezing isBigEndian p
  | .disableFreezing p => createPayloadDisableFreezing isBigEndian p
  | .freezeTokens p a s => createPayloadFreezeTokens isBigEndian p a s
  | .unfreezeTokens p a s => createPayloadUnfreezeTokens isBigEndian p a s
  | .deactivateFeature f => createPayloadDeactivateFeature isBigEndian f
  | .activateFeature f b v => createPayloadActivateFeature isBigEndian f b v
  | .tokenCoreAlert t x s => createPayloadTokenCoreAlert isBigEndian t x s

/-- The string arguments of a message. -/
def Message.strings : Message → List (List UInt8)
  | .issuanceFixed _ _ _ c s n k u d _ r _ => [c, s, n, k, u, d, r]
  | .issuanceVariable _ _ _ c s n k u d _ _ _ _ _ => [c, s, n, k, u, d]
  | .issuanceManaged _ _ _ c s n k u d => [c, s, n, k, u, d]
  | .grant _ _ m => [m]
  | .revoke _ _ m => [m]
  | .freezeTokens _ _ s => [s]
  | .unfreezeTokens _ _ s => [s]
  | .tokenCoreAlert _ _ s => [s]
  | _ => []

/-- No string argument holds a NUL. -/
def Message.NulFree (m : Message) : Prop := ∀ s ∈ m.strings, ∀ c ∈ s, c ≠ 0

instance (m : Message) : Decidable m.NulFree := inferInstanceAs (Decidable (∀ s ∈ m.strings, _))

end Rapids.Payload
