import Rapids.Payload.Wire

/-!
# Rapids.Payload.Interpret

**Packet parsing** (`tx.h`, `tx.cpp`): one decoder for each transaction type,
and `interpretTransaction`, which reads the type and runs its decoder. A
decoder has no result where the source returns false.

The packet is a buffer of fixed size, cleared before a payload is copied into
it. Integers are copied out of it at fixed positions; strings are read up to
their NUL, wherever that is, and only afterwards is it checked that the reading
ended within the payload. **`Memory`** stands for what a run finds beyond the
ends of buffers: behind the packet, behind a string that is copied with more
than its length, and in the arrays that are never cleared. All results hold
for any such memory.

Transaction data that the decoders do not touch (the hash, block and fee) is
left out.
-/

namespace Rapids.Payload

def maxPackets : Nat := 255
def packetSize : Nat := 31
def spStringFieldLen : Nat := 256

/-- `sizeof (pkt)` -/
def sizeofPkt : Nat := 1 + maxPackets * packetSize

/-- What is found outside the buffers. -/
structure Memory where
  afterPkt : List UInt8
  afterString : List UInt8 → List UInt8

/-- A transaction, as far as the decoders know it (`CMPTransaction`). Character
arrays are lists of their bytes. -/
structure CMPTransaction where
  pktSize : Nat
  pkt : List UInt8
  sender : List UInt8
  receiver : List UInt8
  type : UInt32
  version : UInt16
  nValue : UInt64
  nNewValue : UInt64
  property : UInt32
  distributionProperty : UInt32
  ecosystem : UInt8
  propType : UInt16
  prevPropId : UInt32
  category : List UInt8
  subcategory : List UInt8
  name : List UInt8
  ticker : List UInt8
  url : List UInt8
  data : List UInt8
  royaltiesReceiver : List UInt8
  royaltiesPercentage : UInt8
  deadline : UInt64
  earlyBird : UInt8
  percentage : UInt8
  desiredProperty : UInt32
  desiredValue : UInt64
  action : UInt8
  amountDesired : UInt64
  blocktimelimit : UInt8
  minFee : UInt64
  subaction : UInt8
  numberOfSTMReceivers : UInt8
  outputValuesForSTM : List (UInt8 × UInt64)
  alertType : UInt16
  alertExpiry : UInt32
  alertText : List UInt8
  featureId : UInt16
  activationBlock : UInt32
  minClientVersion : UInt32
  linkedTxid : Uint256

namespace CMPTransaction

/-- Resets and clears all values, but for `ticker` and the royalties. -/
def setNull (tx : CMPTransaction) : CMPTransaction :=
  { tx with
    pktSize := 0
    pkt := List.replicate sizeofPkt 0
    sender := []
    receiver := []
    type := 0
    version := 0
    nValue := 0
    nNewValue := 0
    property := 0
    ecosystem := 0
    propType := 0
    prevPropId := 0
    category := List.replicate spStringFieldLen 0
    subcategory := List.replicate spStringFieldLen 0
    name := List.replicate spStringFieldLen 0
    url := List.replicate spStringFieldLen 0
    data := List.replicate spStringFieldLen 0
    deadline := 0
    earlyBird := 0
    percentage := 0
    desiredProperty := 0
    desiredValue := 0
    action := 0
    amountDesired := 0
    blocktimelimit := 0
    minFee := 0
    subaction := 0
    alertType := 0
    alertExpiry := 0
    alertText := List.replicate spStringFieldLen 0
    featureId := 0
    activationBlock := 0
    minClientVersion := 0
    distributionProperty := 0
    numberOfSTMReceivers := 0
    outputValuesForSTM := [] }

/-- Sets the given values. -/
def set (tx : CMPTransaction) (s r : List UInt8) (n : UInt64) (p : List UInt8) : CMPTransaction :=
  let pktSize := if p.length < sizeofPkt then p.length else sizeofPkt
  { tx with
    sender := s
    receiver := r
    pktSize := pktSize
    nValue := n
    nNewValue := n
    pkt := p.take pktSize ++ tx.pkt.drop pktSize }

/-- Checks whether a pointer to the payload is past its last position. -/
def isOverrun (tx : CMPTransaction) (p : Nat) : Bool := decide (tx.pktSize < p)

/-- The receiver, or the sender where none was found. -/
def receiverOrSelf (tx : CMPTransaction) : List UInt8 := if tx.receiver = [] then tx.sender else tx.receiver

section
variable (isBigEndian : Bool) (tx : CMPTransaction)

/-- Version and type. -/
def interpretTransactionType : Option CMPTransaction :=
  if tx.pktSize < 4 then none
  else some { tx with
    version := read16 isBigEndian tx.pkt 0
    type := (read16 isBigEndian tx.pkt 2).toUInt32 }

/-! ### Sends -/

/-- A property and a value. -/
def readValue : CMPTransaction :=
  { tx with
    property := read32 isBigEndian tx.pkt 4
    nValue := read64 isBigEndian tx.pkt 8
    nNewValue := read64 isBigEndian tx.pkt 8 }

/-- Tx 0 -/
def interpretSimpleSend : Option CMPTransaction :=
  if tx.pktSize < 16 then none
  else some { readValue isBigEndian tx with receiver := tx.receiverOrSelf }

/-- Tx 3 -/
def interpretSendToOwners : Option CMPTransaction :=
  let expectedSize := if tx.version = 0 then 16 else 20
  if tx.pktSize < expectedSize then none
  else
    let tx := readValue isBigEndian tx
    if 0 < tx.version then some { tx with distributionProperty := read32 isBigEndian tx.pkt 16 }
    else some tx

/-- Tx 4 -/
def interpretSendAll : Option CMPTransaction :=
  if tx.pktSize < 5 then none
  else some { tx with
    ecosystem := read8 tx.pkt 4
    property := (read8 tx.pkt 4).toUInt32
    receiver := tx.receiverOrSelf }

/-- The loop over the receivers. -/
def readOutputs : Nat → Nat → CMPTransaction → CMPTransaction
  | 0, _, tx => tx
  | n + 1, pos, tx =>
    readOutputs n (pos + 9)
      { tx with
        outputValuesForSTM :=
          tx.outputValuesForSTM ++ [(read8 tx.pkt pos, read64 isBigEndian tx.pkt (pos + 1))]
        nValue := tx.nValue + read64 isBigEndian tx.pkt (pos + 1) }

/-- Tx 5 -/
def interpretSendToMany : Option CMPTransaction :=
  -- minimum case without any recipients, still needs propertyid
  if tx.pktSize < 9 then none
  else
    let tx : CMPTransaction := { tx with
      property := read32 isBigEndian tx.pkt 4
      numberOfSTMReceivers := read8 tx.pkt 8 }
    -- check total size for all receivers
    if tx.pktSize < 9 + tx.numberOfSTMReceivers.toNat * (1 + 8) then none
    else
      let tx := readOutputs isBigEndian tx.numberOfSTMReceivers.toNat 9 tx
      some { tx with nNewValue := tx.nValue }

/-! ### Trades -/

/-- Tx 20 -/
def interpretTradeOffer : Option CMPTransaction :=
  let expectedSize := if tx.version = 0 then 33 else 34
  if tx.pktSize < expectedSize then none
  else
    let tx : CMPTransaction := { readValue isBigEndian tx with
      amountDesired := read64 isBigEndian tx.pkt 16
      blocktimelimit := read8 tx.pkt 24
      minFee := read64 isBigEndian tx.pkt 25 }
    if 0 < tx.version then some { tx with subaction := read8 tx.pkt 33 } else some tx

/-- Tx 22 -/
def interpretAcceptOfferRPD : Option CMPTransaction :=
  if tx.pktSize < 16 then none else some (readValue isBigEndian tx)

/-- The four numbers of a trade. -/
def readTrade (action : UInt8) : Option CMPTransaction :=
  if tx.pktSize < 28 then none
  else some { readValue isBigEndian tx with
    desiredProperty := read32 isBigEndian tx.pkt 16
    desiredValue := read64 isBigEndian tx.pkt 20
    action := action }

/-- Tx 25 -/
def interpretMetaDExTrade : Option CMPTransaction := readTrade isBigEndian tx 1

/-- Tx 26 -/
def interpretMetaDExCancelPrice : Option CMPTransaction := readTrade isBigEndian tx 2

/-- Tx 27 -/
def interpretMetaDExCancelPair : Option CMPTransaction :=
  if tx.pktSize < 12 then none
  else some { tx with
    property := read32 isBigEndian tx.pkt 4
    desiredProperty := read32 isBigEndian tx.pkt 8
    nValue := 0
    nNewValue := 0
    desiredValue := 0
    action := 3 }

/-- Tx 28 -/
def interpretMetaDExCancelEcosystem : Option CMPTransaction :=
  if tx.pktSize < 5 then none
  else some { tx with
    ecosystem := read8 tx.pkt 4
    property := (read8 tx.pkt 4).toUInt32
    desiredProperty := (read8 tx.pkt 4).toUInt32
    nValue := 0
    nNewValue := 0
    desiredValue := 0
    action := 4 }

/-! ### Management -/

/-- A property. -/
def readProperty : Option CMPTransaction :=
  if tx.pktSize < 8 then none else some { tx with property := read32 isBigEndian tx.pkt 4 }

/-- Tx 53 -/
def interpretCloseCrowdsale : Option CMPTransaction := readProperty isBigEndian tx

/-- Tx 55 -/
def interpretGrantTokens : Option CMPTransaction :=
  if tx.pktSize < 16 then none
  else some { readValue isBigEndian tx with receiver := tx.receiverOrSelf }

/-- Tx 56 -/
def interpretRevokeTokens : Option CMPTransaction :=
  if tx.pktSize < 16 then none else some (readValue isBigEndian tx)

/-- Tx 70 -/
def interpretChangeIssuer : Option CMPTransaction := readProperty isBigEndian tx

/-- Tx 71 -/
def interpretEnableFreezing : Option CMPTransaction := readProperty isBigEndian tx

/-- Tx 72 -/
def interpretDisableFreezing : Option CMPTransaction := readProperty isBigEndian tx

/-- A value and the address whose version and hash are in the payload. An
assertion that fails is counted as no result. -/
def readAddress (P : AddressParams) : Option CMPTransaction :=
  if tx.pktSize < 37 then none
  else
    match hashToAddress P (read8 tx.pkt 16) (bytesAt tx.pkt 17 20) with
    | none => none
    | some receiver =>
      if receiver = [] then none
      else if isValidDestination (decodeDestination P receiver).1 = false then none
      else some { readValue isBigEndian tx with receiver := receiver }

/-- Tx 185 -/
def interpretFreezeTokens : AddressParams → Option CMPTransaction := readAddress isBigEndian tx

/-- Tx 186 -/
def interpretUnfreezeTokens : AddressParams → Option CMPTransaction := readAddress isBigEndian tx

/-- Tx 65533 -/
def interpretDeactivation : Option CMPTransaction :=
  if tx.pktSize < 6 then none else some { tx with featureId := read16 isBigEndian tx.pkt 4 }

/-- Tx 65534 -/
def interpretActivation : Option CMPTransaction :=
  if tx.pktSize < 14 then none
  else some { tx with
    featureId := read16 isBigEndian tx.pkt 4
    activationBlock := read32 isBigEndian tx.pkt 6
    minClientVersion := read32 isBigEndian tx.pkt 10 }

/-! ### Strings -/

variable (M : Memory)

/-- What is in memory from the start of the packet. -/
def memory : List UInt8 := tx.pkt ++ M.afterPkt

/-- `std::string(p)` -/
def stringAt (p : Nat) : List UInt8 := ((tx.memory M).drop p).takeWhile (· ≠ 0)

/-- The strings from a position, and the position behind them. -/
def readStrings : Nat → Nat → List (List UInt8) × Nat
  | 0, p => ([], p)
  | n + 1, p =>
    let rest := readStrings n (p + (stringAt tx M p).length + 1)
    (stringAt tx M p :: rest.1, rest.2)

/-- What an array holds after `memcpy(field, s.c_str(), SP_STRING_FIELD_LEN)`. -/
def copyString (s : List UInt8) : List UInt8 := (s ++ 0 :: M.afterString s).take spStringFieldLen

/-- What the three issuances start with. -/
def readIssuance (spstr : List (List UInt8)) : CMPTransaction :=
  { tx with
    ecosystem := read8 tx.pkt 4
    propType := read16 isBigEndian tx.pkt 5
    prevPropId := read32 isBigEndian tx.pkt 7
    category := copyString M (spstr.getD 0 [])
    subcategory := copyString M (spstr.getD 1 [])
    name := copyString M (spstr.getD 2 [])
    ticker := copyString M (spstr.getD 3 [])
    url := copyString M (spstr.getD 4 [])
    data := copyString M (spstr.getD 5 []) }

/-- Tx 50 -/
def interpretCreatePropertyFixed : Option CMPTransaction :=
  if tx.pktSize < 25 then none
  else
    let spstr := (readStrings tx M 7 11).1
    let p := (readStrings tx M 7 11).2
    if tx.isOverrun (p + 9) = true then none
    else some { readIssuance isBigEndian tx M spstr with
      royaltiesReceiver := copyString M (spstr.getD 6 [])
      nValue := read64 isBigEndian (tx.memory M) p
      nNewValue := read64 isBigEndian (tx.memory M) p
      royaltiesPercentage := read8 (tx.memory M) (p + 8) }

/-- Tx 51 -/
def interpretCreatePropertyVariable : Option CMPTransaction :=
  if tx.pktSize < 39 then none
  else
    let spstr := (readStrings tx M 6 11).1
    let p := (readStrings tx M 6 11).2
    if tx.isOverrun (p + 22) = true then none
    else some { readIssuance isBigEndian tx M spstr with
      property := read32 isBigEndian (tx.memory M) p
      nValue := read64 isBigEndian (tx.memory M) (p + 4)
      nNewValue := read64 isBigEndian (tx.memory M) (p + 4)
      deadline := read64 isBigEndian (tx.memory M) (p + 12)
      earlyBird := read8 (tx.memory M) (p + 20)
      percentage := read8 (tx.memory M) (p + 21) }

/-- Tx 54 -/
def interpretCreatePropertyManaged : Option CMPTransaction :=
  if tx.pktSize < 17 then none
  else
    let spstr := (readStrings tx M 6 11).1
    let p := (readStrings tx M 6 11).2
    if tx.isOverrun p = true then none else some (readIssuance isBigEndian tx M spstr)

/-- Tx 80 -/
def interpretRapidsPayment : Option CMPTransaction :=
  if tx.pktSize < 36 then none
  else
    match parseHashV (stringAt tx M 4) with
    | none => none
    | some hash => some { tx with linkedTxid := hash }

/-- Tx 65535. The pointer that is checked at the end has not moved. -/
def interpretAlert : Option CMPTransaction :=
  if tx.pktSize < 11 then none
  else
    let spstr := stringAt tx M 10
    let copied := min spstr.length (spStringFieldLen - 1)
    if tx.isOverrun 10 = true then none
    else some { tx with
      alertType := read16 isBigEndian tx.pkt 4
      alertExpiry := read32 isBigEndian tx.pkt 6
      alertText := spstr.take copied ++ tx.alertText.drop copied }

/-! ### All types -/

/-- The decoder of a type. -/
def interpretAs (P : AddressParams) : Nat → Option CMPTransaction
  | 0 => interpretSimpleSend isBigEndian tx
  | 5 => interpretSendToMany isBigEndian tx
  | 3 => interpretSendToOwners isBigEndian tx
  | 4 => interpretSendAll tx
  | 20 => interpretTradeOffer isBigEndian tx
  | 22 => interpretAcceptOfferRPD isBigEndian tx
  | 25 => interpretMetaDExTrade isBigEndian tx
  | 26 => interpretMetaDExCancelPrice isBigEndian tx
  | 27 => interpretMetaDExCancelPair isBigEndian tx
  | 28 => interpretMetaDExCancelEcosystem tx
  | 50 => interpretCreatePropertyFixed isBigEndian tx M
  | 51 => interpretCreatePropertyVariable isBigEndian tx M
  | 54 => interpretCreatePropertyManaged isBigEndian tx M
  | 53 => interpretCloseCrowdsale isBigEndian tx
  | 55 => interpretGrantTokens isBigEndian tx
  | 56 => interpretRevokeTokens isBigEndian tx
  | 70 => interpretChangeIssuer isBigEndian tx
  | 71 => interpretEnableFreezing isBigEndian tx
  | 72 => interpretDisableFreezing isBigEndian tx
  | 185 => interpretFreezeTokens isBigEndian tx P
  | 186 => interpretUnfreezeTokens isBigEndian tx P
  | 65533 => interpretDeactivation isBigEndian tx
  | 80 => interpretRapidsPayment tx M
  | 65534 => interpretActivation isBigEndian tx
  | 65535 => interpretAlert isBigEndian tx M
  | _ => none

/-- Parses the packet or payload. -/
def interpretTransaction (P : AddressParams) : Option CMPTransaction :=
  match interpretTransactionType isBigEndian tx with
  | none => none
  | some tx => interpretAs isBigEndian tx M P tx.type.toNat

end

/-- The string that an array holds, if there is a NUL in it. -/
def cString (field : List UInt8) : Option (List UInt8) :=
  if 0 ∈ field then some (field.takeWhile (· ≠ 0)) else none

end CMPTransaction

end Rapids.Payload
