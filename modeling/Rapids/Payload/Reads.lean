import Rapids.Lib.Traced
import Rapids.Payload.Interpret

/-!
# Rapids.Payload.Reads

**What the decoders read** (`tx.cpp`). The decoders of `Interpret` once more, in a
computation that logs each access to the packet: a copy of some bytes, or a string, which
takes in the NUL at its end as well. Reading is the only way to get at bytes. A decoder
either returns false or throws (`Exit`); an assertion that fails counts as throwing.

The results are those of `Interpret` (`toOption_interpretTransaction`).
-/

namespace Rapids.Payload

open Rapids.Lib

/-- Bytes that are read: those of a value, and those behind it by which its end is found. -/
structure Access where
  first : Nat
  count : Nat
  mark : Nat
  deriving DecidableEq, Repr

/-- Where the value ends. -/
def Access.valueEnd (a : Access) : Nat := a.first + a.count

/-- Where reading ends. -/
def Access.stop (a : Access) : Nat := a.first + a.count + a.mark

/-- How a decoder ends without a transaction. -/
inductive Exit
  | returnedFalse
  | threw
  deriving DecidableEq, Repr

abbrev Reading : Type → Type := Traced Access Exit

/-! ### Reading -/

section
variable (isBigEndian : Bool) (m : List UInt8) (pos : Nat)

def fetch8 : Reading UInt8 := .record ⟨pos, 1, 0⟩ (read8 m pos)

def fetch16 : Reading UInt16 := .record ⟨pos, 2, 0⟩ (read16 isBigEndian m pos)

def fetch32 : Reading UInt32 := .record ⟨pos, 4, 0⟩ (read32 isBigEndian m pos)

def fetch64 : Reading UInt64 := .record ⟨pos, 8, 0⟩ (read64 isBigEndian m pos)

def fetchBytes (n : Nat) : Reading (List UInt8) := .record ⟨pos, n, 0⟩ (bytesAt m pos n)

end

/-- Bail out if the payload is too short. -/
def requiring (tx : CMPTransaction) (size : Nat) (go : Reading CMPTransaction) : Reading CMPTransaction :=
  if tx.pktSize < size then .fail .returnedFalse else go

namespace Reads

open CMPTransaction

section
variable (isBigEndian : Bool) (tx : CMPTransaction)

/-- Version and type. -/
def interpretTransactionType : Reading CMPTransaction :=
  requiring tx 4 do
    let txVersion ← fetch16 isBigEndian tx.pkt 0
    let txType ← fetch16 isBigEndian tx.pkt 2
    return { tx with version := txVersion, type := txType.toUInt32 }

/-! ### Sends -/

/-- A property and a value. -/
def value : Reading CMPTransaction := do
  let property ← fetch32 isBigEndian tx.pkt 4
  let nValue ← fetch64 isBigEndian tx.pkt 8
  return { tx with property := property, nValue := nValue, nNewValue := nValue }

/-- A property and a value, and the receiver or else the sender. -/
def valueForReceiver : Reading CMPTransaction :=
  requiring tx 16 do
    let tx ← value isBigEndian tx
    return { tx with receiver := tx.receiverOrSelf }

/-- Tx 0 -/
def interpretSimpleSend : Reading CMPTransaction := valueForReceiver isBigEndian tx

/-- Tx 3 -/
def interpretSendToOwners : Reading CMPTransaction :=
  requiring tx (if tx.version = 0 then 16 else 20) do
    let tx ← value isBigEndian tx
    if 0 < tx.version then do
      let distributionProperty ← fetch32 isBigEndian tx.pkt 16
      return { tx with distributionProperty := distributionProperty }
    else return tx

/-- Tx 4 -/
def interpretSendAll : Reading CMPTransaction :=
  requiring tx 5 do
    let ecosystem ← fetch8 tx.pkt 4
    return { tx with
      ecosystem := ecosystem
      property := ecosystem.toUInt32
      receiver := tx.receiverOrSelf }

/-- The loop over the receivers. -/
def outputs : Nat → Nat → CMPTransaction → Reading CMPTransaction
  | 0, _, tx => return tx
  | n + 1, pos, tx => do
    let outputN ← fetch8 tx.pkt pos
    let valueN ← fetch64 isBigEndian tx.pkt (pos + 1)
    outputs n (pos + 9) { tx with
      outputValuesForSTM := tx.outputValuesForSTM ++ [(outputN, valueN)]
      nValue := tx.nValue + valueN }

/-- Tx 5 -/
def interpretSendToMany : Reading CMPTransaction :=
  requiring tx 9 do
    let property ← fetch32 isBigEndian tx.pkt 4
    let numberOfSTMReceivers ← fetch8 tx.pkt 8
    requiring tx (9 + numberOfSTMReceivers.toNat * (1 + 8)) do
      let tx ← outputs isBigEndian numberOfSTMReceivers.toNat 9
        { tx with property := property, numberOfSTMReceivers := numberOfSTMReceivers }
      return { tx with nNewValue := tx.nValue }

/-! ### Trades -/

/-- Tx 20 -/
def interpretTradeOffer : Reading CMPTransaction :=
  requiring tx (if tx.version = 0 then 33 else 34) do
    let tx ← value isBigEndian tx
    let amountDesired ← fetch64 isBigEndian tx.pkt 16
    let blocktimelimit ← fetch8 tx.pkt 24
    let minFee ← fetch64 isBigEndian tx.pkt 25
    let tx : CMPTransaction :=
      { tx with amountDesired := amountDesired, blocktimelimit := blocktimelimit, minFee := minFee }
    if 0 < tx.version then do
      let subaction ← fetch8 tx.pkt 33
      return { tx with subaction := subaction }
    else return tx

/-- Tx 22 -/
def interpretAcceptOfferRPD : Reading CMPTransaction := requiring tx 16 (value isBigEndian tx)

/-- The four numbers of a trade. -/
def trade (action : UInt8) : Reading CMPTransaction :=
  requiring tx 28 do
    let tx ← value isBigEndian tx
    let desiredProperty ← fetch32 isBigEndian tx.pkt 16
    let desiredValue ← fetch64 isBigEndian tx.pkt 20
    return { tx with desiredProperty := desiredProperty, desiredValue := desiredValue, action := action }

/-- Tx 25 -/
def interpretMetaDExTrade : Reading CMPTransaction := trade isBigEndian tx 1

/-- Tx 26 -/
def interpretMetaDExCancelPrice : Reading CMPTransaction := trade isBigEndian tx 2

/-- Tx 27 -/
def interpretMetaDExCancelPair : Reading CMPTransaction :=
  requiring tx 12 do
    let property ← fetch32 isBigEndian tx.pkt 4
    let desiredProperty ← fetch32 isBigEndian tx.pkt 8
    return { tx with
      property := property
      desiredProperty := desiredProperty
      nValue := 0
      nNewValue := 0
      desiredValue := 0
      action := 3 }

/-- Tx 28 -/
def interpretMetaDExCancelEcosystem : Reading CMPTransaction :=
  requiring tx 5 do
    let ecosystem ← fetch8 tx.pkt 4
    return { tx with
      ecosystem := ecosystem
      property := ecosystem.toUInt32
      desiredProperty := ecosystem.toUInt32
      nValue := 0
      nNewValue := 0
      desiredValue := 0
      action := 4 }

/-! ### Management -/

/-- A property. -/
def property : Reading CMPTransaction :=
  requiring tx 8 do
    let property ← fetch32 isBigEndian tx.pkt 4
    return { tx with property := property }

/-- Tx 53 -/
def interpretCloseCrowdsale : Reading CMPTransaction := property isBigEndian tx

/-- Tx 55 -/
def interpretGrantTokens : Reading CMPTransaction := valueForReceiver isBigEndian tx

/-- Tx 56 -/
def interpretRevokeTokens : Reading CMPTransaction := requiring tx 16 (value isBigEndian tx)

/-- Tx 70 -/
def interpretChangeIssuer : Reading CMPTransaction := property isBigEndian tx

/-- Tx 71 -/
def interpretEnableFreezing : Reading CMPTransaction := property isBigEndian tx

/-- Tx 72 -/
def interpretDisableFreezing : Reading CMPTransaction := property isBigEndian tx

/-- A value, and the address whose version and hash are in the payload. -/
def address (P : AddressParams) : Reading CMPTransaction :=
  requiring tx 37 do
    let tx ← value isBigEndian tx
    let addressVersion ← fetch8 tx.pkt 16
    let addressHash160 ← fetchBytes tx.pkt 17 20
    -- the assertion that no carry is left; what is written here is read again without one
    let receiver ← Traced.attempt .threw (hashToAddress P addressVersion addressHash160)
    if receiver = [] then .fail .returnedFalse
    else if isValidDestination (decodeDestination P receiver).1 = false then .fail .returnedFalse
    else return { tx with receiver := receiver }

/-- Tx 185 -/
def interpretFreezeTokens : AddressParams → Reading CMPTransaction := address isBigEndian tx

/-- Tx 186 -/
def interpretUnfreezeTokens : AddressParams → Reading CMPTransaction := address isBigEndian tx

/-- Tx 65533 -/
def interpretDeactivation : Reading CMPTransaction :=
  requiring tx 6 do
    let featureId ← fetch16 isBigEndian tx.pkt 4
    return { tx with featureId := featureId }

/-- Tx 65534 -/
def interpretActivation : Reading CMPTransaction :=
  requiring tx 14 do
    let featureId ← fetch16 isBigEndian tx.pkt 4
    let activationBlock ← fetch32 isBigEndian tx.pkt 6
    let minClientVersion ← fetch32 isBigEndian tx.pkt 10
    return { tx with
      featureId := featureId
      activationBlock := activationBlock
      minClientVersion := minClientVersion }

/-! ### Strings -/

variable (M : Memory)

/-- `std::string(p)` -/
def string (p : Nat) : Reading (List UInt8) := .record ⟨p, (stringAt tx M p).length, 1⟩ (stringAt tx M p)

/-- The strings from a position, and the position behind them. -/
def strings : Nat → Nat → Reading (List (List UInt8) × Nat)
  | 0, p => return ([], p)
  | n + 1, p => do
    let s ← string tx M p
    let rest ← strings n (p + s.length + 1)
    return (s :: rest.1, rest.2)

/-- What the three issuances start with: the transaction, the strings and the position. -/
def issuance (n : Nat) : Reading (CMPTransaction × List (List UInt8) × Nat) := do
  let ecosystem ← fetch8 tx.pkt 4
  let propType ← fetch16 isBigEndian tx.pkt 5
  let prevPropId ← fetch32 isBigEndian tx.pkt 7
  let read ← strings tx M n 11
  return ({ tx with
    ecosystem := ecosystem
    propType := propType
    prevPropId := prevPropId
    category := copyString M (read.1.getD 0 [])
    subcategory := copyString M (read.1.getD 1 [])
    name := copyString M (read.1.getD 2 [])
    ticker := copyString M (read.1.getD 3 [])
    url := copyString M (read.1.getD 4 [])
    data := copyString M (read.1.getD 5 []) }, read)

/-- The check at the end. -/
def unlessOverrun (p : Nat) (go : CMPTransaction) : Reading CMPTransaction :=
  if tx.isOverrun p = true then .fail .returnedFalse else return go

/-- Tx 50 -/
def interpretCreatePropertyFixed : Reading CMPTransaction :=
  requiring tx 25 do
    let read ← issuance isBigEndian tx M 7
    let p := read.2.2
    let nValue ← fetch64 isBigEndian (tx.memory M) p
    let royaltiesPercentage ← fetch8 (tx.memory M) (p + 8)
    unlessOverrun tx (p + 9) { read.1 with
      royaltiesReceiver := copyString M (read.2.1.getD 6 [])
      nValue := nValue
      nNewValue := nValue
      royaltiesPercentage := royaltiesPercentage }

/-- Tx 51 -/
def interpretCreatePropertyVariable : Reading CMPTransaction :=
  requiring tx 39 do
    let read ← issuance isBigEndian tx M 6
    let p := read.2.2
    let property ← fetch32 isBigEndian (tx.memory M) p
    let nValue ← fetch64 isBigEndian (tx.memory M) (p + 4)
    let deadline ← fetch64 isBigEndian (tx.memory M) (p + 12)
    let earlyBird ← fetch8 (tx.memory M) (p + 20)
    let percentage ← fetch8 (tx.memory M) (p + 21)
    unlessOverrun tx (p + 22) { read.1 with
      property := property
      nValue := nValue
      nNewValue := nValue
      deadline := deadline
      earlyBird := earlyBird
      percentage := percentage }

/-- Tx 54 -/
def interpretCreatePropertyManaged : Reading CMPTransaction :=
  requiring tx 17 do
    let read ← issuance isBigEndian tx M 6
    unlessOverrun tx read.2.2 read.1

/-- Tx 80 -/
def interpretRapidsPayment : Reading CMPTransaction :=
  requiring tx 36 do
    let hash ← string tx M 4
    let linkedTxid ← Traced.attempt .threw (parseHashV hash)
    return { tx with linkedTxid := linkedTxid }

/-- Tx 65535. The pointer that is checked at the end has not moved. -/
def interpretAlert : Reading CMPTransaction :=
  requiring tx 11 do
    let alertType ← fetch16 isBigEndian tx.pkt 4
    let alertExpiry ← fetch32 isBigEndian tx.pkt 6
    let spstr ← string tx M 10
    let copied := min spstr.length (spStringFieldLen - 1)
    unlessOverrun tx 10 { tx with
      alertType := alertType
      alertExpiry := alertExpiry
      alertText := spstr.take copied ++ tx.alertText.drop copied }

/-! ### All types -/

/-- The decoder of a type. -/
def interpretAs (P : AddressParams) : Nat → Reading CMPTransaction
  | 0 => interpretSimpleSend isBigEndian tx
  | 5 => interpretSendToMany isBigEndian tx
  | 3 => interpretSendToOwners isBigEndian tx
  | 4 => interpretSendAll tx
  | 20 => interpretTradeOffer isBigEndian tx
  | 22 => interpretAcceptOfferRPD isBigEndian tx
  | 25 => interpretMetaDExTrade isBigEndian tx
  | 26 => interpretMetaDExCancelPrice isBigEndian tx
  | 27 => interpretMetaDExCancelPair isBigEndian tx
  | 28 => interpretMetaDExCancelEcosystem tx
  | 50 => interpretCreatePropertyFixed isBigEndian tx M
  | 51 => interpretCreatePropertyVariable isBigEndian tx M
  | 54 => interpretCreatePropertyManaged isBigEndian tx M
  | 53 => interpretCloseCrowdsale isBigEndian tx
  | 55 => interpretGrantTokens isBigEndian tx
  | 56 => interpretRevokeTokens isBigEndian tx
  | 70 => interpretChangeIssuer isBigEndian tx
  | 71 => interpretEnableFreezing isBigEndian tx
  | 72 => interpretDisableFreezing isBigEndian tx
  | 185 => interpretFreezeTokens isBigEndian tx P
  | 186 => interpretUnfreezeTokens isBigEndian tx P
  | 65533 => interpretDeactivation isBigEndian tx
  | 80 => interpretRapidsPayment tx M
  | 65534 => interpretActivation isBigEndian tx
  | 65535 => interpretAlert isBigEndian tx M
  | _ => .fail .returnedFalse

/-- Parses the packet or payload. -/
def interpretTransaction (P : AddressParams) : Reading CMPTransaction := do
  let tx ← interpretTransactionType isBigEndian tx
  interpretAs isBigEndian tx M P tx.type.toNat

end

/-! ### The same results -/

section
variable {big : Bool} {tx : CMPTransaction} {M : Memory}

theorem toOption_requiring {size : Nat} {go : Reading CMPTransaction} {x : Option CMPTransaction}
    (h : go.result.toOption = x) :
    (requiring tx size go).result.toOption = if tx.pktSize < size then none else x := by
  unfold requiring
  split_ifs
  · rfl
  · exact h

theorem result_value : (value big tx).result = .ok (readValue big tx) := rfl

theorem result_outputs (n pos : Nat) (tx : CMPTransaction) :
    (outputs big n pos tx).result = .ok (readOutputs big n pos tx) := by
  induction n generalizing pos tx with
  | zero => rfl
  | succ n ih =>
    rw [outputs, readOutputs, Traced.result_bind]
    exact ih _ _

theorem result_strings (n p : Nat) : (strings tx M n p).result = .ok (readStrings tx M n p) := by
  induction n generalizing p with
  | zero => rfl
  | succ n ih =>
    rw [strings, readStrings, Traced.result_bind]
    show (strings tx M n _ >>= _).result = _
    rw [Traced.result_bind, ih]
    rfl

theorem result_issuance (n : Nat) : (issuance big tx M n).result =
    .ok (readIssuance big tx M (readStrings tx M n 11).1, readStrings tx M n 11) := by
  have h : (issuance big tx M n).result = (strings tx M n 11).result >>= fun read =>
      .ok (readIssuance big tx M read.1, read) := by
    unfold issuance
    simp only [Traced.result_bind]
    rfl
  rw [h, result_strings]
  rfl

theorem toOption_unlessOverrun (p : Nat) (go : CMPTransaction) :
    (unlessOverrun tx p go).result.toOption = if tx.isOverrun p = true then none else some go := by
  unfold unlessOverrun
  split_ifs
  · rfl
  · rfl

variable (P : AddressParams)

theorem toOption_address :
    (address big tx P).result.toOption = readAddress big tx P := by
  refine toOption_requiring ?_
  simp only [Traced.result_bind, result_value, Traced.result_attempt]
  show ((named Exit.threw (hashToAddress P (read8 tx.pkt 16) (bytesAt tx.pkt 17 20))) >>= _).toOption = _
  cases hashToAddress P (read8 tx.pkt 16) (bytesAt tx.pkt 17 20) with
  | none => rfl
  | some receiver =>
    dsimp only [named, Bind.bind, Except.bind]
    split_ifs
    · rfl
    · rfl
    · rfl

theorem toOption_sendToOwners :
    (interpretSendToOwners big tx).result.toOption = CMPTransaction.interpretSendToOwners big tx := by
  refine toOption_requiring ?_
  by_cases hversion : 0 < tx.version
  · simp only [result_value, readValue, Bind.bind, hversion, if_true]
    rfl
  · simp only [result_value, readValue, Bind.bind, hversion, if_false]
    rfl

theorem toOption_sendToMany :
    (interpretSendToMany big tx).result.toOption = CMPTransaction.interpretSendToMany big tx := by
  refine toOption_requiring (toOption_requiring ?_)
  rw [Traced.result_bind, result_outputs]
  rfl

theorem toOption_tradeOffer :
    (interpretTradeOffer big tx).result.toOption = CMPTransaction.interpretTradeOffer big tx := by
  refine toOption_requiring ?_
  by_cases hversion : 0 < tx.version
  · simp only [result_value, readValue, Bind.bind, hversion, if_true]
    rfl
  · simp only [result_value, readValue, Bind.bind, hversion, if_false]
    rfl

theorem toOption_createPropertyFixed :
    (interpretCreatePropertyFixed big tx M).result.toOption =
      CMPTransaction.interpretCreatePropertyFixed big tx M := by
  refine toOption_requiring ?_
  rw [Traced.result_bind, result_issuance]
  exact toOption_unlessOverrun _ _

theorem toOption_createPropertyVariable :
    (interpretCreatePropertyVariable big tx M).result.toOption =
      CMPTransaction.interpretCreatePropertyVariable big tx M := by
  refine toOption_requiring ?_
  rw [Traced.result_bind, result_issuance]
  exact toOption_unlessOverrun _ _

theorem toOption_createPropertyManaged :
    (interpretCreatePropertyManaged big tx M).result.toOption =
      CMPTransaction.interpretCreatePropertyManaged big tx M := by
  refine toOption_requiring ?_
  rw [Traced.result_bind, result_issuance]
  exact toOption_unlessOverrun _ _

theorem toOption_rapidsPayment :
    (interpretRapidsPayment tx M).result.toOption = CMPTransaction.interpretRapidsPayment tx M := by
  refine toOption_requiring ?_
  simp only [string, Traced.result_bind, Traced.result_attempt]
  show (named Exit.threw (parseHashV (stringAt tx M 4)) >>= _).toOption = _
  cases parseHashV (stringAt tx M 4) with
  | none => rfl
  | some hash => rfl

theorem toOption_alert :
    (interpretAlert big tx M).result.toOption = CMPTransaction.interpretAlert big tx M :=
  toOption_requiring (toOption_unlessOverrun _ _)

theorem toOption_interpretAs (type : Nat) :
    (interpretAs big tx M P type).result.toOption =
      CMPTransaction.interpretAs big tx M P type := by
  unfold interpretAs CMPTransaction.interpretAs
  -- most decoders demand a length first, then read values
  split <;> try exact toOption_requiring rfl
  · exact toOption_sendToMany
  · exact toOption_sendToOwners
  · exact toOption_tradeOffer
  · exact toOption_createPropertyFixed
  · exact toOption_createPropertyVariable
  · exact toOption_createPropertyManaged
  · exact toOption_address P
  · exact toOption_address P
  · exact toOption_rapidsPayment
  · exact toOption_alert
  · -- a type without a decoder
    first
    | rfl
    | split <;> first | rfl | contradiction

/-- **The decoders are those of the model.** -/
theorem toOption_interpretTransaction :
    (interpretTransaction big tx M P).result.toOption =
      CMPTransaction.interpretTransaction big tx M P := by
  rw [interpretTransaction, CMPTransaction.interpretTransaction, Traced.result_bind, toOption_bind,
    interpretTransactionType, CMPTransaction.interpretTransactionType]
  rw [toOption_requiring (x := some { tx with
    version := read16 big tx.pkt 0, type := (read16 big tx.pkt 2).toUInt32 }) rfl]
  by_cases hshort : tx.pktSize < 4
  · rw [if_pos hshort]
    rfl
  · rw [if_neg hshort]
    exact toOption_interpretAs P _

end

end Reads

end Rapids.Payload
