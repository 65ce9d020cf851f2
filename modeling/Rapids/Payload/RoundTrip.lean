import Rapids.Payload.Create
import Rapids.Payload.Interpret

/-!
# Rapids.Payload.RoundTrip

**Decoding what was encoded.** `Carries` says that a decoded transaction has the
type, the version and the fields of the message whose payload it was read from,
each string cut to 255 bytes.

The fixed layouts are read off directly: `readNN_at` reads an integer whose
bytes stand at a position of the packet. For the strings, `readStrings_append`
passes over the strings that have their NUL. What remains is where two encoders
do not cut the ticker: an array of 256 bytes is then filled without a NUL.
-/

namespace Rapids.Payload

open CMPTransaction

variable {p : UInt32} {a : UInt64}

/-! ### The message a transaction carries -/

namespace Message

/-- The type that the encoder writes. -/
def type : Message → UInt16
  | simpleSend .. => 0
  | sendToMany .. => 5
  | rapidsPayment .. => 80
  | sendAll .. => 4
  | sendToOwners .. => 3
  | dExSell .. => 20
  | dExAccept .. => 22
  | metaDExTrade .. => 25
  | metaDExCancelPrice .. => 26
  | metaDExCancelPair .. => 27
  | metaDExCancelEcosystem .. => 28
  | issuanceFixed .. => 50
  | issuanceVariable .. => 51
  | issuanceManaged .. => 54
  | closeCrowdsale .. => 53
  | grant .. => 55
  | revoke .. => 56
  | changeIssuer .. => 70
  | enableFreezing .. => 71
  | disableFreezing .. => 72
  | freezeTokens .. => 185
  | unfreezeTokens .. => 186
  | deactivateFeature .. => 65533
  | activateFeature .. => 65534
  | tokenCoreAlert .. => 65535

/-- The version that the encoder writes. -/
def version : Message → UInt16
  | sendToOwners p _ d => if p = d then 0 else 1
  | dExSell .. => 1
  | issuanceVariable _ _ _ _ _ _ _ _ _ q _ _ _ _ => if q = rpdPropertyId then 2 else 0
  | deactivateFeature .. => 65535
  | activateFeature .. => 65535
  | tokenCoreAlert .. => 65535
  | _ => 0

/-- What the encoder writes behind them. -/
def body : Message → List UInt8
  | simpleSend p a => wire32 p ++ wire64 a
  | sendToMany p os => wire32 p ++ (UInt8.ofNat (cutOutputs os).length ::
      (cutOutputs os).flatMap fun o => o.1 :: wire64 o.2)
  | rapidsPayment h => pushString h.getHex
  | sendAll e => [e]
  | sendToOwners p a d => wire32 p ++ (wire64 a ++ if p = d then [] else wire32 d)
  | dExSell p a d t f s => wire32 p ++ (wire64 a ++ (wire64 d ++ (t :: (wire64 f ++ [s]))))
  | dExAccept p a => wire32 p ++ wire64 a
  | metaDExTrade p a q d => wire32 p ++ (wire64 a ++ (wire32 q ++ wire64 d))
  | metaDExCancelPrice p a q d => wire32 p ++ (wire64 a ++ (wire32 q ++ wire64 d))
  | metaDExCancelPair p q => wire32 p ++ wire32 q
  | metaDExCancelEcosystem e => [e]
  | issuanceFixed e t p c s n k u d a r y => e :: (wire16 t ++ (wire32 p ++
      ([cut c, cut s, cut n, cut k, cut u, cut d, cut r].flatMap pushString ++ (wire64 a ++ [y]))))
  | issuanceVariable e t p c s n k u d q a l b i => e :: (wire16 t ++ (wire32 p ++
      ([cut c, cut s, cut n, k, cut u, cut d].flatMap pushString ++
        (wire32 q ++ (wire64 a ++ (wire64 l ++ [b, i]))))))
  | issuanceManaged e t p c s n k u d => e :: (wire16 t ++ (wire32 p ++
      [cut c, cut s, cut n, k, cut u, cut d].flatMap pushString))
  | closeCrowdsale p => wire32 p
  | grant p a m => wire32 p ++ (wire64 a ++ pushString (cut m))
  | revoke p a m => wire32 p ++ (wire64 a ++ pushString (cut m))
  | changeIssuer p => wire32 p
  | enableFreezing p => wire32 p
  | disableFreezing p => wire32 p
  | freezeTokens p a s => wire32 p ++ (wire64 a ++ addressToBytes s)
  | unfreezeTokens p a s => wire32 p ++ (wire64 a ++ addressToBytes s)
  | deactivateFeature f => wire16 f
  | activateFeature f b v => wire16 f ++ (wire32 b ++ wire32 v)
  | tokenCoreAlert t x s => wire16 t ++ (wire32 x ++ pushString s)

end Message

theorem createPayload_wire (isBigEndian : Bool) (m : Message) :
    createPayload isBigEndian m = wire16 m.version ++ (wire16 m.type ++ m.body) := by
  cases m with
  | sendToOwners p a d =>
    rw [createPayload, createPayloadSendToOwners, Message.version, Message.body]
    by_cases h : p = d
    · rw [if_pos h, if_pos h, if_pos h]
      simp only [pushHead, push16_eq, push32_eq, push64_eq, List.append_assoc, List.append_nil]
      rfl
    · rw [if_neg h, if_neg h, if_neg h]
      simp only [pushHead, push16_eq, push32_eq, push64_eq, List.append_assoc]
      rfl
  | _ =>
    simp [createPayload, createPayloadSimpleSend, createPayloadSendToMany,
      createPayloadRapidsPayment, createPayloadSendAll, createPayloadDExSell,
      createPayloadDExAccept, createPayloadMetaDExTrade, createPayloadMetaDExCancelPrice,
      createPayloadMetaDExCancelPair, createPayloadMetaDExCancelEcosystem,
      createPayloadIssuanceFixed, createPayloadIssuanceVariable, createPayloadIssuanceManaged,
      createPayloadCloseCrowdsale, createPayloadGrant, createPayloadRevoke,
      createPayloadChangeIssuer, createPayloadEnableFreezing, createPayloadDisableFreezing,
      createPayloadFreezeTokens, createPayloadUnfreezeTokens, createPayloadDeactivateFeature,
      createPayloadActivateFeature, createPayloadTokenCoreAlert, pushHead, pushTrade, pushIssuance,
      pushProperty, pushMemo, pushAddress, push16_eq, push32_eq, push64_eq, Message.version,
      Message.type, Message.body]

/-- The property whose owners are sent to, as the logic reads it. -/
def distributeTo (tx : CMPTransaction) : UInt32 :=
  if tx.version = 0 then tx.property else tx.distributionProperty

/-- A property and a value. -/
def CarriesValue (p : UInt32) (a : UInt64) (tx : CMPTransaction) : Prop :=
  tx.property = p ∧ tx.nValue = a ∧ tx.nNewValue = a

/-- An array holds the first 255 bytes of a string. -/
def CarriesString (s field : List UInt8) : Prop := cString field = some (s.take 255)

/-- What the issuances have in common. -/
structure CarriesIssuance (e : UInt8) (t : UInt16) (p : UInt32) (c s n k u d : List UInt8)
    (tx : CMPTransaction) : Prop where
  ecosystem : tx.ecosystem = e
  propType : tx.propType = t
  prevPropId : tx.prevPropId = p
  category : CarriesString c tx.category
  subcategory : CarriesString s tx.subcategory
  name : CarriesString n tx.name
  ticker : CarriesString k tx.ticker
  url : CarriesString u tx.url
  data : CarriesString d tx.data

/-- The fields of a message. A memo has none. -/
def CarriesFields (tx : CMPTransaction) : Message → Prop
  | .simpleSend p a => CarriesValue p a tx
  | .sendToMany p os => tx.property = p ∧ tx.outputValuesForSTM = os.take 255
  | .rapidsPayment h => tx.linkedTxid = h
  | .sendAll e => tx.ecosystem = e
  | .sendToOwners p a d => CarriesValue p a tx ∧ distributeTo tx = d
  | .dExSell p a d t f s => CarriesValue p a tx ∧ tx.amountDesired = d ∧ tx.blocktimelimit = t ∧
      tx.minFee = f ∧ tx.subaction = s
  | .dExAccept p a => CarriesValue p a tx
  | .metaDExTrade p a q d => CarriesValue p a tx ∧ tx.desiredProperty = q ∧ tx.desiredValue = d
  | .metaDExCancelPrice p a q d => CarriesValue p a tx ∧ tx.desiredProperty = q ∧ tx.desiredValue = d
  | .metaDExCancelPair p q => tx.property = p ∧ tx.desiredProperty = q
  | .metaDExCancelEcosystem e => tx.ecosystem = e
  | .issuanceFixed e t p c s n k u d a r y => CarriesIssuance e t p c s n k u d tx ∧
      (tx.nValue = a ∧ tx.nNewValue = a) ∧ CarriesString r tx.royaltiesReceiver ∧ tx.royaltiesPercentage = y
  | .issuanceVariable e t p c s n k u d q a l b i => CarriesIssuance e t p c s n k u d tx ∧
      CarriesValue q a tx ∧ tx.deadline = l ∧ tx.earlyBird = b ∧ tx.percentage = i
  | .issuanceManaged e t p c s n k u d => CarriesIssuance e t p c s n k u d tx
  | .closeCrowdsale p => tx.property = p
  | .grant p a _ => CarriesValue p a tx
  | .revoke p a _ => CarriesValue p a tx
  | .changeIssuer p => tx.property = p
  | .enableFreezing p => tx.property = p
  | .disableFreezing p => tx.property = p
  | .freezeTokens p a s => CarriesValue p a tx ∧ tx.receiver = s.take 255
  | .unfreezeTokens p a s => CarriesValue p a tx ∧ tx.receiver = s.take 255
  | .deactivateFeature f => tx.featureId = f
  | .activateFeature f b v => tx.featureId = f ∧ tx.activationBlock = b ∧ tx.minClientVersion = v
  | .tokenCoreAlert t x s => tx.alertType = t ∧ tx.alertExpiry = x ∧ CarriesString s tx.alertText

/-- The transaction is the message. -/
def Carries (m : Message) (tx : CMPTransaction) : Prop :=
  tx.type = m.type.toUInt32 ∧ tx.version = m.version ∧ CarriesFields tx m

/-! ### Arrival -/

section
variable (tx₀ : CMPTransaction) (s r payload : List UInt8)

/-- The packet of a payload, in an object that was used before. -/
def packet : CMPTransaction := tx₀.setNull.set s r 0 payload

/-- The packet, after its version and type were read. -/
def arrived (ver type : UInt16) : CMPTransaction :=
  { packet tx₀ s r payload with version := ver, type := type.toUInt32 }

/-- What the decoders make of a payload. -/
def received (isBigEndian : Bool) (M : Memory) (P : AddressParams) : Option CMPTransaction :=
  interpretTransaction isBigEndian (packet tx₀ s r payload) M P

theorem packet_pktSize : (packet tx₀ s r payload).pktSize = min payload.length sizeofPkt := by
  show (if payload.length < sizeofPkt then payload.length else sizeofPkt) = _
  by_cases h : payload.length < sizeofPkt
  · rw [if_pos h, Nat.min_eq_left (Nat.le_of_lt h)]
  · rw [if_neg h, Nat.min_eq_right (Nat.le_of_not_lt h)]

theorem packet_pkt : (packet tx₀ s r payload).pkt =
    payload.take sizeofPkt ++ List.replicate (sizeofPkt - payload.length) 0 := by
  have hsize := packet_pktSize tx₀ s r payload
  show payload.take (packet tx₀ s r payload).pktSize ++
    (List.replicate sizeofPkt 0).drop (packet tx₀ s r payload).pktSize = _
  rw [hsize, List.drop_replicate, Nat.min_comm, ← List.take_eq_take_min]
  congr 2
  omega

end

/-! ### Reading integers -/

section
variable {big : Bool} {m l : List UInt8} {pos : Nat}

theorem read16_at {x : UInt16} (h : m.drop pos = wire16 x ++ l) : read16 big m pos = x := by
  rw [read16, bytesAt, h, List.take_left' (by rfl)]
  exact read16_wire big x

theorem read32_at {x : UInt32} (h : m.drop pos = wire32 x ++ l) : read32 big m pos = x := by
  rw [read32, bytesAt, h, List.take_left' (by rfl)]
  exact read32_wire big x

theorem read64_at {x : UInt64} (h : m.drop pos = wire64 x ++ l) : read64 big m pos = x := by
  rw [read64, bytesAt, h, List.take_left' (by rfl)]
  exact read64_wire big x

theorem read8_at {x : UInt8} (h : m.drop pos = x :: l) : read8 m pos = x := by
  rw [read8, h]
  rfl

end

/-! ### Reading a packet -/

/-- A transaction whose packet holds a payload, and nothing else yet. -/
structure Arrives (tx : CMPTransaction) (ver kind : UInt16) (body : List UInt8) : Prop where
  type : tx.type = kind.toUInt32
  version : tx.version = ver
  pktSize : tx.pktSize = body.length + 4
  pkt : ∃ post, tx.pkt = wire16 ver ++ (wire16 kind ++ (body ++ post))
  outputs : tx.outputValuesForSTM = []
  alertText : tx.alertText = List.replicate spStringFieldLen 0

/-- The decoder of a message's type finds the message. -/
def Decodes (isBigEndian : Bool) (M : Memory) (P : AddressParams) (tx : CMPTransaction) (m : Message) : Prop :=
  ∃ tx', interpretAs isBigEndian tx M P m.type.toUInt32.toNat = some tx' ∧
    tx'.type = tx.type ∧ tx'.version = tx.version ∧ CarriesFields tx' m

section
variable (tx₀ : CMPTransaction) (s r : List UInt8) (isBigEndian : Bool) (M : Memory) (P : AddressParams)

theorem received_eq (m : Message) :
    received tx₀ s r (createPayload isBigEndian m) isBigEndian M P =
      interpretAs isBigEndian (arrived tx₀ s r (createPayload isBigEndian m) m.version m.type) M P
        m.type.toUInt32.toNat := by
  have hwire := createPayload_wire isBigEndian m
  generalize createPayload isBigEndian m = payload at hwire
  have hsize : ¬ (packet tx₀ s r payload).pktSize < 4 := by
    rw [packet_pktSize, hwire]
    simp [wire16, sizeofPkt, maxPackets, packetSize]
  have hpkt : (packet tx₀ s r payload).pkt = wire16 m.version ++ (wire16 m.type ++
      (m.body.take (sizeofPkt - 4) ++ List.replicate (sizeofPkt - payload.length) 0)) := by
    rw [packet_pkt, hwire]
    rfl
  have hver : read16 isBigEndian (packet tx₀ s r payload).pkt 0 = m.version := read16_at hpkt
  have htype : read16 isBigEndian (packet tx₀ s r payload).pkt 2 = m.type := by
    rw [hpkt]
    exact read16_at rfl
  rw [received, interpretTransaction, interpretTransactionType, if_neg hsize, hver, htype]
  rfl

/-- The message comes back from its payload. -/
def RoundTrips (m : Message) : Prop :=
  ∃ tx, received tx₀ s r (createPayload isBigEndian m) isBigEndian M P = some tx ∧ Carries m tx

theorem arrives (m : Message) :
    Arrives (arrived tx₀ s r (createPayload isBigEndian m) m.version m.type) m.version m.type
      (m.body.take (sizeofPkt - 4)) where
  type := rfl
  version := rfl
  pktSize := by
    refine (packet_pktSize tx₀ s r _).trans ?_
    rw [createPayload_wire, List.length_take]
    show min (m.body.length + 4) sizeofPkt = _
    rw [sizeofPkt, maxPackets, packetSize]
    omega
  pkt := by
    refine ⟨List.replicate (sizeofPkt - (createPayload isBigEndian m).length) 0, ?_⟩
    refine (packet_pkt tx₀ s r _).trans ?_
    generalize List.replicate (sizeofPkt - (createPayload isBigEndian m).length) (0 : UInt8) = zeros
    rw [createPayload_wire]
    rfl
  outputs := rfl
  alertText := rfl

theorem arrives_of_fits {m : Message} (hfit : m.body.length ≤ sizeofPkt - 4) :
    Arrives (arrived tx₀ s r (createPayload isBigEndian m) m.version m.type) m.version m.type m.body := by
  have h := arrives tx₀ s r isBigEndian m
  rwa [List.take_of_length_le hfit] at h

theorem roundTrips_iff {m : Message} :
    RoundTrips tx₀ s r isBigEndian M P m ↔
      Decodes isBigEndian M P (arrived tx₀ s r (createPayload isBigEndian m) m.version m.type) m := by
  rw [RoundTrips, received_eq]
  constructor
  · rintro ⟨tx', hdec, htype, hver, hfields⟩
    exact ⟨tx', hdec, htype, hver, hfields⟩
  · rintro ⟨tx', hdec, htype, hver, hfields⟩
    exact ⟨tx', hdec, htype, hver, hfields⟩

end

/-! ### Fixed layouts -/

section
variable {big : Bool} {M : Memory} {P : AddressParams} {tx : CMPTransaction} {ver type : UInt16}
  {body l : List UInt8}

theorem Arrives.not_lt {n : Nat} (h : Arrives tx ver type body) (hlen : n ≤ body.length + 4) :
    ¬ tx.pktSize < n := by
  rw [h.pktSize]
  exact Nat.not_lt.mpr hlen

theorem Arrives.property (h : Arrives tx ver type (wire32 p ++ l)) :
    read32 big tx.pkt 4 = p := by
  obtain ⟨post, hpkt⟩ := h.pkt
  rw [hpkt]
  exact read32_at rfl

theorem Arrives.value (h : Arrives tx ver type (wire32 p ++ (wire64 a ++ l))) :
    CarriesValue p a (readValue big tx) := by
  have ha : read64 big tx.pkt 8 = a := by
    obtain ⟨post, hpkt⟩ := h.pkt
    rw [hpkt]
    exact read64_at rfl
  exact ⟨h.property, ha, ha⟩

theorem decodes_simpleSend (h : Arrives tx ver type (wire32 p ++ wire64 a)) :
    Decodes big M P tx (.simpleSend p a) :=
  ⟨_, if_neg (h.not_lt (Nat.le_refl 16)), rfl, rfl, h.value⟩

theorem decodes_dExAccept (h : Arrives tx ver type (wire32 p ++ wire64 a)) :
    Decodes big M P tx (.dExAccept p a) :=
  ⟨_, if_neg (h.not_lt (Nat.le_refl 16)), rfl, rfl, h.value⟩

theorem decodes_sendAll {e : UInt8} (h : Arrives tx ver type [e]) : Decodes big M P tx (.sendAll e) := by
  obtain ⟨post, hpkt⟩ := h.pkt
  refine ⟨_, if_neg (h.not_lt (Nat.le_refl 5)), rfl, rfl, ?_⟩
  show read8 tx.pkt 4 = e
  rw [hpkt]
  rfl

theorem decodes_metaDExCancelEcosystem {e : UInt8} (h : Arrives tx ver type [e]) :
    Decodes big M P tx (.metaDExCancelEcosystem e) := by
  obtain ⟨post, hpkt⟩ := h.pkt
  refine ⟨_, if_neg (h.not_lt (Nat.le_refl 5)), rfl, rfl, ?_⟩
  show read8 tx.pkt 4 = e
  rw [hpkt]
  rfl

theorem decodes_sendToOwners {d : UInt32}
    (h : Arrives tx (if p = d then 0 else 1) type (wire32 p ++ (wire64 a ++ if p = d then [] else wire32 d))) :
    Decodes big M P tx (.sendToOwners p a d) := by
  have hvalue : CarriesValue p a (readValue big tx) := h.value
  have hver := h.version
  by_cases heq : p = d
  · rw [if_pos heq] at h hver
    rw [if_pos heq] at h
    refine ⟨readValue big tx, ?_, rfl, rfl, hvalue, ?_⟩
    · show interpretSendToOwners big tx = _
      rw [interpretSendToOwners, hver]
      refine (if_neg (h.not_lt (Nat.le_refl 16))).trans ?_
      show (if 0 < tx.version then _ else _) = _
      rw [hver, if_neg (by decide)]
    · show (if tx.version = 0 then _ else _) = _
      rw [if_pos hver, hvalue.1, heq]
  · rw [if_neg heq] at h hver
    rw [if_neg heq] at h
    obtain ⟨post, hpkt⟩ := h.pkt
    have hd : read32 big tx.pkt 16 = d := by
      rw [hpkt]
      exact read32_at rfl
    refine ⟨{ readValue big tx with distributionProperty := d }, ?_, rfl, rfl, hvalue, ?_⟩
    · show interpretSendToOwners big tx = _
      rw [interpretSendToOwners, hver]
      refine (if_neg (h.not_lt (Nat.le_refl 20))).trans ?_
      show (if 0 < tx.version then some { readValue big tx with
        distributionProperty := read32 big tx.pkt 16 } else _) = _
      rw [hver, if_pos (by decide), hd]
    · show (if tx.version = 0 then _ else _) = _
      rw [if_neg (by rw [hver]; decide)]

theorem decodes_dExSell {d f : UInt64} {t b : UInt8}
    (h : Arrives tx 1 type (wire32 p ++ (wire64 a ++ (wire64 d ++ (t :: (wire64 f ++ [b])))))) :
    Decodes big M P tx (.dExSell p a d t f b) := by
  obtain ⟨post, hpkt⟩ := h.pkt
  have hd : read64 big tx.pkt 16 = d := by
    rw [hpkt]
    exact read64_at rfl
  have ht : read8 tx.pkt 24 = t := by
    rw [hpkt]
    rfl
  have hf : read64 big tx.pkt 25 = f := by
    rw [hpkt]
    exact read64_at rfl
  have hb : read8 tx.pkt 33 = b := by
    rw [hpkt]
    rfl
  refine ⟨{ readValue big tx with
    amountDesired := d, blocktimelimit := t, minFee := f, subaction := b }, ?_, rfl, rfl, h.value,
    rfl, rfl, rfl, rfl⟩
  show interpretTradeOffer big tx = _
  rw [interpretTradeOffer, h.version]
  refine (if_neg (h.not_lt (Nat.le_refl 34))).trans ?_
  rw [hd, ht, hf]
  show (if 0 < tx.version then _ else _) = _
  rw [h.version, if_pos (by decide)]
  show some { readValue big tx with
    amountDesired := d, blocktimelimit := t, minFee := f, subaction := read8 tx.pkt 33 } = _
  rw [hb]

theorem Arrives.trade {q : UInt32} {d : UInt64} (action : UInt8)
    (h : Arrives tx ver type (wire32 p ++ (wire64 a ++ (wire32 q ++ wire64 d)))) :
    ∃ tx', readTrade big tx action = some tx' ∧ tx'.type = tx.type ∧ tx'.version = tx.version ∧
      CarriesValue p a tx' ∧ tx'.desiredProperty = q ∧ tx'.desiredValue = d := by
  obtain ⟨post, hpkt⟩ := h.pkt
  have hq : read32 big tx.pkt 16 = q := by
    rw [hpkt]
    exact read32_at rfl
  have hd : read64 big tx.pkt 20 = d := by
    rw [hpkt]
    exact read64_at rfl
  exact ⟨_, if_neg (h.not_lt (Nat.le_refl 28)), rfl, rfl, h.value, hq, hd⟩

theorem decodes_metaDExCancelPair {q : UInt32} (h : Arrives tx ver type (wire32 p ++ wire32 q)) :
    Decodes big M P tx (.metaDExCancelPair p q) := by
  obtain ⟨post, hpkt⟩ := h.pkt
  have hq : read32 big tx.pkt 8 = q := by
    rw [hpkt]
    exact read32_at rfl
  exact ⟨_, if_neg (h.not_lt (Nat.le_refl 12)), rfl, rfl, h.property, hq⟩

theorem Arrives.onlyProperty (h : Arrives tx ver type (wire32 p)) :
    ∃ tx', readProperty big tx = some tx' ∧ tx'.type = tx.type ∧ tx'.version = tx.version ∧
      tx'.property = p :=
  ⟨_, if_neg (h.not_lt (Nat.le_refl 8)), rfl, rfl, h.property⟩

section
variable (h : Arrives tx ver type (wire32 p ++ (wire64 a ++ pushString (cut m))))
include h

theorem decodes_grant {m : List UInt8}
    :
    Decodes big M P tx (.grant p a m) := by
  refine ⟨_, if_neg (h.not_lt ?_), rfl, rfl, h.value⟩
  rw [← List.append_assoc, List.length_append]
  exact Nat.add_le_add_right (Nat.le_add_right 12 _) 4

theorem decodes_revoke {m : List UInt8}
    :
    Decodes big M P tx (.revoke p a m) := by
  refine ⟨_, if_neg (h.not_lt ?_), rfl, rfl, h.value⟩
  rw [← List.append_assoc, List.length_append]
  exact Nat.add_le_add_right (Nat.le_add_right 12 _) 4

end

theorem decodes_deactivateFeature {f : UInt16} (h : Arrives tx ver type (wire16 f)) :
    Decodes big M P tx (.deactivateFeature f) := by
  obtain ⟨post, hpkt⟩ := h.pkt
  have hf : read16 big tx.pkt 4 = f := by
    rw [hpkt]
    exact read16_at rfl
  exact ⟨_, if_neg (h.not_lt (Nat.le_refl 6)), rfl, rfl, hf⟩

theorem decodes_activateFeature {f : UInt16} {b v : UInt32}
    (h : Arrives tx ver type (wire16 f ++ (wire32 b ++ wire32 v))) :
    Decodes big M P tx (.activateFeature f b v) := by
  obtain ⟨post, hpkt⟩ := h.pkt
  have hf : read16 big tx.pkt 4 = f := by
    rw [hpkt]
    exact read16_at rfl
  have hb : read32 big tx.pkt 6 = b := by
    rw [hpkt]
    exact read32_at rfl
  have hv : read32 big tx.pkt 10 = v := by
    rw [hpkt]
    exact read32_at rfl
  exact ⟨_, if_neg (h.not_lt (Nat.le_refl 14)), rfl, rfl, hf, hb, hv⟩

end

end Rapids.Payload
