import Rapids.Payload.RoundTrip

/-!
# Rapids.Payload.Strings

**Lists and strings of a payload.** Layouts whose length depends on the message:
the receivers of a send to many, hashes and alerts, the strings of an issuance,
and the address of a freeze. With them the round trip is settled for every
message: `payload_round_trip` says for which messages the decoder gives back
what the encoder was given, and it is for all but two slips and for what is no
address.

A string of a packet ends at its NUL; `readStrings_append` reads the strings
that have one. Where the ticker is not cut, an array of 256 bytes can be filled
with it and then holds no string at all (`longTicker_lost`).
-/

namespace Rapids.Payload

open CMPTransaction

variable {s : List UInt8}

variable {p : UInt32} {t : UInt16} {e : UInt8} {c n u d k : List UInt8} {a : UInt64}

/-! ### Receivers -/

section
variable {big : Bool} {M : Memory} {P : AddressParams} {tx : CMPTransaction} {ver type : UInt16}

theorem cut_eq (s : List UInt8) : cut s = s.take 255 := by
  rw [cut]
  by_cases h : s.length > 255
  · rw [if_pos h]
  · rw [if_neg h, List.take_of_length_le (by omega)]

theorem cut_length (s : List UInt8) : (cut s).length ≤ 255 := by
  rw [cut_eq]
  exact List.length_take_le 255 s

variable (os : List (UInt8 × UInt64))

theorem cutOutputs_eq : cutOutputs os = os.take 255 := by
  rw [cutOutputs]
  by_cases h : os.length > 255
  · rw [if_pos h]
  · rw [if_neg h, List.take_of_length_le (by omega)]

/-- The bytes of one receiver after the other. -/
def wireOutputs : List UInt8 := os.flatMap fun o => o.1 :: wire64 o.2

theorem wireOutputs_length : (wireOutputs os).length = os.length * 9 := by
  induction os with
  | nil => rfl
  | cons o os ih =>
    rw [wireOutputs, List.flatMap_cons, List.length_append, show (o :: os).length * 9 = os.length * 9 + 9 from Nat.succ_mul _ _, ← ih]
    exact Nat.add_comm 9 _

/-- The loop reads the receivers that are there, and leaves the rest as it is. -/
theorem readOutputs_eq (big : Bool) (tx : CMPTransaction) (os : List (UInt8 × UInt64)) {pos : Nat}
    {post : List UInt8} (h : tx.pkt.drop pos = wireOutputs os ++ post) :
    ∃ value, readOutputs big os.length pos tx =
      { tx with outputValuesForSTM := tx.outputValuesForSTM ++ os, nValue := value } := by
  induction os generalizing tx pos with
  | nil => exact ⟨tx.nValue, by rw [List.append_nil]; rfl⟩
  | cons o os ih =>
    have hvout : read8 tx.pkt pos = o.1 := by
      rw [read8, h]
      rfl
    have hvalue : read64 big tx.pkt (pos + 1) = o.2 := by
      refine read64_at (l := wireOutputs os ++ post) ?_
      rw [← List.drop_drop, h]
      rfl
    have hrest : tx.pkt.drop (pos + 9) = wireOutputs os ++ post := by
      rw [← List.drop_drop, h]
      rfl
    rw [List.length_cons, readOutputs, hvout, hvalue]
    obtain ⟨value, heq⟩ := ih { tx with
      outputValuesForSTM := tx.outputValuesForSTM ++ [(o.1, o.2)], nValue := tx.nValue + o.2 } hrest
    refine ⟨value, heq.trans ?_⟩
    show { tx with outputValuesForSTM := tx.outputValuesForSTM ++ [o] ++ os, nValue := value } = _
    rw [List.append_assoc, List.singleton_append]

theorem decodes_sendToMany {os : List (UInt8 × UInt64)}
    (h : Arrives tx ver type (wire32 p ++ (UInt8.ofNat (cutOutputs os).length :: wireOutputs (cutOutputs os)))) :
    Decodes big M P tx (.sendToMany p os) := by
  have hlen : (cutOutputs os).length ≤ 255 := by
    rw [cutOutputs_eq]
    exact List.length_take_le 255 os
  obtain ⟨post, hpkt⟩ := h.pkt
  have hcount : read8 tx.pkt 8 = UInt8.ofNat (cutOutputs os).length := by
    rw [hpkt]
    rfl
  have htoNat : (UInt8.ofNat (cutOutputs os).length).toNat = (cutOutputs os).length :=
    UInt8.toNat_ofNat_of_lt' (Nat.lt_succ_of_le hlen)
  have hdrop : tx.pkt.drop 9 = wireOutputs (cutOutputs os) ++ post := by
    rw [hpkt]
    rfl
  have hsize : ¬ tx.pktSize < 9 + (cutOutputs os).length * (1 + 8) := by
    rw [h.pktSize, List.length_append, List.length_cons, wireOutputs_length]
    exact Nat.not_lt.mpr (Nat.le_of_eq (by rw [show (wire32 p).length = 4 from rfl]; omega))
  obtain ⟨value, hloop⟩ := readOutputs_eq big
    { tx with property := p, numberOfSTMReceivers := UInt8.ofNat (cutOutputs os).length } (cutOutputs os) hdrop
  refine ⟨{ tx with
    property := p
    numberOfSTMReceivers := UInt8.ofNat (cutOutputs os).length
    outputValuesForSTM := tx.outputValuesForSTM ++ cutOutputs os
    nValue := value
    nNewValue := value }, ?_, rfl, rfl, rfl, ?_⟩
  · show interpretSendToMany big tx = _
    rw [interpretSendToMany]
    refine (if_neg (h.not_lt ?_)).trans ?_
    · rw [List.length_append]
      exact Nat.add_le_add_right (Nat.add_le_add_left (Nat.succ_le_succ (Nat.zero_le _)) 4) 4
    · rw [h.property, hcount]
      show (if tx.pktSize < 9 + (UInt8.ofNat (cutOutputs os).length).toNat * (1 + 8) then none
        else some { readOutputs big (UInt8.ofNat (cutOutputs os).length).toNat 9
            { tx with property := p, numberOfSTMReceivers := UInt8.ofNat (cutOutputs os).length } with
          nNewValue := (readOutputs big (UInt8.ofNat (cutOutputs os).length).toNat 9
            { tx with property := p, numberOfSTMReceivers := UInt8.ofNat (cutOutputs os).length }).nValue }) = _
      rw [htoNat, if_neg hsize, hloop]
  · show tx.outputValuesForSTM ++ cutOutputs os = os.take 255
    rw [h.outputs, List.nil_append, cutOutputs_eq]

/-! ### Strings -/

theorem takeWhile_nul (rest : List UInt8) (h : ∀ c ∈ s, c ≠ 0) :
    (s ++ 0 :: rest).takeWhile (· ≠ 0) = s := by
  rw [List.takeWhile_append_of_pos (by simpa using h), List.takeWhile_cons, if_neg (by decide),
    List.append_nil]

theorem stringAt_eq {l : List UInt8} {p : Nat} (h : (tx.memory M).drop p = pushString s ++ l)
    (hnul : ∀ c ∈ s, c ≠ 0) : stringAt tx M p = s := by
  rw [stringAt, h, pushString, List.append_assoc]
  exact takeWhile_nul l hnul

theorem readStrings_append (ss : List (List UInt8)) (k : Nat) {p : Nat} {rest : List UInt8}
    (h : (tx.memory M).drop p = ss.flatMap pushString ++ rest) (hnul : ∀ s ∈ ss, ∀ c ∈ s, c ≠ 0) :
    readStrings tx M (ss.length + k) p =
      (ss ++ (readStrings tx M k (p + (ss.flatMap pushString).length)).1,
        (readStrings tx M k (p + (ss.flatMap pushString).length)).2) := by
  induction ss generalizing p with
  | nil => rw [List.length_nil, Nat.zero_add, List.nil_append]; rfl
  | cons s ss ih =>
    rw [List.flatMap_cons, List.append_assoc] at h
    have hs := stringAt_eq h (hnul s (.head _))
    have hrest : (tx.memory M).drop (p + s.length + 1) = ss.flatMap pushString ++ rest := by
      rw [Nat.add_assoc, ← List.drop_drop, h,
        show s.length + 1 = (pushString s).length by rw [pushString, List.length_append]; rfl,
        List.drop_left]
    have hpos : p + s.length + 1 + (ss.flatMap pushString).length =
        p + ((s :: ss).flatMap pushString).length := by
      rw [List.flatMap_cons, List.length_append, pushString, List.length_append]
      show p + s.length + 1 + _ = p + (s.length + 1 + _)
      omega
    rw [List.length_cons, Nat.add_right_comm, readStrings, hs,
      ih hrest fun x hx => hnul x (List.mem_cons_of_mem _ hx), hpos]
    rfl

theorem cString_copyString (hlen : s.length ≤ 255) (hnul : ∀ c ∈ s, c ≠ 0) :
    cString (copyString M s) = some s := by
  have hfield : copyString M s = s ++ 0 :: (M.afterString s).take (255 - s.length) := by
    rw [copyString, List.take_append, List.take_of_length_le (by simpa [spStringFieldLen] using by omega),
      show spStringFieldLen - s.length = 255 - s.length + 1 by simp [spStringFieldLen]; omega]
    rfl
  rw [hfield, cString, if_pos (by simp), takeWhile_nul _ hnul]

theorem carriesString_copyString (hnul : ∀ c ∈ s, c ≠ 0) :
    CarriesString s (copyString M (s.take 255)) :=
  cString_copyString (List.length_take_le 255 s) fun c hc => hnul c (List.mem_of_mem_take hc)

theorem decodes_rapidsPayment {hash : Uint256} (h : Arrives tx ver type (pushString hash.getHex)) :
    Decodes big M P tx (.rapidsPayment hash) := by
  obtain ⟨post, hpkt⟩ := h.pkt
  have htext : stringAt tx M 4 = hash.getHex := by
    refine stringAt_eq (l := post ++ M.afterPkt) ?_ fun c hc => (hexDigit_ne (hash.getHex_digits c hc)).1
    rw [memory, hpkt, List.append_assoc, List.append_assoc, List.append_assoc]
    rfl
  refine ⟨{ tx with linkedTxid := hash }, ?_, rfl, rfl, rfl⟩
  show interpretRapidsPayment tx M = _
  rw [interpretRapidsPayment, if_neg (h.not_lt ?_), htext, hash.parseHashV_getHex]
  rw [pushString, List.length_append, hash.getHex_length]
  decide

/-! ### Addresses -/

/-- A freeze finds the address it was made for exactly when that is the address of
a key or a script, as it is written. -/
theorem Arrives.address {address bytes : List UInt8}
    (h : Arrives tx ver type (wire32 p ++ (wire64 a ++ bytes)))
    (hbytes : bytes.take 21 = (addressToBytes address).take 21) (hnul : ∀ c ∈ address, c ≠ 0) :
    (∃ tx', readAddress big tx P = some tx' ∧ tx'.type = tx.type ∧ tx'.version = tx.version ∧
      CarriesValue p a tx' ∧ tx'.receiver = address.take 255) ↔ TokenAddress P address := by
  rw [← addressToBytes_iff hnul]
  obtain ⟨post, hpkt⟩ := h.pkt
  have hsize : tx.pktSize = bytes.length + 16 := by
    rw [h.pktSize, List.length_append, List.length_append]
    show 4 + (8 + bytes.length) + 4 = bytes.length + 16
    omega
  -- a version and a hash at the start of the bytes are what the decoder copies out
  have hread : ∀ v hash, hash.length = 20 → bytes.take 21 = v :: hash →
      read8 tx.pkt 16 = v ∧ bytesAt tx.pkt 17 20 = hash := by
    intro v hash hlen hsplit
    have hdrop : tx.pkt.drop 16 = (v :: hash) ++ (bytes.drop 21 ++ post) := by
      rw [hpkt, ← hsplit]
      show bytes ++ post = bytes.take 21 ++ (bytes.drop 21 ++ post)
      rw [← List.append_assoc, List.take_append_drop]
    refine ⟨read8_at hdrop, ?_⟩
    rw [bytesAt, show 17 = 16 + 1 from rfl, ← List.drop_drop, hdrop]
    exact List.take_left' hlen
  constructor
  · rintro ⟨tx', hdec, -, -, -, hreceiver⟩
    rw [readAddress] at hdec
    by_cases hshort : tx.pktSize < 37
    · rw [if_pos hshort] at hdec
      cases hdec
    · rw [if_neg hshort] at hdec
      obtain ⟨v, hash, hsplit⟩ : ∃ v hash, bytes.take 21 = v :: hash := by
        cases hb : bytes.take 21 with
        | nil =>
          have hnil := congrArg List.length hb
          rw [List.length_take, List.length_nil] at hnil
          omega
        | cons v hash => exact ⟨v, hash, rfl⟩
      have hlen : hash.length = 20 := by
        have hsum := congrArg List.length hsplit
        rw [List.length_take, List.length_cons] at hsum
        omega
      obtain ⟨hversion, hhash⟩ := hread v hash hlen hsplit
      rw [hversion, hhash] at hdec
      split at hdec
      · cases hdec
      · rename_i receiver hfound
        by_cases hnone : receiver = []
        · rw [if_pos hnone] at hdec
          cases hdec
        · rw [if_neg hnone] at hdec
          by_cases hvalid : isValidDestination (decodeDestination P receiver).1 = false
          · rw [if_pos hvalid] at hdec
            cases hdec
          · rw [if_neg hvalid, Option.some.injEq] at hdec
            have heq : receiver = address.take 255 := by
              rw [← hreceiver, ← hdec]
            exact ⟨v, hash, hlen, hbytes ▸ hsplit, heq ▸ hfound, heq ▸ hnone⟩
  · rintro ⟨v, hash, hlen, hsplit, hfound, hne⟩
    rw [← hbytes] at hsplit
    obtain ⟨hversion, hhash⟩ := hread v hash hlen hsplit
    have hlong : 21 ≤ bytes.length := by
      have hsum := congrArg List.length hsplit
      rw [List.length_take, List.length_cons, hlen] at hsum
      omega
    have hvalid : isValidDestination (decodeDestination P (address.take 255)).1 ≠ false := by
      have htoken := (TokenAddress.of_hash hlen hfound hne).2
      rw [isValidDestinationString, Bool.and_eq_true] at htoken
      rw [htoken.1]
      exact Bool.noConfusion
    refine ⟨{ readValue big tx with receiver := address.take 255 }, ?_, rfl, rfl, h.value, rfl⟩
    rw [readAddress, if_neg (by omega), hversion, hhash, hfound]
    exact (if_neg hne).trans (if_neg hvalid)

/-! ### Alerts -/

/-- An alert is found whatever its length: a message that is cut at the end of the
packet still starts with the bytes that are kept. -/
theorem Arrives.alert {x : UInt32} {msg : List UInt8}
    (h : Arrives tx ver type ((wire16 t ++ (wire32 x ++ pushString msg)).take (sizeofPkt - 4)))
    (hnul : ∀ c ∈ msg, c ≠ 0) : Decodes big M P tx (.tokenCoreAlert t x msg) := by
  obtain ⟨post, hpkt⟩ := h.pkt
  have hcut : (wire16 t ++ (wire32 x ++ pushString msg)).take (sizeofPkt - 4) =
      wire16 t ++ (wire32 x ++ (pushString msg).take (sizeofPkt - 10)) := rfl
  rw [hcut] at h hpkt
  have ht : read16 big tx.pkt 4 = t := by
    rw [hpkt]
    exact read16_at rfl
  have hx : read32 big tx.pkt 6 = x := by
    rw [hpkt]
    exact read32_at rfl
  have hdrop : (tx.memory M).drop 10 = (pushString msg).take (sizeofPkt - 10) ++ (post ++ M.afterPkt) := by
    rw [memory, hpkt, List.append_assoc, List.append_assoc, List.append_assoc]
    rfl
  have hstart : (stringAt tx M 10).take 255 = msg.take 255 := by
    have hsize : sizeofPkt - 10 = 7896 := rfl
    rw [stringAt, hdrop, hsize, pushString]
    by_cases hlong : msg.length < 7896
    · have hwhole : (msg ++ [0]).take 7896 = msg ++ [0] :=
        List.take_of_length_le (by rw [List.length_append]; exact hlong)
      rw [hwhole, List.append_assoc]
      exact congrArg (List.take 255) (takeWhile_nul _ hnul)
    · rw [List.take_append_of_le_length (Nat.le_of_not_lt hlong), List.takeWhile_append_of_pos
        (by intro c hc; simpa using hnul c (List.mem_of_mem_take hc)),
        List.take_append_of_le_length (by rw [List.length_take]; omega), List.take_take]
      rfl
  have hcopied : (stringAt tx M 10).take (min (stringAt tx M 10).length (spStringFieldLen - 1)) =
      msg.take 255 := by
    rw [← hstart, Nat.min_comm, ← List.take_eq_take_min]
    rfl
  refine ⟨{ tx with
    alertType := t
    alertExpiry := x
    alertText := msg.take 255 ++
      tx.alertText.drop (min (stringAt tx M 10).length (spStringFieldLen - 1)) }, ?_, rfl, rfl, rfl, rfl, ?_⟩
  · show interpretAlert big tx M = _
    have hpos : 1 ≤ ((pushString msg).take (sizeofPkt - 10)).length := by
      rw [List.length_take, pushString, List.length_append]
      exact Nat.le_min.mpr ⟨by decide, Nat.le_add_left 1 _⟩
    have hlen : 11 ≤ (wire16 t ++ (wire32 x ++ (pushString msg).take (sizeofPkt - 10))).length + 4 := by
      rw [List.length_append, List.length_append]
      show 11 ≤ 2 + (4 + _) + 4
      omega
    have hover : tx.isOverrun 10 = false := by
      rw [isOverrun, h.pktSize]
      exact decide_eq_false (by omega)
    rw [interpretAlert, if_neg (h.not_lt hlen)]
    show (if tx.isOverrun 10 = true then none else _) = _
    rw [hover, if_neg Bool.false_ne_true, ht, hx, hcopied]
  · show cString _ = some _
    have hmin : min (stringAt tx M 10).length (spStringFieldLen - 1) ≤ 255 := Nat.min_le_right _ _
    rw [h.alertText, List.drop_replicate]
    obtain ⟨n, hn⟩ : ∃ n, spStringFieldLen - min (stringAt tx M 10).length (spStringFieldLen - 1) = n + 1 :=
      ⟨_, (Nat.succ_pred_eq_of_pos (Nat.sub_pos_of_lt (Nat.lt_succ_of_le hmin))).symm⟩
    rw [hn, List.replicate_succ, cString, if_pos (by simp),
      takeWhile_nul _ fun c hc => hnul c (List.mem_of_mem_take hc)]

/-! ### Issuances -/

theorem Arrives.issuance {rest : List UInt8}
    (h : Arrives tx ver type (e :: (wire16 t ++ (wire32 p ++ rest)))) (big : Bool) (M : Memory) :
    (read8 tx.pkt 4 = e ∧ read16 big tx.pkt 5 = t ∧ read32 big tx.pkt 7 = p) ∧
      tx.pktSize = 11 + rest.length ∧ ∃ post, (tx.memory M).drop 11 = rest ++ post := by
  obtain ⟨post, hpkt⟩ := h.pkt
  have ht : read16 big tx.pkt 5 = t := by
    rw [hpkt]
    exact read16_at rfl
  have hp : read32 big tx.pkt 7 = p := by
    rw [hpkt]
    exact read32_at rfl
  refine ⟨⟨by rw [hpkt]; rfl, ht, hp⟩, ?_, post ++ M.afterPkt, ?_⟩
  · rw [h.pktSize, List.length_cons, List.length_append, List.length_append]
    show 2 + (4 + rest.length) + 1 + 4 = 11 + rest.length
    omega
  · rw [memory, hpkt, List.append_assoc, List.append_assoc, ← List.append_assoc rest]
    show rest ++ post ++ M.afterPkt = _
    rw [List.append_assoc]

/-- The six strings, of which the ticker may be written in another way than the others. -/
def issuanceStrings (c s n w u d : List UInt8) : List (List UInt8) := [cut c, cut s, cut n, w, cut u, cut d]

theorem issuanceStrings_nulFree {w : List UInt8}
    (h : ∀ x ∈ [c, s, n, w, u, d], ∀ b ∈ x, b ≠ 0) :
    ∀ x ∈ issuanceStrings c s n w u d, ∀ b ∈ x, b ≠ 0 := by
  have hcut : ∀ y ∈ [c, s, n, w, u, d], ∀ b ∈ cut y, b ≠ 0 := fun y hy b hb =>
    h y hy b (List.mem_of_mem_take (cut_eq y ▸ hb))
  intro x hx
  simp only [issuanceStrings, List.mem_cons, List.not_mem_nil, or_false] at hx
  rcases hx with rfl | rfl | rfl | rfl | rfl | rfl
  · exact hcut c (by simp)
  · exact hcut s (by simp)
  · exact hcut n (by simp)
  · exact h _ (by simp)
  · exact hcut u (by simp)
  · exact hcut d (by simp)

theorem carriesIssuance_read {w : List UInt8}
    {l : List (List UInt8)}
    (hhead : read8 tx.pkt 4 = e ∧ read16 big tx.pkt 5 = t ∧ read32 big tx.pkt 7 = p)
    (hw : w = k.take 255) (hnul : ∀ x ∈ [c, s, n, k, u, d], ∀ b ∈ x, b ≠ 0) :
    CarriesIssuance e t p c s n k u d
      (readIssuance big tx M (issuanceStrings c s n w u d ++ l)) := by
  have hcut : ∀ x ∈ [c, s, n, k, u, d], CarriesString x (copyString M (cut x)) := fun x hx => by
    rw [cut_eq]
    exact carriesString_copyString (hnul x hx)
  exact {
    ecosystem := hhead.1
    propType := hhead.2.1
    prevPropId := hhead.2.2
    category := hcut c (by simp)
    subcategory := hcut s (by simp)
    name := hcut n (by simp)
    ticker := by
      show CarriesString k (copyString M w)
      rw [hw]
      exact carriesString_copyString (hnul k (by simp))
    url := hcut u (by simp)
    data := hcut d (by simp) }

/-- All the strings of an issuance are read, and what is behind them is found. -/
theorem Arrives.strings {ss : List (List UInt8)} {tail : List UInt8}
    (h : Arrives tx ver type (e :: (wire16 t ++ (wire32 p ++ (ss.flatMap pushString ++ tail))))) (M : Memory)
    (hnul : ∀ x ∈ ss, ∀ b ∈ x, b ≠ 0) :
    readStrings tx M ss.length 11 = (ss, 11 + (ss.flatMap pushString).length) ∧
      tx.pktSize = 11 + (ss.flatMap pushString).length + tail.length ∧
      ∃ post, (tx.memory M).drop (11 + (ss.flatMap pushString).length) = tail ++ post := by
  obtain ⟨-, hsize, post, hdrop⟩ := h.issuance true M
  rw [List.append_assoc] at hdrop
  refine ⟨?_, ?_, post, ?_⟩
  · refine (readStrings_append ss 0 hdrop hnul).trans ?_
    rw [readStrings, List.append_nil]
  · rw [hsize, List.length_append, Nat.add_assoc]
  · rw [← List.drop_drop, hdrop, List.drop_left]

theorem not_overrun {pos : Nat} (h : tx.pktSize = pos) : ¬ tx.isOverrun pos = true := by
  simp [isOverrun, h]

theorem flatMap_pushString_length (ss : List (List UInt8)) : ss.length ≤ (ss.flatMap pushString).length := by
  induction ss with
  | nil => exact Nat.zero_le _
  | cons x ss ih =>
    rw [List.flatMap_cons, List.length_append, pushString, List.length_append, List.length_cons]
    show ss.length + 1 ≤ x.length + 1 + _
    omega

theorem decodes_issuanceFixed {y : UInt8} {r : List UInt8}
    (h : Arrives tx ver type (e :: (wire16 t ++ (wire32 p ++
      ((issuanceStrings c s n (cut k) u d ++ [cut r]).flatMap pushString ++ (wire64 a ++ [y]))))))
    (hnul : ∀ x ∈ [c, s, n, k, u, d, r], ∀ b ∈ x, b ≠ 0) :
    Decodes big M P tx (.issuanceFixed e t p c s n k u d a r y) := by
  obtain ⟨hhead, -, -⟩ := h.issuance big M
  have hsix : ∀ x ∈ [c, s, n, k, u, d], ∀ b ∈ x, b ≠ 0 := fun x hx =>
    hnul x (List.mem_append_left [r] hx)
  have hss : ∀ x ∈ issuanceStrings c s n (cut k) u d ++ [cut r], ∀ b ∈ x, b ≠ 0 := by
    intro x hx
    obtain ⟨x', hx', rfl⟩ : ∃ x' ∈ [c, s, n, k, u, d, r], cut x' = x := List.mem_map.mp hx
    exact fun b hb => hnul x' hx' b (List.mem_of_mem_take (cut_eq x' ▸ hb))
  obtain ⟨hread, hsize, post, hdrop⟩ := h.strings M hss
  have hseven := flatMap_pushString_length (issuanceStrings c s n (cut k) u d ++ [cut r])
  generalize (issuanceStrings c s n (cut k) u d ++ [cut r]).flatMap pushString = flat
    at h hread hsize hdrop hseven
  have ha : read64 big (tx.memory M) (11 + flat.length) = a :=
    read64_at (by rw [hdrop, List.append_assoc])
  have hy : read8 (tx.memory M) (11 + flat.length + 8) = y := by
    refine read8_at (l := post) ?_
    rw [← List.drop_drop, hdrop]
    rfl
  have hc := carriesIssuance_read (M := M) (l := [cut r]) hhead (cut_eq k) hsix
  refine ⟨{ readIssuance big tx M (issuanceStrings c s n (cut k) u d ++ [cut r]) with
    royaltiesReceiver := copyString M (cut r), nValue := a, nNewValue := a, royaltiesPercentage := y },
    ?_, rfl, rfl, { hc with }, ⟨rfl, rfl⟩, ?_, rfl⟩
  · show interpretCreatePropertyFixed big tx M = _
    have hlen : ¬ tx.pktSize < 25 := by
      have hseven : 7 ≤ flat.length := hseven
      rw [hsize]
      show ¬ 11 + flat.length + 9 < 25
      omega
    have hread : readStrings tx M 7 11 = _ := hread
    rw [interpretCreatePropertyFixed, if_neg hlen, hread]
    refine (if_neg (not_overrun hsize)).trans ?_
    show some { readIssuance big tx M (issuanceStrings c s n (cut k) u d ++ [cut r]) with
      royaltiesReceiver := copyString M (cut r)
      nValue := read64 big (tx.memory M) (11 + flat.length)
      nNewValue := read64 big (tx.memory M) (11 + flat.length)
      royaltiesPercentage := read8 (tx.memory M) (11 + flat.length + 8) } = _
    rw [ha, hy]
  · show CarriesString r (copyString M (cut r))
    rw [cut_eq]
    exact carriesString_copyString (hnul r (by simp))

theorem decodes_issuanceVariable {b i : UInt8} {q : UInt32}
    {l : UInt64}
    (h : Arrives tx ver type (e :: (wire16 t ++ (wire32 p ++ ((issuanceStrings c s n k u d).flatMap pushString ++
      (wire32 q ++ (wire64 a ++ (wire64 l ++ [b, i]))))))))
    (hnul : ∀ x ∈ [c, s, n, k, u, d], ∀ b ∈ x, b ≠ 0) (hk : k.length ≤ 255) :
    Decodes big M P tx (.issuanceVariable e t p c s n k u d q a l b i) := by
  obtain ⟨hhead, -, -⟩ := h.issuance big M
  obtain ⟨hread, hsize, post, hdrop⟩ := h.strings M (issuanceStrings_nulFree hnul)
  have hsix := flatMap_pushString_length (issuanceStrings c s n k u d)
  generalize (issuanceStrings c s n k u d).flatMap pushString = flat at h hread hsize hdrop hsix
  have hq : read32 big (tx.memory M) (11 + flat.length) = q :=
    read32_at (l := (wire64 a ++ (wire64 l ++ [b, i])) ++ post) (by rw [hdrop, List.append_assoc])
  have ha : read64 big (tx.memory M) (11 + flat.length + 4) = a := by
    refine read64_at (l := (wire64 l ++ [b, i]) ++ post) ?_
    rw [← List.drop_drop, hdrop]
    rfl
  have hl : read64 big (tx.memory M) (11 + flat.length + 12) = l := by
    refine read64_at (l := [b, i] ++ post) ?_
    rw [← List.drop_drop, hdrop]
    rfl
  have hb : read8 (tx.memory M) (11 + flat.length + 20) = b := by
    refine read8_at (l := i :: post) ?_
    rw [← List.drop_drop, hdrop]
    rfl
  have hi : read8 (tx.memory M) (11 + flat.length + 21) = i := by
    refine read8_at (l := post) ?_
    rw [← List.drop_drop, hdrop]
    rfl
  have hc := carriesIssuance_read (M := M) (l := []) hhead (List.take_of_length_le hk).symm hnul
  rw [List.append_nil] at hc
  refine ⟨{ readIssuance big tx M (issuanceStrings c s n k u d) with
    property := q, nValue := a, nNewValue := a, deadline := l, earlyBird := b, percentage := i },
    ?_, rfl, rfl, { hc with }, ⟨rfl, rfl, rfl⟩, rfl, rfl, rfl⟩
  show interpretCreatePropertyVariable big tx M = _
  have hlen : ¬ tx.pktSize < 39 := by
    have hsix : 6 ≤ flat.length := hsix
    rw [hsize]
    show ¬ 11 + flat.length + 22 < 39
    omega
  have hread : readStrings tx M 6 11 = _ := hread
  rw [interpretCreatePropertyVariable, if_neg hlen, hread]
  refine (if_neg (not_overrun hsize)).trans ?_
  show some { readIssuance big tx M (issuanceStrings c s n k u d) with
    property := read32 big (tx.memory M) (11 + flat.length)
    nValue := read64 big (tx.memory M) (11 + flat.length + 4)
    nNewValue := read64 big (tx.memory M) (11 + flat.length + 4)
    deadline := read64 big (tx.memory M) (11 + flat.length + 12)
    earlyBird := read8 (tx.memory M) (11 + flat.length + 20)
    percentage := read8 (tx.memory M) (11 + flat.length + 21) } = _
  rw [hq, ha, hl, hb, hi]

theorem decodes_issuanceManaged
    (h : Arrives tx ver type (e :: (wire16 t ++ (wire32 p ++ (issuanceStrings c s n k u d).flatMap pushString))))
    (hnul : ∀ x ∈ [c, s, n, k, u, d], ∀ b ∈ x, b ≠ 0) (hk : k.length ≤ 255) :
    Decodes big M P tx (.issuanceManaged e t p c s n k u d) := by
  obtain ⟨hhead, -, -⟩ := h.issuance big M
  rw [← List.append_nil ((issuanceStrings c s n k u d).flatMap pushString)] at h
  obtain ⟨hread, hsize, -⟩ := h.strings M (issuanceStrings_nulFree hnul)
  have hsix := flatMap_pushString_length (issuanceStrings c s n k u d)
  have hc := carriesIssuance_read (M := M) (l := []) hhead (List.take_of_length_le hk).symm hnul
  rw [List.append_nil] at hc
  refine ⟨readIssuance big tx M (issuanceStrings c s n k u d), ?_, rfl, rfl, hc⟩
  show interpretCreatePropertyManaged big tx M = _
  have hlen : ¬ tx.pktSize < 17 := by
    have hsix : 6 ≤ ((issuanceStrings c s n k u d).flatMap pushString).length := hsix
    rw [hsize]
    omega
  have hread : readStrings tx M 6 11 = _ := hread
  rw [interpretCreatePropertyManaged, if_neg hlen, hread]
  exact if_neg (not_overrun hsize)

/-! ### Tickers that are not cut -/

/-- A string of 256 bytes or more fills its array, and the array then holds none. -/
theorem cString_long (hlong : 256 ≤ s.length) (hnul : ∀ c ∈ s.take 256, c ≠ 0) :
    cString (copyString M s) = none := by
  rw [copyString, show spStringFieldLen = 256 from rfl, List.take_append_of_le_length hlong, cString,
    if_neg fun h => hnul 0 h rfl]

/-- Where the ticker is longer than 255 bytes, its array holds no string. The
strings before it are short, so that 256 of its bytes are in the packet, however
long it is. -/
theorem longTicker_lost {tail : List UInt8}
    (h : Arrives tx ver type ((e :: (wire16 t ++ (wire32 p ++
      ((issuanceStrings c s n k u d).flatMap pushString ++ tail)))).take (sizeofPkt - 4)))
    (hnul : ∀ x ∈ [c, s, n, k, u, d], ∀ b ∈ x, b ≠ 0) (hk : 255 < k.length) :
    cString (copyString M ((readStrings tx M 6 11).1.getD 3 [])) = none := by
  have hthree : ∀ x ∈ [cut c, cut s, cut n], ∀ b ∈ x, b ≠ 0 := fun x hx =>
    issuanceStrings_nulFree hnul x (List.mem_append_left [k, cut u, cut d] hx)
  have hshort : ([cut c, cut s, cut n].flatMap pushString).length ≤ 768 := by
    have hc := cut_length c
    have hs := cut_length s
    have hn := cut_length n
    simp only [List.flatMap_cons, List.flatMap_nil, List.length_append, pushString, List.length_cons,
      List.length_nil]
    omega
  have hsplit : (issuanceStrings c s n k u d).flatMap pushString ++ tail =
      [cut c, cut s, cut n].flatMap pushString ++ (k ++ ([0] ++ ([cut u, cut d].flatMap pushString ++ tail))) := by
    simp [issuanceStrings, pushString]
  rw [hsplit] at h
  generalize [0] ++ ([cut u, cut d].flatMap pushString ++ tail) = behind at h
  have hcut : (e :: (wire16 t ++ (wire32 p ++
      ([cut c, cut s, cut n].flatMap pushString ++ (k ++ behind))))).take (sizeofPkt - 4) =
      e :: (wire16 t ++ (wire32 p ++
        ([cut c, cut s, cut n].flatMap pushString ++ (k ++ behind)).take (sizeofPkt - 11))) := rfl
  rw [hcut] at h
  obtain ⟨-, -, post, hdrop⟩ := h.issuance true M
  rw [List.take_append, List.take_of_length_le (Nat.le_trans hshort (by decide)), List.append_assoc] at hdrop
  have hread := readStrings_append [cut c, cut s, cut n] 3 hdrop hthree
  have hbehind : (tx.memory M).drop (11 + ([cut c, cut s, cut n].flatMap pushString).length) =
      (k ++ behind).take (sizeofPkt - 11 - ([cut c, cut s, cut n].flatMap pushString).length) ++ post := by
    rw [← List.drop_drop, hdrop, List.drop_left]
  generalize ([cut c, cut s, cut n].flatMap pushString).length = three at hread hbehind hshort
  -- the first 256 bytes that are found there are the ticker's
  have hstart : ∃ rest, (k ++ behind).take (sizeofPkt - 11 - three) ++ post = k.take 256 ++ rest := by
    have hroom : 256 ≤ sizeofPkt - 11 - three := by
      rw [sizeofPkt, maxPackets, packetSize]
      omega
    obtain ⟨room, hroom⟩ := Nat.exists_eq_add_of_le hroom
    refine ⟨(k.drop 256 ++ behind).take room ++ post, ?_⟩
    have hticker : k ++ behind = k.take 256 ++ (k.drop 256 ++ behind) := by
      rw [← List.append_assoc, List.take_append_drop]
    rw [hticker, hroom, List.take_append, List.length_take, Nat.min_eq_left (by omega), Nat.add_sub_cancel_left,
      List.take_of_length_le (by rw [List.length_take]; omega), List.append_assoc]
  obtain ⟨rest, hrest⟩ := hstart
  have hticker : ∀ b ∈ k.take 256, b ≠ 0 := fun b hb => hnul k (by simp) b (List.mem_of_mem_take hb)
  have hstring : stringAt tx M (11 + three) = k.take 256 ++ rest.takeWhile (· ≠ 0) := by
    rw [stringAt, hbehind, hrest, List.takeWhile_append_of_pos (by simpa using hticker)]
  have hfourth : (readStrings tx M 6 11).1.getD 3 [] = k.take 256 ++ rest.takeWhile (· ≠ 0) := by
    rw [show readStrings tx M 6 11 = _ from hread]
    exact hstring
  rw [hfourth]
  refine cString_long ?_ ?_
  · rw [List.length_append, List.length_take]
    omega
  · rw [List.take_left' (by rw [List.length_take]; omega)]
    exact hticker

theorem ticker_of_variable {tx' : CMPTransaction} (h : interpretCreatePropertyVariable big tx M = some tx') :
    tx'.ticker = copyString M ((readStrings tx M 6 11).1.getD 3 []) := by
  rw [interpretCreatePropertyVariable] at h
  by_cases hsize : tx.pktSize < 39
  · rw [if_pos hsize] at h
    cases h
  · rw [if_neg hsize] at h
    by_cases hover : tx.isOverrun ((readStrings tx M 6 11).2 + 22) = true
    · exact absurd ((if_pos hover).symm.trans h) (Option.some_ne_none _).symm
    · rw [← Option.some.inj ((if_neg hover).symm.trans h)]
      rfl

theorem ticker_of_managed {tx' : CMPTransaction} (h : interpretCreatePropertyManaged big tx M = some tx') :
    tx'.ticker = copyString M ((readStrings tx M 6 11).1.getD 3 []) := by
  rw [interpretCreatePropertyManaged] at h
  by_cases hsize : tx.pktSize < 17
  · rw [if_pos hsize] at h
    cases h
  · rw [if_neg hsize] at h
    by_cases hover : tx.isOverrun (readStrings tx M 6 11).2 = true
    · exact absurd ((if_pos hover).symm.trans h) (Option.some_ne_none _).symm
    · rw [← Option.some.inj ((if_neg hover).symm.trans h)]
      rfl

/-! ### Every message -/

theorem flatMap_pushString_le {ss : List (List UInt8)} (h : ∀ x ∈ ss, x.length ≤ 255) :
    (ss.flatMap pushString).length ≤ ss.length * 256 := by
  induction ss with
  | nil => exact Nat.le_refl 0
  | cons x ss ih =>
    have hx := h x (.head _)
    have hrest := ih fun y hy => h y (List.mem_cons_of_mem x hy)
    rw [List.flatMap_cons, List.length_append, pushString, List.length_append]
    show x.length + 1 + _ ≤ (ss.length + 1) * 256
    omega

theorem issuanceStrings_short (hk : k.length ≤ 255) :
    ∀ x ∈ issuanceStrings c s n k u d, x.length ≤ 255 := by
  intro x hx
  simp only [issuanceStrings, List.mem_cons, List.not_mem_nil, or_false] at hx
  rcases hx with rfl | rfl | rfl | rfl | rfl | rfl
  · exact cut_length c
  · exact cut_length s
  · exact cut_length n
  · exact hk
  · exact cut_length u
  · exact cut_length d

end

/-- What a message must be for its strings to come back: a ticker that is not cut
is no longer than one that is, and an address is the address of a key or a script. -/
def Message.Kept (P : AddressParams) : Message → Prop
  | .issuanceVariable _ _ _ _ _ _ k _ _ _ _ _ _ _ => k.length ≤ 255
  | .issuanceManaged _ _ _ _ _ _ k _ _ => k.length ≤ 255
  | .freezeTokens _ _ s => TokenAddress P s
  | .unfreezeTokens _ _ s => TokenAddress P s
  | _ => True

section
variable (tx₀ : CMPTransaction) (s r : List UInt8) (isBigEndian : Bool) (M : Memory) (P : AddressParams)

theorem RoundTrips.of_fits {m : Message} (hfit : m.body.length ≤ sizeofPkt - 4)
    (h : ∀ tx, Arrives tx m.version m.type m.body → Decodes isBigEndian M P tx m) :
    RoundTrips tx₀ s r isBigEndian M P m :=
  (roundTrips_iff tx₀ s r isBigEndian M P).mpr (h _ (arrives_of_fits tx₀ s r isBigEndian hfit))

theorem property_fits (p : UInt32) : (wire32 p).length ≤ sizeofPkt - 4 := Nat.le_of_ble_eq_true rfl

theorem memo_fits (p : UInt32) (a : UInt64) (m : List UInt8) :
    (wire32 p ++ (wire64 a ++ pushString (cut m))).length ≤ sizeofPkt - 4 := by
  have hm := cut_length m
  rw [List.length_append, List.length_append, pushString, List.length_append]
  show 4 + (8 + ((cut m).length + 1)) ≤ 7902
  omega

theorem outputs_fit (p : UInt32) (os : List (UInt8 × UInt64)) :
    (Message.sendToMany p os).body.length ≤ sizeofPkt - 4 := by
  have hlen : (cutOutputs os).length ≤ 255 := by
    rw [cutOutputs_eq]
    exact List.length_take_le 255 os
  show (wire32 p ++ (_ :: wireOutputs (cutOutputs os))).length ≤ 7902
  rw [List.length_append, List.length_cons, wireOutputs_length]
  show 4 + (_ + 1) ≤ 7902
  omega

theorem owners_fit (p d : UInt32) (a : UInt64) : (Message.sendToOwners p a d).body.length ≤ sizeofPkt - 4 := by
  show (wire32 p ++ (wire64 a ++ if p = d then [] else wire32 d)).length ≤ sizeofPkt - 4
  by_cases h : p = d
  · rw [if_pos h]
    exact Nat.le_of_ble_eq_true rfl
  · rw [if_neg h]
    exact Nat.le_of_ble_eq_true rfl

theorem issuance_fits {ss : List (List UInt8)} {tail : List UInt8}
    (hshort : ∀ x ∈ ss, x.length ≤ 255) (hseven : ss.length ≤ 7) (htail : tail.length ≤ 22) :
    (e :: (wire16 t ++ (wire32 p ++ (ss.flatMap pushString ++ tail)))).length ≤ sizeofPkt - 4 := by
  have hflat := flatMap_pushString_le hshort
  rw [List.length_cons, List.length_append, List.length_append, List.length_append]
  show 2 + (4 + ((ss.flatMap pushString).length + tail.length)) + 1 ≤ 7902
  omega

/-- An issuance whose ticker is not cut comes back if its ticker is short enough. -/
theorem roundTrips_variable {b i : UInt8} {q : UInt32} {s' : List UInt8}
    {l : UInt64} (hnul : ∀ x ∈ [c, s', n, k, u, d], ∀ b ∈ x, b ≠ 0) :
    RoundTrips tx₀ s r isBigEndian M P (.issuanceVariable e t p c s' n k u d q a l b i) ↔ k.length ≤ 255 := by
  constructor
  · intro h
    by_contra hk
    obtain ⟨tx', hdec, -, -, hfields⟩ := (roundTrips_iff tx₀ s r isBigEndian M P).mp h
    have hlost := longTicker_lost (M := M) (arrives tx₀ s r isBigEndian
      (.issuanceVariable e t p c s' n k u d q a l b i)) hnul (Nat.lt_of_not_le hk)
    have hticker : CarriesString k tx'.ticker := hfields.1.ticker
    rw [CarriesString, ticker_of_variable hdec, hlost] at hticker
    cases hticker
  · intro hk
    exact .of_fits _ _ _ _ _ _ (issuance_fits (issuanceStrings_short hk) (Nat.le_of_ble_eq_true rfl) (Nat.le_of_ble_eq_true rfl))
      fun _ h => decodes_issuanceVariable h hnul hk

theorem roundTrips_managed {s' : List UInt8}
    (hnul : ∀ x ∈ [c, s', n, k, u, d], ∀ b ∈ x, b ≠ 0) :
    RoundTrips tx₀ s r isBigEndian M P (.issuanceManaged e t p c s' n k u d) ↔ k.length ≤ 255 := by
  constructor
  · intro h
    by_contra hk
    obtain ⟨tx', hdec, -, -, hfields⟩ := (roundTrips_iff tx₀ s r isBigEndian M P).mp h
    have harr := arrives tx₀ s r isBigEndian (.issuanceManaged e t p c s' n k u d)
    rw [show (Message.issuanceManaged e t p c s' n k u d).body = e :: (wire16 t ++ (wire32 p ++
      ((issuanceStrings c s' n k u d).flatMap pushString ++ []))) by rw [List.append_nil]; rfl] at harr
    have hlost := longTicker_lost (M := M) harr hnul (Nat.lt_of_not_le hk)
    have hticker : CarriesString k tx'.ticker := hfields.ticker
    rw [CarriesString, ticker_of_managed hdec, hlost] at hticker
    cases hticker
  · intro hk
    have hfit : (e :: (wire16 t ++ (wire32 p ++ ((issuanceStrings c s' n k u d).flatMap pushString ++ [])))).length ≤
        sizeofPkt - 4 :=
      issuance_fits (issuanceStrings_short hk) (Nat.le_of_ble_eq_true rfl) (Nat.zero_le _)
    rw [List.append_nil] at hfit
    exact .of_fits _ _ _ _ _ _ hfit fun _ h => decodes_issuanceManaged h hnul hk

theorem readAddress_iff (m : Message) {address : List UInt8}
    (hbody : m.body = wire32 p ++ (wire64 a ++ addressToBytes address)) (hnul : ∀ c ∈ address, c ≠ 0) :
    (∃ tx', readAddress isBigEndian (arrived tx₀ s r (createPayload isBigEndian m) m.version m.type) P = some tx' ∧
      tx'.type = m.type.toUInt32 ∧ tx'.version = m.version ∧ CarriesValue p a tx' ∧
        tx'.receiver = address.take 255) ↔ TokenAddress P address := by
  have harr := arrives tx₀ s r isBigEndian m
  rw [hbody] at harr
  have hcut : (wire32 p ++ (wire64 a ++ addressToBytes address)).take (sizeofPkt - 4) =
      wire32 p ++ (wire64 a ++ (addressToBytes address).take (sizeofPkt - 16)) := rfl
  rw [hcut] at harr
  refine Arrives.address harr ?_ hnul
  rw [List.take_take]
  rfl

/-- **Payloads come back.** For every message without NULs in its strings, on any
host and whatever is in memory around the packet: the decoder gives back the
type, the version, the integers and the first 255 bytes of each string exactly
when the message is one that is kept. -/
theorem payload_round_trip {m : Message} (hnul : m.NulFree) :
    RoundTrips tx₀ s r isBigEndian M P m ↔ m.Kept P := by
  have fixed : ∀ {m : Message}, m.body.length ≤ sizeofPkt - 4 →
      (∀ tx, Arrives tx m.version m.type m.body → Decodes isBigEndian M P tx m) →
      (RoundTrips tx₀ s r isBigEndian M P m ↔ True) := fun hfit h =>
    iff_of_true (RoundTrips.of_fits tx₀ s r isBigEndian M P hfit h) trivial
  cases m with
  | simpleSend p a => exact fixed (Nat.le_of_ble_eq_true rfl) fun _ h => decodes_simpleSend h
  | sendToMany p os => exact fixed (outputs_fit p os) fun _ h => decodes_sendToMany h
  | rapidsPayment hash =>
    refine fixed ?_ fun _ h => decodes_rapidsPayment h
    show (pushString hash.getHex).length ≤ 7902
    rw [pushString, List.length_append, hash.getHex_length]
    decide
  | sendAll e => exact fixed (Nat.le_of_ble_eq_true rfl) fun _ h => decodes_sendAll h
  | sendToOwners p a d => exact fixed (owners_fit p d a) fun _ h => decodes_sendToOwners h
  | dExSell p a d t f b => exact fixed (Nat.le_of_ble_eq_true rfl) fun _ h => decodes_dExSell h
  | dExAccept p a => exact fixed (Nat.le_of_ble_eq_true rfl) fun _ h => decodes_dExAccept h
  | metaDExTrade p a q d => exact fixed (Nat.le_of_ble_eq_true rfl) fun _ h => h.trade 1
  | metaDExCancelPrice p a q d => exact fixed (Nat.le_of_ble_eq_true rfl) fun _ h => h.trade 2
  | metaDExCancelPair p q => exact fixed (Nat.le_of_ble_eq_true rfl) fun _ h => decodes_metaDExCancelPair h
  | metaDExCancelEcosystem e =>
    exact fixed (Nat.le_of_ble_eq_true rfl) fun _ h => decodes_metaDExCancelEcosystem h
  | issuanceFixed e t p c s' n k u d a r' y =>
    have hshort : ∀ x ∈ issuanceStrings c s' n (cut k) u d ++ [cut r'], x.length ≤ 255 := fun x hx =>
      (List.mem_append.mp hx).elim (issuanceStrings_short (cut_length k) x)
        fun hr => List.mem_singleton.mp hr ▸ cut_length r'
    exact fixed (issuance_fits hshort (Nat.le_of_ble_eq_true rfl) (Nat.le_of_ble_eq_true rfl))
      fun _ h => decodes_issuanceFixed h hnul
  | issuanceVariable e t p c s' n k u d q a l b i => exact roundTrips_variable tx₀ s r isBigEndian M P hnul
  | issuanceManaged e t p c s' n k u d => exact roundTrips_managed tx₀ s r isBigEndian M P hnul
  | closeCrowdsale p => exact fixed (property_fits p) fun _ h => h.onlyProperty
  | grant p a m => exact fixed (memo_fits p a m) fun _ h => decodes_grant h
  | revoke p a m => exact fixed (memo_fits p a m) fun _ h => decodes_revoke h
  | changeIssuer p => exact fixed (property_fits p) fun _ h => h.onlyProperty
  | enableFreezing p => exact fixed (property_fits p) fun _ h => h.onlyProperty
  | disableFreezing p => exact fixed (property_fits p) fun _ h => h.onlyProperty
  | freezeTokens p a address =>
    rw [roundTrips_iff]
    exact readAddress_iff tx₀ s r isBigEndian P (.freezeTokens p a address) rfl
      (hnul address (List.mem_singleton_self _))
  | unfreezeTokens p a address =>
    rw [roundTrips_iff]
    exact readAddress_iff tx₀ s r isBigEndian P (.unfreezeTokens p a address) rfl
      (hnul address (List.mem_singleton_self _))
  | deactivateFeature f => exact fixed (Nat.le_of_ble_eq_true rfl) fun _ h => decodes_deactivateFeature h
  | activateFeature f b v => exact fixed (Nat.le_of_ble_eq_true rfl) fun _ h => decodes_activateFeature h
  | tokenCoreAlert t x msg =>
    refine iff_of_true ((roundTrips_iff tx₀ s r isBigEndian M P).mpr ?_) trivial
    exact (arrives tx₀ s r isBigEndian (.tokenCoreAlert t x msg)).alert
      (hnul msg (List.mem_singleton_self _))

end

/-! ### One ticker -/

/-- A network whose checksums are the data itself. -/
def plainAddresses : AddressParams where
  pubkeyAddress := 61
  scriptAddress := 6
  stakingAddress := 28
  script_ne_staking := by decide
  hash v := (v ++ List.replicate 32 0).take 32
  hash_length v := by
    rw [List.length_take, List.length_append, List.length_replicate]
    omega

/-- An issuance of managed tokens with nothing but a ticker. -/
def managedTicker (ticker : List UInt8) : Message := .issuanceManaged 1 1 0 [] [] [] ticker [] []

theorem managedTicker_nulFree {ticker : List UInt8} (h : ∀ c ∈ ticker, c ≠ 0) :
    (managedTicker ticker).NulFree := by
  intro x hx
  simp only [managedTicker, Message.strings, List.mem_cons, List.not_mem_nil, or_false] at hx
  rcases hx with rfl | rfl | rfl | rfl | rfl | rfl
  all_goals first | exact h | exact fun c hc => absurd hc List.not_mem_nil

/-- A transaction object with nothing in it. -/
def blankTransaction : CMPTransaction where
  pktSize := 0
  pkt := []
  sender := []
  receiver := []
  type := 0
  version := 0
  nValue := 0
  nNewValue := 0
  property := 0
  distributionProperty := 0
  ecosystem := 0
  propType := 0
  prevPropId := 0
  category := []
  subcategory := []
  name := []
  ticker := []
  url := []
  data := []
  royaltiesReceiver := []
  royaltiesPercentage := 0
  deadline := 0
  earlyBird := 0
  percentage := 0
  desiredProperty := 0
  desiredValue := 0
  action := 0
  amountDesired := 0
  blocktimelimit := 0
  minFee := 0
  subaction := 0
  numberOfSTMReceivers := 0
  outputValuesForSTM := []
  alertType := 0
  alertExpiry := 0
  alertText := []
  featureId := 0
  activationBlock := 0
  minClientVersion := 0
  linkedTxid := ⟨List.replicate 32 0, rfl⟩

/-- The ticker "ABC" comes back. -/
theorem payload_round_trip_short :
    RoundTrips blankTransaction [] [] false ⟨[], fun _ => []⟩ plainAddresses (managedTicker [65, 66, 67]) :=
  (payload_round_trip blankTransaction [] [] false ⟨[], fun _ => []⟩ plainAddresses
    (managedTicker_nulFree (by decide +kernel))).mpr (show [(65 : UInt8), 66, 67].length ≤ 255 by decide)

/-- A ticker of 256 bytes does not. -/
theorem long_ticker_lost :
    (managedTicker (List.replicate 256 65)).NulFree ∧
      ¬ RoundTrips blankTransaction [] [] false ⟨[], fun _ => []⟩ plainAddresses
        (managedTicker (List.replicate 256 65)) := by
  have hnul : (managedTicker (List.replicate 256 65)).NulFree :=
    managedTicker_nulFree fun c hc => by rw [List.eq_of_mem_replicate hc]; decide
  refine ⟨hnul, fun h => ?_⟩
  have hk := (roundTrips_managed blankTransaction [] [] false ⟨[], fun _ => []⟩ plainAddresses hnul).mp h
  rw [List.length_replicate] at hk
  exact absurd hk (by decide)

end Rapids.Payload
