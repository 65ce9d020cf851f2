import Rapids.Payload.MarkerSearch
import Rapids.Payload.WalletTxSound

/-!
# Rapids.Payload.Embedding

**What is embedded is recovered** (`TokenCore_Encode_ClassB`, `TokenCore_Encode_ClassC`,
and `parseTransaction`).

In class B the packets of a transaction are the keys of its multisig outputs but for the
first of each. Read one after another they are the keys that the encoder has made, and
there is a hash for each as long as the payload has 7650 bytes at most. The padding of
the last packet is kept: a payload comes back with zeros up to a multiple of thirty.

In class C the pushes of all tagged outputs are collected, and copied one by one into a
buffer until it is full. `copyPayload` is that loop; what it leaves in the buffer is
the beginning of everything that was pushed (`copyPayload_eq`). Such outputs count only
from a height on, which a feature activation sets.
-/

namespace Rapids.Payload

open Rapids.Lib Rapids.Chain

/-- The parser finds a sender behind the inputs. -/
def SentBy (N : TokenNetwork) (D : ParseContext) (tx : Transaction) (encodingClass : EncodingClass)
    (sender : List UInt8) : Prop :=
  ∃ spent, (tx.vin.mapM fun i => D.view i.prevout) = some spent ∧
    identifySender N encodingClass spent = .ok sender ∧ sender ≠ []

/-! ### Class B -/

section ClassB

variable {N : TokenNetwork} {E : Entropy} {D : ParseContext} {tx : Transaction} {nBlock idx nTime : Nat}
  {sender redeem payload : List UInt8}

/-- A payload as its packets hold it: with zeros up to a multiple of thirty bytes. -/
def padded (payload : List UInt8) : List UInt8 :=
  payload ++ List.replicate (30 * packetCount payload.length - payload.length) 0

theorem encodeClassB_scripts {minRelayTxFee : FeeRate} {vout : List TxOut}
    (h : encodeClassB N minRelayTxFee E sender redeem payload = some vout) :
    vout.map TxOut.scriptPubKey =
      (multisigKeys N E sender redeem payload.length 0 payload).map (getScriptForMultisig 1) ++
        [getScriptForDestination N.exodusAddress] := by
  rw [encodeClassB] at h
  split_ifs at h
  rw [← Option.some.inj h, List.map_map]
  exact List.map_id _

theorem parseClassB_padded {vout : List TxOut} (hredeem : validPubKeySize redeem = true)
    (hsize : payload.length ≤ 7650)
    (hscripts : vout.map TxOut.scriptPubKey =
      (multisigKeys N E sender redeem payload.length 0 payload).map (getScriptForMultisig 1) ++
        [getScriptForDestination N.exodusAddress]) :
    parseClassB N sender vout = padded payload := by
  have hmax : maxPackets = 255 := rfl
  have hcount : packetCount payload.length ≤ maxPackets := by
    rw [packetCount]
    omega
  have hlen : (dataKeys N E sender redeem payload.length 0 payload).length = packetCount payload.length :=
    dataKeys_length le_rfl
  rw [parseClassB, pushes_of_classB hredeem hscripts, List.flatMap_nil, List.append_nil,
    List.take_of_length_le (by omega), decodePackets_congr fun j _ hj => prepareObfuscatedHashes_eq (by omega),
    decodePackets_dataKeys le_rfl (by omega), padded]

/-- Outputs of class B without a payload are the Exodus output alone: class A, without data. -/
theorem parseTransaction_bare (idx nTime : Nat)
    (hscripts : tx.vout.map TxOut.scriptPubKey = [getScriptForDestination N.exodusAddress])
    (hsent : SentBy N D tx .classB sender) :
    ∃ mp, parseTransaction N D tx nBlock idx nTime = .ok (1, mp) ∧ mp.pkt = [] := by
  obtain ⟨spent, hspent, hsender, hne⟩ := hsent
  have hexodus : N.exodusAddress ≠ .none := by
    rw [TokenNetwork.exodusAddress]
    exact Destination.noConfusion
  obtain ⟨⟨t, ht, htne⟩, hmarked, -, hpaid⟩ := @address_seen N D.nulldataBlock nBlock _ hexodus
  have hmem : getScriptForDestination N.exodusAddress ∈ tx.vout.map TxOut.scriptPubKey := by
    rw [hscripts]
    exact .head _
  have hany : ∀ p : Script → Bool, (tx.vout.any fun o => p o.scriptPubKey) =
      p (getScriptForDestination N.exodusAddress) := by
    intro p
    have hmap : (tx.vout.any fun o => p o.scriptPubKey) = (tx.vout.map TxOut.scriptPubKey).any p := by
      rw [List.any_map]
      rfl
    rw [hmap, hscripts, List.any_cons, List.any_nil, Bool.or_false]
  have hclass : getEncodingClass N D.nulldataBlock tx.vout nBlock = .classA := by
    have hpays : paysExodus N D.nulldataBlock nBlock (getScriptForDestination N.exodusAddress) = true := by
      rw [paysExodus, countedType, TokenNetwork.exodusAddress, safeSolver_keyID, extractDestination_keyID]
      simp [Option.filter, isAllowedOutputType]
    rw [getEncodingClass_of_examined (examineClosely_of_exodus hmem), examineOutputs, foldl_examineOutput,
      hany (paysExodus N D.nulldataBlock nBlock), hany (isMarked D.nulldataBlock nBlock),
      hany fun s => decide (countedType D.nulldataBlock nBlock s = some .multisig), hmarked, hpays, ht,
      decide_eq_false (fun h => htne (Option.some.inj h))]
    rfl
  have houts : addressOutputs N D.nulldataBlock nBlock tx.vout = [] := by
    have haddresses := addressOutputs_address N D.nulldataBlock nBlock tx.vout
    rw [hscripts, List.filterMap_cons, hpaid, if_pos rfl, List.filterMap_nil] at haddresses
    exact List.map_eq_nil_iff.mp haddresses
  have hsender' : identifySender N .classA spent = .ok sender := by
    simpa [identifySender] using hsender
  rw [parseTransaction, hclass, houts]
  rw [if_neg (by decide), hspent]
  dsimp only
  rw [hsender']
  dsimp only
  rw [if_neg hne, if_pos rfl]
  exact ⟨_, rfl, rfl⟩

/-- **Class B round trip**: a payload comes back padded. -/
theorem class_b_round_trip (minRelayTxFee : FeeRate) (E : Entropy) (nBlock idx nTime : Nat)
    (hredeem : validPubKeySize redeem = true) (hlength : sender.length < 128) (hsize : payload.length ≤ 7650)
    (hsent : SentBy N D tx .classB sender) :
    ∃ vout, encodeClassB N minRelayTxFee E sender redeem payload = some vout ∧
      (tx.vout = vout →
        (payload ≠ [] → getEncodingClass N D.nulldataBlock tx.vout nBlock = .classB) ∧
        ∃ rc mp, parseTransaction N D tx nBlock idx nTime = .ok (rc, mp) ∧ mp.pkt = padded payload) := by
  have hencode : ∃ vout, encodeClassB N minRelayTxFee E sender redeem payload = some vout := by
    rw [encodeClassB, if_neg (by omega)]
    exact ⟨_, rfl⟩
  obtain ⟨vout, hvout⟩ := hencode
  refine ⟨vout, hvout, fun htx => ?_⟩
  have hscripts := encodeClassB_scripts hvout
  rw [← htx] at hscripts
  by_cases hnil : payload = []
  · -- no packets: the Exodus output alone
    rw [multisigKeys_ne_nil.mpr hnil, List.map_nil, List.nil_append] at hscripts
    have hbare : ∃ mp, parseTransaction N D tx nBlock idx nTime = .ok (1, mp) ∧ mp.pkt = [] :=
      parseTransaction_bare idx nTime hscripts hsent
    obtain ⟨mp, hparse, hpkt⟩ := hbare
    refine ⟨fun h => absurd hnil h, 1, mp, hparse, ?_⟩
    rw [hpkt, hnil]
    rfl
  · have hclass : getEncodingClass N D.nulldataBlock tx.vout nBlock = .classB := by
      refine ((classB_iff hredeem hscripts).mpr ⟨.inl hnil, hsize, ?_, ?_⟩).1
      · intro s hs
        cases hs
      · intro b hb
        rw [List.flatMap_nil, List.take_nil] at hb
        cases hb
    obtain ⟨spent, hspent, hsender, hne⟩ := hsent
    obtain ⟨mp, hparse, -, -, -, hpkt⟩ :=
      parseTransaction_eq (N := N) (D := D) idx nTime (.inl rfl) hclass hspent hsender hne
    refine ⟨fun _ => hclass, 0, mp, hparse, ?_⟩
    rw [hpkt, if_pos rfl, parseClassB_padded hredeem hsize hscripts]

end ClassB

/-- A chain in which every output before the transaction pays the first address. -/
def payerContext (nulldataBlock : Nat) : ParseContext where
  nulldataBlock := nulldataBlock
  feeScript := getScriptForDestination (walletKey 9)
  view _ := some ⟨50000, getScriptForDestination (walletKey 1)⟩

/-- The address that pays. -/
def payer : List UInt8 := plainNetwork.encode (walletKey 1)

/-- A transaction with these outputs. -/
def embedded (vout : Option (List TxOut)) : Transaction where
  hash := 78
  vin := [⟨⟨77, 0⟩, []⟩]
  vout := vout.getD []

/-- A key that can spend the outputs of class B. -/
def redeemingKey : List UInt8 := 2 :: List.replicate 32 1

theorem payer_facts :
    payer.length < 128 ∧ payer ≠ [] ∧
      identifySender plainNetwork .classB [⟨50000, getScriptForDestination (walletKey 1)⟩] = .ok payer ∧
      identifySender plainNetwork .classC [⟨50000, getScriptForDestination (walletKey 1)⟩] = .ok payer := by
  decide +kernel

/-- Three bytes come back as thirty. -/
theorem class_b_round_trip_three :
    ∃ vout, encodeClassB plainNetwork (10000 : Int) ⟨fun _ => 0, fun _ => 0⟩ payer redeemingKey [1, 2, 3] = some vout ∧
      getEncodingClass plainNetwork 0 vout 100 = .classB ∧
      ∃ rc mp, parseTransaction plainNetwork (payerContext 0) (embedded (some vout)) 100 0 0 = .ok (rc, mp) ∧
        mp.pkt = [1, 2, 3] ++ List.replicate 27 0 := by
  obtain ⟨hlength, hne, hsender, -⟩ := payer_facts
  obtain ⟨vout, hvout, hread⟩ := @class_b_round_trip plainNetwork (payerContext 0)
    (embedded (encodeClassB plainNetwork (10000 : Int) ⟨fun _ => 0, fun _ => 0⟩ payer redeemingKey [1, 2, 3]))
    payer redeemingKey [1, 2, 3] (10000 : Int) ⟨fun _ => 0, fun _ => 0⟩ 100 0 0 (by decide)
    hlength (by decide) ⟨_, rfl, hsender, hne⟩
  rw [hvout] at hread
  obtain ⟨hclass, rc, mp, hparse, hpkt⟩ := hread rfl
  exact ⟨vout, hvout, hclass (by decide), rc, mp, hparse, hpkt⟩

/-! ### Class C -/

section ClassC

/-- The pushes of the tagged outputs, without the markers: `op_return_script_data`. -/
def opReturnScriptData (nulldataBlock nBlock : Nat) (vout : List TxOut) : List (List UInt8) :=
  vout.flatMap fun o =>
    if isMarked nulldataBlock nBlock o.scriptPubKey then (carriedPushes o.scriptPubKey).getD [] else []

/-- The loop that extracts the payload of class C: what is in the buffer, once the pushes are copied
behind what is there. -/
def copyPayload : List (List UInt8) → List UInt8 → List UInt8
  | [], packet => packet
  | vch :: rest, packet =>
    if vch = [] then copyPayload rest packet
    else
      -- limit the payload size
      let payloadSize :=
        if maxPackets * packetSize < packet.length + vch.length then maxPackets * packetSize - packet.length
        else vch.length
      let packet := packet ++ vch.take payloadSize
      if maxPackets * packetSize = packet.length then packet else copyPayload rest packet

/-- **The copied payload** is the beginning of what was pushed. -/
theorem copyPayload_eq {pushes : List (List UInt8)} {packet : List UInt8}
    (h : packet.length ≤ maxPackets * packetSize) :
    copyPayload pushes packet = (packet ++ pushes.flatten).take (maxPackets * packetSize) := by
  induction pushes generalizing packet with
  | nil => rw [copyPayload, List.flatten_nil, List.append_nil, List.take_of_length_le h]
  | cons vch rest ih =>
    rw [copyPayload]
    by_cases hempty : vch = []
    · rw [if_pos hempty, ih h, hempty, List.flatten_cons, List.nil_append]
    · rw [if_neg hempty]
      dsimp only
      by_cases hover : maxPackets * packetSize < packet.length + vch.length
      · -- the buffer is filled, and the loop ends
        have hfull : (packet ++ vch.take (maxPackets * packetSize - packet.length)).length =
            maxPackets * packetSize := by
          rw [List.length_append, List.length_take]
          omega
        have htake : vch.take (maxPackets * packetSize - packet.length) =
            (vch ++ rest.flatten).take (maxPackets * packetSize - packet.length) := by
          rw [List.take_append_of_le_length (by omega)]
        rw [if_pos hover, if_pos hfull.symm, List.flatten_cons, List.take_append,
          List.take_of_length_le h, htake]
      · rw [if_neg hover, List.take_length]
        have hroom : (packet ++ vch).length ≤ maxPackets * packetSize := by
          rw [List.length_append]
          omega
        rw [List.flatten_cons, ← List.append_assoc]
        by_cases hfull : maxPackets * packetSize = (packet ++ vch).length
        · rw [if_pos hfull, hfull, List.take_left]
        · rw [if_neg hfull, ih hroom]

theorem parseClassC_eq_copyPayload (nulldataBlock nBlock : Nat) (vout : List TxOut) :
    parseClassC nulldataBlock nBlock vout = copyPayload (opReturnScriptData nulldataBlock nBlock vout) [] := by
  have hdata : (vout.flatMap fun o => carriedData nulldataBlock nBlock o.scriptPubKey) =
      (opReturnScriptData nulldataBlock nBlock vout).flatten := by
    rw [opReturnScriptData]
    induction vout with
    | nil => rfl
    | cons o rest ih =>
      rw [List.flatMap_cons, List.flatMap_cons, List.flatten_append, ih, carriedData]
      split_ifs <;> rfl
  rw [copyPayload_eq (Nat.zero_le _), List.nil_append, parseClassC, hdata]

variable {N : TokenNetwork} {D : ParseContext} {tx : Transaction} {nBlock : Nat} {sender payload : List UInt8}

theorem getEncodingClass_of_marked {nulldataBlock : Nat} {vout : List TxOut}
    (h : ∃ o ∈ vout, isMarked nulldataBlock nBlock o.scriptPubKey = true) :
    getEncodingClass N nulldataBlock vout nBlock = .classC := by
  rw [marker_search_agrees, examineOutputs, foldl_examineOutput, List.any_eq_true.mpr h]
  rfl

theorem parseTransaction_classC (idx nTime : Nat)
    (h : ∃ o ∈ tx.vout, isMarked D.nulldataBlock nBlock o.scriptPubKey = true)
    (hsent : SentBy N D tx .classC sender) :
    ∃ mp, parseTransaction N D tx nBlock idx nTime = .ok (0, mp) ∧ mp.encodingClass = .classC ∧
      mp.pkt = parseClassC D.nulldataBlock nBlock tx.vout := by
  obtain ⟨spent, hspent, hsender, hne⟩ := hsent
  obtain ⟨mp, hparse, hclass, -, -, hpkt⟩ :=
    parseTransaction_eq idx nTime (.inr rfl) (getEncodingClass_of_marked h) hspent hsender hne
  exact ⟨mp, hparse, hclass, hpkt⟩

/-- **Class C round trip**, at heights at which outputs with data count: one output is recovered
exactly, and several are put together in their order, up to the size of the buffer. -/
theorem class_c_round_trip (N : TokenNetwork) (D : ParseContext) (nBlock nMaxDatacarrierBytes idx nTime : Nat)
    (hallowed : D.nulldataBlock ≤ nBlock) :
    (∀ payload, (omMarker ++ payload).length ≤ nMaxDatacarrierBytes → payload.length ≤ 7905 →
      ∃ o, encodeClassC nMaxDatacarrierBytes payload = some [o] ∧ ∀ (tx : Transaction) before behind,
        tx.vout = before ++ o :: behind →
        (∀ o' ∈ before ++ behind, isMarked D.nulldataBlock nBlock o'.scriptPubKey = false) →
        getEncodingClass N D.nulldataBlock tx.vout nBlock = .classC ∧
          ∀ sender, SentBy N D tx .classC sender →
            ∃ mp, parseTransaction N D tx nBlock idx nTime = .ok (0, mp) ∧ mp.pkt = payload) ∧
    ∀ (tx : Transaction) sender, SentBy N D tx .classC sender →
      (∃ o ∈ tx.vout, isMarked D.nulldataBlock nBlock o.scriptPubKey = true) →
      ∃ mp, parseTransaction N D tx nBlock idx nTime = .ok (0, mp) ∧
        mp.pkt = copyPayload (opReturnScriptData D.nulldataBlock nBlock tx.vout) [] ∧
        mp.pkt = (opReturnScriptData D.nulldataBlock nBlock tx.vout).flatten.take 7905 := by
  constructor
  · intro payload hfits hsize
    refine ⟨⟨0, opReturn :: pushData (omMarker ++ payload)⟩, by rw [encodeClassC, if_neg (by omega)], ?_⟩
    intro tx before behind hvout hplain
    have hlength : (omMarker ++ payload).length < 2 ^ 32 := by
      rw [List.length_append]
      have hmarker : omMarker.length = 4 := rfl
      omega
    have hscripts : tx.vout.map TxOut.scriptPubKey = before.map TxOut.scriptPubKey ++
        (opReturn :: pushData (omMarker ++ payload)) :: behind.map TxOut.scriptPubKey := by
      rw [hvout, List.map_append, List.map_cons]
    have hbefore : ∀ s ∈ before.map TxOut.scriptPubKey, isMarked D.nulldataBlock nBlock s = false := by
      intro s hs
      obtain ⟨o', ho', rfl⟩ := List.mem_map.mp hs
      exact hplain o' (List.mem_append_left _ ho')
    have hbehind : (behind.map TxOut.scriptPubKey).flatMap (carriedData D.nulldataBlock nBlock) = [] := by
      refine List.flatMap_eq_nil_iff.mpr fun s hs => ?_
      obtain ⟨o', ho', rfl⟩ := List.mem_map.mp hs
      exact carriedData_of_not_marked (hplain o' (List.mem_append_right _ ho'))
    obtain ⟨hclass, hcarries⟩ := (@classC_iff N D.nulldataBlock nBlock payload tx.vout _ _ hlength hscripts
      hbefore).mpr ⟨hallowed, hsize, .inr hbehind⟩
    refine ⟨hclass, fun sender hsent => ?_⟩
    obtain ⟨mp, hparse, -, hpkt⟩ :=
      parseTransaction_classC idx nTime (getEncodingClass_eq_classC.mp hclass).2 hsent
    exact ⟨mp, hparse, hpkt.trans (hcarries.2 (by decide))⟩
  · intro tx sender hsent hmarked
    obtain ⟨mp, hparse, -, hpkt⟩ := parseTransaction_classC idx nTime hmarked hsent
    have hcopied := hpkt.trans (parseClassC_eq_copyPayload D.nulldataBlock nBlock tx.vout)
    refine ⟨mp, hparse, hcopied, ?_⟩
    rw [hcopied, copyPayload_eq (Nat.zero_le _), List.nil_append]
    rfl

/-- A payload of three bytes, and two tagged outputs around one that is not. -/
theorem class_c_round_trip_three :
    (∃ o, encodeClassC 83 [1, 2, 3] = some [o] ∧
      ∃ mp, parseTransaction plainNetwork (payerContext 0) (embedded (some [o])) 100 0 0 = .ok (0, mp) ∧
        mp.pkt = [1, 2, 3]) ∧
    ∃ mp, parseTransaction plainNetwork (payerContext 0)
        (embedded (some [⟨0, opReturn :: pushData (omMarker ++ [1, 2])⟩, ⟨7, getScriptForDestination (walletKey 2)⟩,
          ⟨0, opReturn :: (pushData (omMarker ++ [3]) ++ pushData [4])⟩])) 100 0 0 = .ok (0, mp) ∧
      mp.pkt = [1, 2, 3, 4] := by
  have hsent : ∀ vout, SentBy plainNetwork (payerContext 0) (embedded (some vout)) .classC payer := fun vout =>
    ⟨[⟨50000, getScriptForDestination (walletKey 1)⟩], rfl, payer_facts.2.2.2, payer_facts.2.1⟩
  obtain ⟨hone, hseveral⟩ := class_c_round_trip plainNetwork (payerContext 0) 100 83 0 0 (by decide)
  constructor
  · obtain ⟨o, ho, hread⟩ := hone [1, 2, 3] (by decide) (by decide)
    obtain ⟨-, hrecovered⟩ := hread (embedded (some [o])) [] [] rfl fun o' ho' => absurd ho' List.not_mem_nil
    exact ⟨o, ho, hrecovered payer (hsent _)⟩
  · obtain ⟨mp, hparse, -, hpkt⟩ := hseveral _ payer (hsent _)
      ⟨⟨0, opReturn :: pushData (omMarker ++ [1, 2])⟩, .head _, by decide⟩
    exact ⟨mp, hparse, hpkt.trans (by decide)⟩

/-- Before the height that a deactivation of the feature sets, the output of class C does not count. -/
theorem class_c_not_recovered_inactive :
    (omMarker ++ [1, 2, 3]).length ≤ 83 ∧
    encodeClassC 83 [1, 2, 3] = some [⟨0, opReturn :: pushData (omMarker ++ [1, 2, 3])⟩] ∧
    SentBy plainNetwork (payerContext 999999)
      (embedded (some [⟨0, opReturn :: pushData (omMarker ++ [1, 2, 3])⟩])) .classC payer ∧
    getEncodingClass plainNetwork 999999 [⟨0, opReturn :: pushData (omMarker ++ [1, 2, 3])⟩] 100 ≠ .classC ∧
    (parseTransaction plainNetwork (payerContext 999999)
      (embedded (some [⟨0, opReturn :: pushData (omMarker ++ [1, 2, 3])⟩])) 100 0 0).toOption = none := by
  refine ⟨by decide, rfl, ⟨[⟨50000, getScriptForDestination (walletKey 1)⟩], rfl, payer_facts.2.2.2,
    payer_facts.2.1⟩, ?_, ?_⟩ <;> decide +kernel

end ClassC

end Rapids.Payload
