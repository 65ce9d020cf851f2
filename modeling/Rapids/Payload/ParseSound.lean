import Rapids.Payload.ParseTransaction

/-!
# Rapids.Payload.ParseSound

**What `parseTransaction` reads of outputs that are known**: those that pay an address,
the data output of class C, and the multisig outputs of class B.

A script is seen through four functions: the type that counts, the marker, the pushes
of a multisig, and the address paid. For each kind of script one theorem gives all four
(`address_seen`, `data_seen`, `multisig_seen`). From there the encoding class, the
reference address and the payload follow from the list of scripts.

`classC_iff` and `classB_iff` say when class and payload are both read right: the
payload has to fit, and what stands behind it must not add to it.
-/

namespace Rapids.Payload

open Rapids.Lib Rapids.Chain

/-! ### What the parser sees of a script -/

section Scripts

variable (N : TokenNetwork) (nulldataBlock nBlock : Nat)

/-- The entry of a script in `address_data`. -/
def paidAddress (s : Script) : Option (List UInt8) :=
  match countedType nulldataBlock nBlock s, extractDestination N.hash160 s with
  | some _, some dest => if dest = N.exodusAddress then none else some (N.encode dest)
  | _, _ => none

theorem addressOutputs_snoc (vout : List TxOut) (o : TxOut) :
    (addressOutputs N nulldataBlock nBlock (vout ++ [o])).map (fun out => (out.n, out.address)) =
      (addressOutputs N nulldataBlock nBlock vout).map (fun out => (out.n, out.address)) ++
        ((paidAddress N nulldataBlock nBlock o.scriptPubKey).map fun a => (vout.length, a)).toList := by
  rw [addressOutputs, addressOutputs, List.zipIdx_append, List.filterMap_append, List.map_append, Nat.zero_add,
    List.zipIdx_singleton, List.filterMap_cons, paidAddress]
  refine congrArg _ ?_
  dsimp only
  cases countedType nulldataBlock nBlock o.scriptPubKey with
  | none => rfl
  | some t =>
    cases extractDestination N.hash160 o.scriptPubKey with
    | none => rfl
    | some dest =>
      dsimp only
      by_cases hd : dest = N.exodusAddress
      · rw [if_pos hd, if_pos hd]
        rfl
      · rw [if_neg hd, if_neg hd]
        rfl

theorem addressOutputs_address (vout : List TxOut) :
    (addressOutputs N nulldataBlock nBlock vout).map AddressOutput.address =
      (vout.map TxOut.scriptPubKey).filterMap (paidAddress N nulldataBlock nBlock) := by
  have hsnd : ∀ vout, (addressOutputs N nulldataBlock nBlock vout).map AddressOutput.address =
      ((addressOutputs N nulldataBlock nBlock vout).map fun out => (out.n, out.address)).map Prod.snd := by
    intro vout
    rw [List.map_map]
    rfl
  induction vout using List.reverseRecOn with
  | nil => rfl
  | append_singleton vout o ih =>
    rw [hsnd, addressOutputs_snoc, List.map_append, ← hsnd, ih, List.map_append, List.filterMap_append]
    refine congrArg _ ?_
    rw [List.map_singleton, List.filterMap_cons]
    cases paidAddress N nulldataBlock nBlock o.scriptPubKey <;> rfl

variable {N nulldataBlock nBlock}

theorem isMarked_of_lt (h : nBlock < nulldataBlock) (s : Script) : isMarked nulldataBlock nBlock s = false := by
  have hne : countedType nulldataBlock nBlock s ≠ some .nullData := by
    intro heq
    have hallowed := (Option.filter_eq_some_iff.mp heq).2
    exact absurd (of_decide_eq_true hallowed) (Nat.not_le.mpr h)
  rw [isMarked, decide_eq_false hne]
  rfl

theorem isMarked_of_type {s : Script} {t : OutputType} (h : safeSolver s = some t) (ht : t ≠ .nullData) :
    isMarked nulldataBlock nBlock s = false := by
  have hne : countedType nulldataBlock nBlock s ≠ some .nullData := by
    intro heq
    have hsolved := (Option.filter_eq_some_iff.mp heq).1
    rw [h, Option.some.injEq] at hsolved
    exact ht hsolved
  rw [isMarked, decide_eq_false hne]
  rfl

theorem carriedData_of_not_marked {s : Script} (h : isMarked nulldataBlock nBlock s = false) :
    carriedData nulldataBlock nBlock s = [] := by
  rw [carriedData, h]
  rfl

theorem address_seen {d : Destination} (hd : d ≠ .none) :
    (∃ t, countedType nulldataBlock nBlock (getScriptForDestination d) = some t ∧ t ≠ .multisig) ∧
      isMarked nulldataBlock nBlock (getScriptForDestination d) = false ∧
      multisigPushes (getScriptForDestination d) = [] ∧
      paidAddress N nulldataBlock nBlock (getScriptForDestination d) =
        if d = N.exodusAddress then none else some (N.encode d) := by
  cases d with
  | none => exact absurd rfl hd
  | keyID hash =>
    have htype := safeSolver_keyID hash
    have hcounted : countedType nulldataBlock nBlock (getScriptForDestination (.keyID hash)) =
        some .pubKeyHash := by
      rw [countedType, htype]
      rfl
    refine ⟨⟨_, hcounted, by decide⟩, isMarked_of_type htype (by decide), ?_, ?_⟩
    · rw [multisigPushes, solvesMultisig_keyID]
      rfl
    · rw [paidAddress, hcounted, extractDestination_keyID]
  | scriptID hash =>
    have htype := safeSolver_scriptID hash
    have hcounted : countedType nulldataBlock nBlock (getScriptForDestination (.scriptID hash)) =
        some .scriptHash := by
      rw [countedType, htype]
      rfl
    refine ⟨⟨_, hcounted, by decide⟩, isMarked_of_type htype (by decide), ?_, ?_⟩
    · rw [multisigPushes, solvesMultisig_scriptID]
      rfl
    · rw [paidAddress, hcounted, extractDestination_scriptID]

theorem data_seen {payload : List UInt8} (h : (omMarker ++ payload).length < 2 ^ 32) :
    countedType nulldataBlock nBlock (opReturn :: pushData (omMarker ++ payload)) ≠ some .multisig ∧
      isMarked nulldataBlock nBlock (opReturn :: pushData (omMarker ++ payload)) = decide (nulldataBlock ≤ nBlock) ∧
      multisigPushes (opReturn :: pushData (omMarker ++ payload)) = [] ∧
      paidAddress N nulldataBlock nBlock (opReturn :: pushData (omMarker ++ payload)) = none ∧
      (nulldataBlock ≤ nBlock →
        carriedData nulldataBlock nBlock (opReturn :: pushData (omMarker ++ payload)) = payload) := by
  have htype := safeSolver_data h
  have hcarried : carriedPushes (opReturn :: pushData (omMarker ++ payload)) = some [payload] := by
    rw [carriedPushes, getScriptPushes_data h]
    dsimp only
    rw [if_pos (List.isPrefixOf_iff_prefix.mpr (List.prefix_append _ _)), List.drop_left]
  have hmarked : isMarked nulldataBlock nBlock (opReturn :: pushData (omMarker ++ payload)) =
      decide (nulldataBlock ≤ nBlock) := by
    by_cases hle : nulldataBlock ≤ nBlock
    · have hcounted : countedType nulldataBlock nBlock (opReturn :: pushData (omMarker ++ payload)) =
          some .nullData := by
        rw [countedType, htype]
        exact Option.filter_eq_some_iff.mpr ⟨rfl, decide_eq_true hle⟩
      rw [isMarked, hcounted, hcarried, decide_eq_true hle]
      rfl
    · rw [isMarked_of_lt (Nat.not_le.mp hle), decide_eq_false hle]
  refine ⟨?_, hmarked, ?_, ?_, fun hle => ?_⟩
  · intro heq
    have hsolved := (Option.filter_eq_some_iff.mp heq).1
    rw [htype] at hsolved
    exact absurd hsolved (by decide)
  · rw [multisigPushes, solvesMultisig_data h]
    rfl
  · rw [paidAddress, extractDestination_data _ h]
    cases countedType nulldataBlock nBlock (opReturn :: pushData (omMarker ++ payload)) <;> rfl
  · rw [carriedData, hmarked, decide_eq_true hle, hcarried]
    exact List.append_nil payload

theorem multisig_seen {keys : List (List UInt8)} (hkeys : ∀ key ∈ keys, validPubKeySize key = true)
    (h2 : 2 ≤ keys.length) (h16 : keys.length ≤ 16) :
    countedType nulldataBlock nBlock (getScriptForMultisig 1 keys) = some .multisig ∧
      isMarked nulldataBlock nBlock (getScriptForMultisig 1 keys) = false ∧
      multisigPushes (getScriptForMultisig 1 keys) = keys.tail ∧
      paidAddress N nulldataBlock nBlock (getScriptForMultisig 1 keys) = none := by
  have htype := safeSolver_multisig hkeys h2 h16
  have hcounted : countedType nulldataBlock nBlock (getScriptForMultisig 1 keys) = some .multisig := by
    rw [countedType, htype]
    rfl
  refine ⟨hcounted, isMarked_of_type htype (by decide), ?_, ?_⟩
  · rw [multisigPushes, solvesMultisig_multisig hkeys h2 h16, getScriptPushes_multisig hkeys h2 h16,
      if_pos rfl, Option.getD_some, List.drop_one]
  · rw [paidAddress, hcounted, extractDestination_multisig hkeys h2]

end Scripts

/-! ### The encoding class of what the wallet makes -/

section Class

variable {N : TokenNetwork} {nulldataBlock nBlock : Nat} {vout : List TxOut}

theorem getEncodingClass_eq_classC :
    getEncodingClass N nulldataBlock vout nBlock = .classC ↔
      examineClosely N vout = true ∧ ∃ o ∈ vout, isMarked nulldataBlock nBlock o.scriptPubKey = true := by
  rw [← List.any_eq_true, getEncodingClass]
  cases examineClosely N vout with
  | false =>
    rw [if_pos (by rfl)]
    exact iff_of_false (by decide) (fun h => absurd h.1 Bool.false_ne_true)
  | true =>
    rw [if_neg (by decide)]
    dsimp only
    split_ifs with hop hb ha
    · exact iff_of_true rfl ⟨rfl, hop⟩
    all_goals exact iff_of_false (by decide) (fun h => hop h.2)

theorem getEncodingClass_eq_classB :
    getEncodingClass N nulldataBlock vout nBlock = .classB ↔
      examineClosely N vout = true ∧
        ¬(∃ o ∈ vout, isMarked nulldataBlock nBlock o.scriptPubKey = true) ∧
        (∃ o ∈ vout, countedType nulldataBlock nBlock o.scriptPubKey = some .pubKeyHash ∧
          extractDestination N.hash160 o.scriptPubKey = some N.exodusAddress) ∧
        ∃ o ∈ vout, countedType nulldataBlock nBlock o.scriptPubKey = some .multisig := by
  have hexodus : (∃ o ∈ vout, countedType nulldataBlock nBlock o.scriptPubKey = some .pubKeyHash ∧
      extractDestination N.hash160 o.scriptPubKey = some N.exodusAddress) ↔
      (vout.any fun o => countedType nulldataBlock nBlock o.scriptPubKey = some .pubKeyHash &&
        extractDestination N.hash160 o.scriptPubKey = some N.exodusAddress) = true := by
    simp
  have hmulti : (∃ o ∈ vout, countedType nulldataBlock nBlock o.scriptPubKey = some .multisig) ↔
      (vout.any fun o => countedType nulldataBlock nBlock o.scriptPubKey = some .multisig) = true := by
    simp
  rw [← List.any_eq_true, hexodus, hmulti, getEncodingClass]
  cases examineClosely N vout with
  | false =>
    rw [if_pos (by rfl)]
    exact iff_of_false (by decide) (fun h => absurd h.1 Bool.false_ne_true)
  | true =>
    rw [if_neg (by decide)]
    dsimp only
    split_ifs with hop hb ha
    · exact iff_of_false (by decide) (fun h => h.2.1 hop)
    · rw [Bool.and_eq_true] at hb
      exact iff_of_true rfl ⟨rfl, hop, hb.1, hb.2⟩
    all_goals
      rw [Bool.and_eq_true] at hb
      exact iff_of_false (by decide) (fun h => hb ⟨h.2.2.1, h.2.2.2⟩)

theorem pushData_suffix (b : List UInt8) : ∃ header, pushData b = header ++ b := by
  rw [pushData]
  split_ifs
  · exact ⟨[_], rfl⟩
  · exact ⟨76 :: leBytes 1 b.length, rfl⟩
  · exact ⟨77 :: leBytes 2 b.length, rfl⟩
  · exact ⟨78 :: leBytes 4 b.length, rfl⟩

theorem examineClosely_of_data {payload : List UInt8}
    (h : opReturn :: pushData (omMarker ++ payload) ∈ vout.map TxOut.scriptPubKey) :
    examineClosely N vout = true := by
  obtain ⟨o, ho, hscript⟩ := List.mem_map.mp h
  obtain ⟨header, hheader⟩ := pushData_suffix (omMarker ++ payload)
  rw [examineClosely, Bool.or_eq_true, List.any_eq_true]
  refine .inr ⟨o, ho, ?_⟩
  rw [Bool.or_eq_true, List.any_eq_true]
  refine .inr ⟨hexStr (omMarker ++ payload), (List.mem_tails _ _).mpr ⟨hexStr (opReturn :: header), ?_⟩, ?_⟩
  · rw [hscript, hheader, hexStr, hexStr, hexStr, ← List.flatMap_append]
    rfl
  · rw [hexStr, hexStr, List.flatMap_append]
    exact List.isPrefixOf_iff_prefix.mpr (List.prefix_append _ _)

theorem examineClosely_of_exodus
    (h : getScriptForDestination N.exodusAddress ∈ vout.map TxOut.scriptPubKey) :
    examineClosely N vout = true := by
  obtain ⟨o, ho, hscript⟩ := List.mem_map.mp h
  rw [examineClosely]
  cases hmain : N.isNonMainNet with
  | true => rfl
  | false =>
    rw [Bool.false_or, List.any_eq_true]
    refine ⟨o, ho, ?_⟩
    rw [Bool.or_eq_true]
    exact .inl (decide_eq_true (by rw [hscript, TokenNetwork.exodusAddress, N.exodus_main hmain]))

end Class

/-! ### Reference addresses -/

section Reference

variable {exodus sender receiver : List UInt8}

theorem identifyReference_nil : identifyReference exodus sender [] = [] := rfl

theorem identifyReference_single (h : receiver ≠ exodus) : identifyReference exodus sender [receiver] = receiver := by
  simp [identifyReference, countReferences, h]

/-- Of two addresses the last one counts, unless it is the only one of the sender's. -/
theorem identifyReference_two {first : List UInt8} (hfirst : first ≠ exodus) (h : receiver ≠ exodus) :
    identifyReference exodus sender [first, receiver] =
      if receiver = sender ∧ first ≠ sender then first else receiver := by
  have hfish : identifyReference exodus sender [first, receiver] =
      fishReference exodus sender [first, receiver] false [] := by
    simp [identifyReference, countReferences, hfirst, h]
  have hlast : ∀ removed found, fishReference exodus sender [receiver] removed found =
      if receiver = sender ∧ removed = false then found else receiver := by
    intro removed found
    rw [fishReference, if_pos h]
    rfl
  rw [hfish, fishReference, if_pos hfirst]
  by_cases hf : first = sender
  · rw [if_pos ⟨hf, rfl⟩, hlast, if_neg (fun h' => Bool.false_ne_true h'.2.symm),
      if_neg (fun h' => h'.2 hf)]
  · rw [if_neg (fun h' => hf h'.1), hlast]
    by_cases hr : receiver = sender
    · rw [if_pos ⟨hr, rfl⟩, if_pos ⟨hr, hf⟩]
    · rw [if_neg (fun h' => hr h'.1), if_neg (fun h' => hr h'.1)]

end Reference

/-! ### What is recovered -/

/-- The payload as it is read: padded with zeros in class B. -/
def CarriesPayload (encodingClass : EncodingClass) (payload pkt : List UInt8) : Prop :=
  (encodingClass = .classB → ∃ n, pkt = payload ++ List.replicate n 0) ∧
    (encodingClass ≠ .classB → pkt = payload)

/-- The transaction is read as what was asked for, in the class it was written in. -/
def Recovers (N : TokenNetwork) (D : ParseContext) (tx : Transaction) (nBlock idx nTime : Nat)
    (encodingClass : EncodingClass) (sender receiver payload : List UInt8) : Prop :=
  ∃ mp, parseTransaction N D tx nBlock idx nTime = .ok (0, mp) ∧ mp.encodingClass = encodingClass ∧
    mp.sender = sender ∧ (receiver ≠ [] → mp.receiver = receiver) ∧ CarriesPayload encodingClass payload mp.pkt

section Recover

variable {N : TokenNetwork} {D : ParseContext} {tx : Transaction} {nBlock idx nTime : Nat}
  {sender receiver payload : List UInt8} {spent : List TxOut}

theorem parseTransaction_eq (idx nTime : Nat) {cls : EncodingClass} (hB : cls = .classB ∨ cls = .classC)
    (hclass : getEncodingClass N D.nulldataBlock tx.vout nBlock = cls)
    (hspent : (tx.vin.mapM fun i => D.view i.prevout) = some spent)
    (hsender : identifySender N cls spent = .ok sender) (hne : sender ≠ []) :
    ∃ mp, parseTransaction N D tx nBlock idx nTime = .ok (0, mp) ∧ mp.encodingClass = cls ∧
      mp.sender = sender ∧
      mp.receiver = identifyReference (N.encode N.exodusAddress) sender
        ((tx.vout.map TxOut.scriptPubKey).filterMap (paidAddress N D.nulldataBlock nBlock)) ∧
      mp.pkt = if cls = .classB then parseClassB N sender tx.vout
        else parseClassC D.nulldataBlock nBlock tx.vout := by
  have hmark : cls ≠ .noMarker := by rcases hB with rfl | rfl <;> decide
  have hA : cls ≠ .classA := by rcases hB with rfl | rfl <;> decide
  rw [← addressOutputs_address, parseTransaction, hclass]
  rw [if_neg hmark, hspent]
  dsimp only
  rw [hsender]
  dsimp only
  rw [if_neg hne, if_neg hA, if_neg (fun h => hA h.1)]
  exact ⟨_, rfl, rfl, rfl, rfl, rfl⟩

theorem parseTransaction_ok {rc : Int} {mp : ParsedTransaction}
    (h : parseTransaction N D tx nBlock idx nTime = .ok (rc, mp)) :
    mp.encodingClass = getEncodingClass N D.nulldataBlock tx.vout nBlock ∧
      mp.validOutputAddressesForSTM = (addressOutputs N D.nulldataBlock nBlock tx.vout).foldl
        (fun addresses o => addValidStmAddress addresses (UInt8.ofNat o.n) o.address) [] := by
  rw [parseTransaction] at h
  by_cases hmark : getEncodingClass N D.nulldataBlock tx.vout nBlock = .noMarker
  · rw [if_pos hmark] at h
    cases h
  rw [if_neg hmark] at h
  cases hspent : tx.vin.mapM fun i => D.view i.prevout with
  | none =>
    rw [hspent] at h
    cases h
  | some spent =>
    rw [hspent] at h
    dsimp only at h
    cases hsender : identifySender N (getEncodingClass N D.nulldataBlock tx.vout nBlock) spent with
    | error code =>
      rw [hsender] at h
      cases h
    | ok sender =>
      rw [hsender] at h
      dsimp only at h
      by_cases hne : sender = []
      · rw [if_pos hne] at h
        cases h
      · rw [if_neg hne] at h
        rw [← (Prod.mk.inj (Except.ok.inj h)).2]
        exact ⟨rfl, rfl⟩

theorem recovers_iff {cls : EncodingClass} (hB : cls = .classB ∨ cls = .classC)
    (hspent : (tx.vin.mapM fun i => D.view i.prevout) = some spent)
    (hsender : identifySender N cls spent = .ok sender) (hne : sender ≠ []) :
    Recovers N D tx nBlock idx nTime cls sender receiver payload ↔
      getEncodingClass N D.nulldataBlock tx.vout nBlock = cls ∧
        (receiver ≠ [] → identifyReference (N.encode N.exodusAddress) sender
          ((tx.vout.map TxOut.scriptPubKey).filterMap (paidAddress N D.nulldataBlock nBlock)) = receiver) ∧
        CarriesPayload cls payload (if cls = .classB then parseClassB N sender tx.vout
          else parseClassC D.nulldataBlock nBlock tx.vout) := by
  constructor
  · rintro ⟨mp, hparse, hcls, hs, hr, hp⟩
    have hclass : getEncodingClass N D.nulldataBlock tx.vout nBlock = cls :=
      (parseTransaction_ok hparse).1.symm.trans hcls
    obtain ⟨mp', hparse', -, -, hr', hp'⟩ :=
      parseTransaction_eq idx nTime hB hclass hspent hsender hne
    rw [hparse'] at hparse
    obtain rfl := (Prod.mk.inj (Except.ok.inj hparse)).2
    rw [hr'] at hr
    rw [hp'] at hp
    exact ⟨hclass, hr, hp⟩
  · rintro ⟨hclass, hr, hp⟩
    obtain ⟨mp, hparse, hcls, hs, hr', hp'⟩ :=
      parseTransaction_eq idx nTime hB hclass hspent hsender hne
    refine ⟨mp, hparse, hcls, hs, ?_, ?_⟩
    · rw [hr']
      exact hr
    · rw [hp']
      exact hp

end Recover

/-! ### Payloads of what is built -/

section Payloads

variable {N : TokenNetwork} {nulldataBlock nBlock : Nat} {sender payload : List UInt8}

theorem parseClassC_eq (vout : List TxOut) :
    parseClassC nulldataBlock nBlock vout =
      ((vout.map TxOut.scriptPubKey).flatMap (carriedData nulldataBlock nBlock)).take (maxPackets * packetSize) := by
  rw [parseClassC, List.flatMap_map]

theorem take_append_eq_left {a b : List UInt8} {n : Nat} :
    (a ++ b).take n = a ↔ a.length ≤ n ∧ (a.length = n ∨ b = []) := by
  constructor
  · intro h
    have hlen := congrArg List.length h
    rw [List.length_take, List.length_append] at hlen
    have hle : a.length ≤ n := by omega
    refine ⟨hle, ?_⟩
    by_cases heq : a.length = n
    · exact .inl heq
    · exact .inr (List.length_eq_zero_iff.mp (by omega))
  · rintro ⟨hle, heq | rfl⟩
    · rw [← heq, List.take_left]
    · rw [List.append_nil, List.take_of_length_le hle]

theorem carries_classB {E : Entropy} {redeem : List UInt8} (extra : List (List UInt8)) :
    CarriesPayload .classB payload (decodePackets (prepareObfuscatedHashes N.sha256 sender
        (1 + ((dataKeys N E sender redeem payload.length 0 payload ++ extra).take maxPackets).length)) 0
      ((dataKeys N E sender redeem payload.length 0 payload ++ extra).take maxPackets)) ↔
      payload.length ≤ maxPackets * (packetSize - 1) ∧
        ∀ b ∈ decodePackets (hashesOf N sender) (packetCount payload.length)
          (extra.take (maxPackets - packetCount payload.length)), b = 0 := by
  have hmax : maxPackets = 255 := rfl
  have hbytes : maxPackets * (packetSize - 1) = 7650 := rfl
  have hcount : (dataKeys N E sender redeem payload.length 0 payload).length = packetCount payload.length :=
    dataKeys_length le_rfl
  have hcarries : ∀ pkt, CarriesPayload .classB payload pkt ↔ ∃ n, pkt = payload ++ List.replicate n 0 :=
    fun pkt => ⟨fun h => h.1 rfl, fun h => ⟨fun _ => h, fun hne => absurd rfl hne⟩⟩
  have hlen : ((dataKeys N E sender redeem payload.length 0 payload ++ extra).take maxPackets).length ≤ maxPackets := by
    rw [List.length_take]
    exact min_le_left _ _
  rw [hcarries, decodePackets_congr fun j _ hj => prepareObfuscatedHashes_eq (by omega)]
  by_cases hfits : packetCount payload.length ≤ maxPackets
  · have hroom : payload.length ≤ maxPackets * (packetSize - 1) := by
      rw [packetCount] at hfits
      omega
    rw [List.take_append, List.take_of_length_le (by omega), hcount, decodePackets_append,
      decodePackets_dataKeys le_rfl (by omega), hcount, Nat.zero_add]
    generalize decodePackets (hashesOf N sender) (packetCount payload.length)
      (extra.take (maxPackets - packetCount payload.length)) = behind
    constructor
    · rintro ⟨n, hn⟩
      refine ⟨hroom, fun b hb => ?_⟩
      rw [List.append_assoc, List.append_cancel_left_eq] at hn
      exact List.eq_of_mem_replicate (hn ▸ List.mem_append_right _ hb)
    · rintro ⟨-, hzero⟩
      rw [List.eq_replicate_of_mem hzero, List.append_assoc, ← List.replicate_add]
      exact ⟨_, rfl⟩
  · -- more packets than hashes: the payload is cut off
    refine iff_of_false ?_ ?_
    · rintro ⟨n, hn⟩
      have hle := decodePackets_length_le (hashesOf N sender) 0
        ((dataKeys N E sender redeem payload.length 0 payload ++ extra).take maxPackets)
      rw [hn, List.length_append, List.length_replicate] at hle
      rw [packetCount] at hfits
      omega
    · rintro ⟨hle, -⟩
      rw [packetCount] at hfits
      omega

end Payloads

/-! ### Class and payload together -/

section ClassPayload

variable {N : TokenNetwork} {nulldataBlock nBlock : Nat} {sender payload : List UInt8} {vout : List TxOut}

theorem classC_iff {before behind : List Script} (hsize : (omMarker ++ payload).length < 2 ^ 32)
    (hscripts : vout.map TxOut.scriptPubKey = before ++ (opReturn :: pushData (omMarker ++ payload)) :: behind)
    (hbefore : ∀ s ∈ before, isMarked nulldataBlock nBlock s = false) :
    (getEncodingClass N nulldataBlock vout nBlock = .classC ∧
        CarriesPayload .classC payload (parseClassC nulldataBlock nBlock vout)) ↔
      nulldataBlock ≤ nBlock ∧ payload.length ≤ maxPackets * packetSize ∧
        (payload.length = maxPackets * packetSize ∨
          behind.flatMap (carriedData nulldataBlock nBlock) = []) := by
  obtain ⟨-, hmarked, -, -, hcarried⟩ := @data_seen N nulldataBlock nBlock _ hsize
  have hmem : opReturn :: pushData (omMarker ++ payload) ∈ vout.map TxOut.scriptPubKey := by
    rw [hscripts]
    exact List.mem_append_right _ (.head _)
  have hcarries : ∀ pkt, CarriesPayload .classC payload pkt ↔ pkt = payload :=
    fun pkt => ⟨fun h => h.2 (by decide), fun h => ⟨fun hB => absurd hB (by decide), fun _ => h⟩⟩
  have hbefore' : before.flatMap (carriedData nulldataBlock nBlock) = [] :=
    List.flatMap_eq_nil_iff.mpr fun s hs => carriedData_of_not_marked (hbefore s hs)
  have hclass : getEncodingClass N nulldataBlock vout nBlock = .classC ↔ nulldataBlock ≤ nBlock := by
    rw [getEncodingClass_eq_classC]
    constructor
    · rintro ⟨-, o, -, ho⟩
      by_contra hlt
      rw [isMarked_of_lt (Nat.not_le.mp hlt)] at ho
      cases ho
    · intro hle
      obtain ⟨o, ho, hscript⟩ := List.mem_map.mp hmem
      exact ⟨examineClosely_of_data hmem, o, ho, by rw [hscript, hmarked, decide_eq_true hle]⟩
  rw [hclass, hcarries]
  refine and_congr_right fun hle => ?_
  rw [parseClassC_eq, hscripts, List.flatMap_append, hbefore', List.nil_append, List.flatMap_cons, hcarried hle,
    take_append_eq_left]

theorem pushes_of_classB {E : Entropy} {redeem : List UInt8} {behind : List Script}
    (hredeem : validPubKeySize redeem = true)
    (hscripts : vout.map TxOut.scriptPubKey =
      (multisigKeys N E sender redeem payload.length 0 payload).map (getScriptForMultisig 1) ++
        getScriptForDestination N.exodusAddress :: behind) :
    (vout.flatMap fun o => multisigPushes o.scriptPubKey) =
      dataKeys N E sender redeem payload.length 0 payload ++ behind.flatMap multisigPushes := by
  have hexodus : N.exodusAddress ≠ .none := by
    rw [TokenNetwork.exodusAddress]
    exact Destination.noConfusion
  have hxpush := (@address_seen N 0 0 _ hexodus).2.2.1
  have hdata : ((multisigKeys N E sender redeem payload.length 0 payload).map (getScriptForMultisig 1)).flatMap
      multisigPushes = dataKeys N E sender redeem payload.length 0 payload := by
    rw [List.flatMap_map, dataKeys]
    refine List.flatMap_congr fun keys hkeys => ?_
    obtain ⟨h2, h16, hvalid⟩ := multisigKeys_spec hredeem keys hkeys
    exact (@multisig_seen N 0 0 _ hvalid h2 h16).2.2.1
  rw [← List.flatMap_map, hscripts, List.flatMap_append, hdata, List.flatMap_cons,
    hxpush, List.nil_append]

theorem classB_iff {E : Entropy} {redeem : List UInt8} {behind : List Script}
    (hredeem : validPubKeySize redeem = true)
    (hscripts : vout.map TxOut.scriptPubKey =
      (multisigKeys N E sender redeem payload.length 0 payload).map (getScriptForMultisig 1) ++
        getScriptForDestination N.exodusAddress :: behind) :
    (getEncodingClass N nulldataBlock vout nBlock = .classB ∧
        CarriesPayload .classB payload (parseClassB N sender vout)) ↔
      (payload ≠ [] ∨ ∃ s ∈ behind, countedType nulldataBlock nBlock s = some .multisig) ∧
        payload.length ≤ maxPackets * (packetSize - 1) ∧
        (∀ s ∈ behind, isMarked nulldataBlock nBlock s = false) ∧
        ∀ b ∈ decodePackets (hashesOf N sender) (packetCount payload.length)
          ((behind.flatMap multisigPushes).take (maxPackets - packetCount payload.length)), b = 0 := by
  have hspec : ∀ keys ∈ multisigKeys N E sender redeem payload.length 0 payload,
      2 ≤ keys.length ∧ keys.length ≤ 16 ∧ ∀ key ∈ keys, validPubKeySize key = true :=
    multisigKeys_spec hredeem
  have hexodus : N.exodusAddress ≠ .none := by
    rw [TokenNetwork.exodusAddress]
    exact Destination.noConfusion
  obtain ⟨⟨t, ht, htne⟩, hxmark, -, -⟩ := @address_seen N nulldataBlock nBlock _ hexodus
  have hmem : getScriptForDestination N.exodusAddress ∈ vout.map TxOut.scriptPubKey := by
    rw [hscripts]
    exact List.mem_append_right _ (.head _)
  have hexists : ∀ p : Script → Prop, (∃ o ∈ vout, p o.scriptPubKey) ↔
      (∃ keys ∈ multisigKeys N E sender redeem payload.length 0 payload, p (getScriptForMultisig 1 keys)) ∨
        p (getScriptForDestination N.exodusAddress) ∨ ∃ s ∈ behind, p s := by
    intro p
    have hmap : (∃ o ∈ vout, p o.scriptPubKey) ↔ ∃ s ∈ vout.map TxOut.scriptPubKey, p s := by
      simp
    rw [hmap, hscripts]
    simp [or_and_right, exists_or]
  have hmarked : (∃ o ∈ vout, isMarked nulldataBlock nBlock o.scriptPubKey = true) ↔
      ∃ s ∈ behind, isMarked nulldataBlock nBlock s = true := by
    rw [hexists fun s => isMarked nulldataBlock nBlock s = true]
    constructor
    · rintro (⟨keys, hkeys, h⟩ | h | h)
      · obtain ⟨h2, h16, hvalid⟩ := hspec keys hkeys
        rw [(multisig_seen (N := N) hvalid h2 h16).2.1] at h
        cases h
      · rw [hxmark] at h
        cases h
      · exact h
    · exact fun h => .inr (.inr h)
  have hmulti : (∃ o ∈ vout, countedType nulldataBlock nBlock o.scriptPubKey = some .multisig) ↔
      payload ≠ [] ∨ ∃ s ∈ behind, countedType nulldataBlock nBlock s = some .multisig := by
    rw [hexists fun s => countedType nulldataBlock nBlock s = some .multisig]
    constructor
    · rintro (⟨keys, hkeys, -⟩ | h | h)
      · refine .inl fun hnil => ?_
        rw [multisigKeys_ne_nil.mpr hnil] at hkeys
        cases hkeys
      · rw [ht, Option.some.injEq] at h
        exact absurd h htne
      · exact .inr h
    · rintro (h | h)
      · obtain ⟨keys, hkeys⟩ := List.exists_mem_of_ne_nil _ fun hnil => h (multisigKeys_ne_nil.mp hnil)
        obtain ⟨h2, h16, hvalid⟩ := hspec keys hkeys
        exact .inl ⟨keys, hkeys, (multisig_seen (N := N) hvalid h2 h16).1⟩
      · exact .inr (.inr h)
  have hpays : ∃ o ∈ vout, countedType nulldataBlock nBlock o.scriptPubKey = some .pubKeyHash ∧
      extractDestination N.hash160 o.scriptPubKey = some N.exodusAddress := by
    obtain ⟨o, ho, hscript⟩ := List.mem_map.mp hmem
    refine ⟨o, ho, ?_, ?_⟩
    · rw [hscript, countedType, TokenNetwork.exodusAddress, safeSolver_keyID]
      rfl
    · rw [hscript, TokenNetwork.exodusAddress, extractDestination_keyID]
  rw [getEncodingClass_eq_classB, hmarked, hmulti, parseClassB, pushes_of_classB hredeem hscripts, carries_classB]
  have hnone : ¬(∃ s ∈ behind, isMarked nulldataBlock nBlock s = true) ↔
      ∀ s ∈ behind, isMarked nulldataBlock nBlock s = false := by
    simp
  rw [hnone]
  constructor
  · rintro ⟨⟨-, hmark, -, hm⟩, hle, hzero⟩
    exact ⟨hm, hle, hmark, hzero⟩
  · rintro ⟨hm, hle, hmark, hzero⟩
    exact ⟨⟨examineClosely_of_exodus hmem, hmark, hpays, hm⟩, hle, hzero⟩

end ClassPayload

end Rapids.Payload
