import Rapids.Payload.Strings
import Rapids.Payload.WalletRounds

/-!
# Rapids.Payload.WalletTxSound

**A transaction of the wallet, read back** by `parseTransaction`. To be read as it was
meant it has to give the sender, the receiver as reference address, and the payload.

The scripts of what is built are known: those asked for, and perhaps the script of the
change, which was not there before. The inputs are the sender's own coins, or begin with
one. What is left is the guess of the reference address. `WalletTxBuilder` has its change
go to the sender, behind the receiver, and the guess is right. **`CreateFundedTransaction`
has its change go to the fee address, in front.** A receiver who is the sender is then
taken for change, and the fee address for the receiver. And it leaves out an output to
a receiver who is the fee address, counting on the change, which may not be there: the
check for that looks for the position of the change, which is set also when nothing is
left.
-/

namespace Rapids.Payload

open Rapids.Lib Rapids.Chain

/-! ### Building for one address -/

section Builder

variable {N : TokenNetwork} {W : TokenWallet} {C D : ParseContext} {E : Entropy} {rounds nBlock idx nTime : Nat}
  {R : BuildRequest} {tx : Transaction}

open TokenWallet

/-- The class that a payload is encoded in. -/
def classOf (W : TokenWallet) (nulldataBlock : Nat) (payload : List UInt8) : EncodingClass :=
  if W.useEncodingClassC nulldataBlock payload.length then .classC else .classB

/-- When the payload of a request can be read: it fits, the class can be told, and the issuance
cost, if there is one, goes to a script that adds nothing to it. -/
def BuildReadable (N : TokenNetwork) (W : TokenWallet) (C D : ParseContext) (nBlock : Nat) (R : BuildRequest) :
    Prop :=
  if W.useEncodingClassC C.nulldataBlock R.payload.length then
    D.nulldataBlock ≤ nBlock ∧ R.payload.length ≤ maxPackets * packetSize ∧
      (0 < R.nDonation → R.payload.length = maxPackets * packetSize ∨
        carriedData D.nulldataBlock nBlock C.feeScript = [])
  else
    (R.payload ≠ [] ∨ 0 < R.nDonation ∧ countedType D.nulldataBlock nBlock C.feeScript = some .multisig) ∧
      R.payload.length ≤ maxPackets * (packetSize - 1) ∧
      (0 < R.nDonation → isMarked D.nulldataBlock nBlock C.feeScript = false ∧
        ∀ b ∈ decodePackets (hashesOf N R.senderAddress) (packetCount R.payload.length)
          ((multisigPushes C.feeScript).take (maxPackets - packetCount R.payload.length)), b = 0)

theorem getScriptForDestination_ne_nil {d : Destination} (hd : d ≠ .none) : getScriptForDestination d ≠ [] := by
  cases d with
  | none => exact absurd rfl hd
  | keyID hash => exact List.cons_ne_nil _ _
  | scriptID hash => exact List.cons_ne_nil _ _

theorem walletTxBuilder_spec (h : W.walletTxBuilder N C E rounds R = .ok tx) :
    ∃ selected dataOutputs round,
      selected = (W.selectCoins N R.senderAddress (R.referenceAmount + R.nDonation)).1 ∧ selected ≠ [] ∧
      W.encodePayload N C.nulldataBlock E R.senderAddress R.redemptionAddress R.payload = .ok dataOutputs ∧
      W.createTransaction rounds (·.out.isLocked) (W.buildOutputs N C.feeScript R dataOutputs)
        ⟨N.decode R.senderAddress, selected, false⟩ (W.buildOutputs N C.feeScript R dataOutputs).length true =
          some round ∧
      W.assemble ((W.arrange round.setCoins).map WalletCoin.prevout) round.vout = some tx := by
  rw [walletTxBuilder] at h
  by_cases hneg : (W.selectCoins N R.senderAddress (R.referenceAmount + R.nDonation)).2 < 0
  · rw [if_pos hneg] at h
    cases h
  rw [if_neg hneg] at h
  cases hencode : W.encodePayload N C.nulldataBlock E R.senderAddress R.redemptionAddress R.payload with
  | error code =>
    rw [hencode] at h
    cases h
  | ok dataOutputs =>
    rw [hencode] at h
    dsimp only at h
    by_cases hnil : (W.selectCoins N R.senderAddress (R.referenceAmount + R.nDonation)).1 = []
    · rw [if_pos hnil] at h
      cases h
    · rw [if_neg hnil] at h
      split at h
      · cases h
      · rename_i round hround
        split at h
        · cases h
        · rename_i tx' htx
          split_ifs at h
          cases h
          exact ⟨_, dataOutputs, round, rfl, hnil, rfl, hround, htx⟩

variable {receiver : List UInt8}

/-- What stands behind the data: the receiver or the issuance cost, and perhaps change. -/
def behindData (N : TokenNetwork) (feeScript : Script) (nDonation : Int) (receiver : List UInt8)
    (change : List Script) : List Script :=
  (if receiver = [] then [] else [getScriptForDestination (N.decode receiver)]) ++
    ((if 0 < nDonation then [feeScript] else []) ++ change)

theorem buildOutputs_scripts (hR : R.receiverAddresses = receiversOf receiver)
    (hreceiver : receiver ≠ [] → N.IsAddress receiver) (dataOutputs : List TxOut) :
    (W.buildOutputs N C.feeScript R dataOutputs).map TxOut.scriptPubKey =
      dataOutputs.map TxOut.scriptPubKey ++ behindData N C.feeScript R.nDonation receiver [] := by
  have hrecv : (R.receiverAddresses.flatMap (W.receiverOutputs N R.referenceAmount)).map TxOut.scriptPubKey =
      if receiver = [] then [] else [getScriptForDestination (N.decode receiver)] := by
    rw [hR, receiversOf]
    by_cases hnil : receiver = []
    · rw [if_pos hnil, if_pos hnil]
      rfl
    · obtain ⟨d, hd, hdne⟩ := hreceiver hnil
      have hscript : getScriptForDestination (N.decode receiver) ≠ [] := by
        rw [← hd, N.decode_encode]
        exact getScriptForDestination_ne_nil hdne
      rw [if_neg hnil, if_neg hnil, List.flatMap_singleton, receiverOutputs, if_neg hscript]
      rfl
  have hdon : (if 0 < R.nDonation then [(⟨R.nDonation, C.feeScript⟩ : TxOut)] else []).map TxOut.scriptPubKey =
      if 0 < R.nDonation then [C.feeScript] else [] := by
    split_ifs <;> rfl
  rw [buildOutputs, List.map_append, List.map_append, hrecv, hdon, behindData, List.append_nil,
    List.append_assoc]

theorem encodePayload_scripts {sender redemption payload : List UInt8} {dataOutputs : List TxOut}
    (h : W.encodePayload N C.nulldataBlock E sender redemption payload = .ok dataOutputs) :
    if W.useEncodingClassC C.nulldataBlock payload.length then
      (omMarker ++ payload).length < 2 ^ 32 ∧
        dataOutputs.map TxOut.scriptPubKey = [opReturn :: pushData (omMarker ++ payload)]
    else
      ∃ redeem, validPubKeySize redeem = true ∧ dataOutputs.map TxOut.scriptPubKey =
        (multisigKeys N E sender redeem payload.length 0 payload).map (getScriptForMultisig 1) ++
          [getScriptForDestination N.exodusAddress] := by
  rw [encodePayload] at h
  by_cases huse : W.useEncodingClassC C.nulldataBlock payload.length = true
  · rw [if_pos huse] at h ⊢
    rw [encodeClassC] at h
    have hle : (omMarker ++ payload).length ≤ W.nMaxDatacarrierBytes := by
      rw [useEncodingClassC, Bool.and_eq_true, Bool.and_eq_true, decide_eq_true_eq] at huse
      rw [List.length_append]
      omega
    rw [if_neg (Nat.not_lt.mpr hle)] at h
    rw [← Except.ok.inj h]
    exact ⟨Nat.lt_of_le_of_lt hle W.nMaxDatacarrierBytes_lt, rfl⟩
  · rw [if_neg huse] at h ⊢
    split at h
    · cases h
    · rename_i redeem hredeem
      rw [encodeClassB] at h
      by_cases hlong : 128 ≤ sender.length
      · rw [if_pos hlong] at h
        cases h
      · rw [if_neg hlong] at h
        refine ⟨redeem.bytes, redeem.valid, ?_⟩
        rw [← Except.ok.inj h, List.map_map]
        exact List.map_id _

theorem behindData_pushes (feeScript : Script) (nDonation : Int) {change : List Script}
    (hreceiver : receiver ≠ [] → N.IsAddress receiver)
    (hchange : ∀ s ∈ change, ∃ d, s = getScriptForDestination d ∧ d ≠ .none) (nulldataBlock nBlock : Nat) :
    (behindData N feeScript nDonation receiver change).flatMap (carriedData nulldataBlock nBlock) =
        (if 0 < nDonation then carriedData nulldataBlock nBlock feeScript else []) ∧
      (behindData N feeScript nDonation receiver change).flatMap multisigPushes =
        (if 0 < nDonation then multisigPushes feeScript else []) ∧
      ((∀ s ∈ behindData N feeScript nDonation receiver change, isMarked nulldataBlock nBlock s = false) ↔
        (0 < nDonation → isMarked nulldataBlock nBlock feeScript = false)) ∧
      ((∃ s ∈ behindData N feeScript nDonation receiver change,
          countedType nulldataBlock nBlock s = some .multisig) ↔
        0 < nDonation ∧ countedType nulldataBlock nBlock feeScript = some .multisig) := by
  have hrecv : ∀ s ∈ (if receiver = [] then [] else [getScriptForDestination (N.decode receiver)]),
      ∃ d, s = getScriptForDestination d ∧ d ≠ .none := by
    intro s hs
    by_cases hnil : receiver = []
    · rw [if_pos hnil] at hs
      cases hs
    · rw [if_neg hnil, List.mem_singleton] at hs
      obtain ⟨d, hd, hdne⟩ := hreceiver hnil
      exact ⟨d, by rw [hs, ← hd, N.decode_encode], hdne⟩
  have hquiet : ∀ s, (∃ d, s = getScriptForDestination d ∧ d ≠ .none) →
      isMarked nulldataBlock nBlock s = false ∧ carriedData nulldataBlock nBlock s = [] ∧
        multisigPushes s = [] ∧ countedType nulldataBlock nBlock s ≠ some .multisig := by
    rintro s ⟨d, rfl, hd⟩
    obtain ⟨⟨t, ht, htne⟩, hmark, hpush, -⟩ := @address_seen N nulldataBlock nBlock _ hd
    refine ⟨hmark, carriedData_of_not_marked hmark, hpush, ?_⟩
    rw [ht]
    exact fun h => htne (Option.some.inj h)
  have hcarried : ∀ l : List Script, (∀ s ∈ l, ∃ d, s = getScriptForDestination d ∧ d ≠ .none) →
      l.flatMap (carriedData nulldataBlock nBlock) = [] :=
    fun l hl => List.flatMap_eq_nil_iff.mpr fun s hs => (hquiet s (hl s hs)).2.1
  have hpushes : ∀ l : List Script, (∀ s ∈ l, ∃ d, s = getScriptForDestination d ∧ d ≠ .none) →
      l.flatMap multisigPushes = [] :=
    fun l hl => List.flatMap_eq_nil_iff.mpr fun s hs => (hquiet s (hl s hs)).2.2.1
  have hmem : ∀ s, s ∈ behindData N feeScript nDonation receiver change ↔
      s ∈ (if receiver = [] then [] else [getScriptForDestination (N.decode receiver)]) ∨
        (0 < nDonation ∧ s = feeScript) ∨ s ∈ change := by
    intro s
    rw [behindData, List.mem_append, List.mem_append]
    by_cases hdon : 0 < nDonation
    · rw [if_pos hdon, List.mem_singleton]
      simp [hdon]
    · rw [if_neg hdon]
      simp [hdon]
  refine ⟨?_, ?_, ?_, ?_⟩
  · rw [behindData, List.flatMap_append, List.flatMap_append, hcarried _ hrecv, hcarried _ hchange,
      List.nil_append, List.append_nil]
    split_ifs
    · exact List.flatMap_singleton ..
    · rfl
  · rw [behindData, List.flatMap_append, List.flatMap_append, hpushes _ hrecv, hpushes _ hchange,
      List.nil_append, List.append_nil]
    split_ifs
    · exact List.flatMap_singleton ..
    · rfl
  · constructor
    · intro h hdon
      exact h _ ((hmem _).mpr (.inr (.inl ⟨hdon, rfl⟩)))
    · intro h s hs
      rcases (hmem s).mp hs with hs | ⟨hdon, rfl⟩ | hs
      · exact (hquiet s (hrecv s hs)).1
      · exact h hdon
      · exact (hquiet s (hchange s hs)).1
  · constructor
    · rintro ⟨s, hs, hmulti⟩
      rcases (hmem s).mp hs with hs | ⟨hdon, rfl⟩ | hs
      · exact absurd hmulti (hquiet s (hrecv s hs)).2.2.2
      · exact ⟨hdon, hmulti⟩
      · exact absurd hmulti (hquiet s (hchange s hs)).2.2.2
    · rintro ⟨hdon, hmulti⟩
      exact ⟨feeScript, (hmem _).mpr (.inr (.inl ⟨hdon, rfl⟩)), hmulti⟩

/-- Where the sender gets the change behind the receiver, the receiver is the reference. -/
theorem behindData_reference {feeScript : Script} {nDonation : Int} {change before : List Script}
    {sender : Destination} (nulldataBlock nBlock : Nat) (hdonation : 0 < nDonation → receiver = [])
    (hreceiver : receiver ≠ [] → N.IsAddress receiver ∧ receiver ≠ N.encode N.exodusAddress)
    (hsender : sender ≠ .none)
    (hbefore : ∀ s ∈ before, paidAddress N nulldataBlock nBlock s = none)
    (hchange : change = [] ∨ change = [getScriptForDestination sender] ∧
      getScriptForDestination sender ∉ behindData N feeScript nDonation receiver []) :
    receiver ≠ [] → identifyReference (N.encode N.exodusAddress) (N.encode sender)
      ((before ++ behindData N feeScript nDonation receiver change).filterMap
        (paidAddress N nulldataBlock nBlock)) = receiver := by
  intro hne
  obtain ⟨⟨d, rfl, hd⟩, hexodus⟩ := hreceiver hne
  have hdx : d ≠ N.exodusAddress := fun h => hexodus (by rw [h])
  have hdon : ¬0 < nDonation := fun h => hne (hdonation h)
  have hpaid : ∀ d : Destination, d ≠ .none → paidAddress N nulldataBlock nBlock (getScriptForDestination d) =
      if d = N.exodusAddress then none else some (N.encode d) := fun d hd => (address_seen hd).2.2.2
  have hnone : before.filterMap (paidAddress N nulldataBlock nBlock) = [] :=
    List.filterMap_eq_nil_iff.mpr hbefore
  have hbehind : ∀ change, behindData N feeScript nDonation (N.encode d) change =
      getScriptForDestination d :: change := by
    intro change
    rw [behindData, if_neg hne, if_neg hdon, N.decode_encode]
    rfl
  rw [List.filterMap_append, hnone, List.nil_append, hbehind, List.filterMap_cons, hpaid d hd, if_neg hdx]
  rcases hchange with rfl | ⟨rfl, hnew⟩
  · exact identifyReference_single hexodus
  · have hother : d ≠ sender := by
      rintro rfl
      rw [hbehind] at hnew
      exact hnew (.head _)
    rw [List.filterMap_cons, hpaid sender hsender]
    by_cases hsx : sender = N.exodusAddress
    · rw [if_pos hsx]
      exact identifyReference_single hexodus
    · rw [if_neg hsx]
      have hne' : N.encode d ≠ N.encode sender := fun heq => hother (N.encode_inj.mp heq)
      have hsx' : N.encode sender ≠ N.encode N.exodusAddress := fun heq => hsx (N.encode_inj.mp heq)
      exact (identifyReference_two hexodus hsx').trans (if_pos ⟨rfl, hne'⟩)

/-- **Reading what the builder made.** -/
theorem walletTxBuilder_recovers_iff (hview : ∀ c ∈ W.coins, D.view c.prevout = some c.out.out)
    (hR : R.receiverAddresses = receiversOf receiver) (hdonation : 0 < R.nDonation → receiver = [])
    (hreceiver : receiver ≠ [] → N.IsAddress receiver ∧ receiver ≠ N.encode N.exodusAddress)
    (h : W.walletTxBuilder N C E rounds R = .ok tx) :
    Recovers N D tx nBlock idx nTime (classOf W C.nulldataBlock R.payload) R.senderAddress receiver R.payload ↔
      BuildReadable N W C D nBlock R := by
  obtain ⟨selected, dataOutputs, round, hselected, hne, hencode, hround, hassemble⟩ := walletTxBuilder_spec h
  obtain ⟨hcoins, hsome, hvalue, hscripts⟩ := createTransaction_selected hne hround
  obtain ⟨hvin, hvout⟩ := assemble_spec hassemble
  have hmine : ∀ c ∈ selected, c ∈ W.coins ∧ OwnCoin N R.senderAddress c.out.out := by
    intro c hc
    rw [hselected] at hc
    exact mem_selectCoins hc
  -- the inputs are the sender's own coins
  have harranged : ∀ c ∈ W.arrange round.setCoins, c ∈ W.coins ∧ OwnCoin N R.senderAddress c.out.out := by
    intro c hc
    obtain ⟨hw, hsame⟩ := hcoins c ((W.arrange_perm _).mem_iff.mp hc)
    exact ⟨hw, ownCoin_of_prevout hview hmine hw hsame⟩
  have hspent := mapM_view (fun c hc => hview c (harranged c hc).1) hvin
  have hown : ∀ o ∈ (W.arrange round.setCoins).map (·.out.out), OwnCoin N R.senderAddress o := by
    intro o ho
    obtain ⟨c, hc, rfl⟩ := List.mem_map.mp ho
    exact (harranged c hc).2
  have hpos : 0 < totalOut ((W.arrange round.setCoins).map (·.out.out)) := by
    have hperm : totalOut ((W.arrange round.setCoins).map (·.out.out)) = coinValue round.setCoins := by
      rw [coinValue, totalOut, totalOut]
      exact (((W.arrange_perm round.setCoins).map _).map _).sum_eq
    rw [hperm]
    exact hvalue
  obtain ⟨c, hc⟩ := List.exists_mem_of_ne_nil _ hne
  obtain ⟨S, hS, hSne⟩ := (hmine c hc).2.isAddress
  have hsender : R.senderAddress ≠ [] := by
    rw [← hS]
    exact fun hnil => hSne (N.encode_eq_nil.mp hnil)
  -- the outputs are the data and what stands behind
  have hdec : N.decode R.senderAddress = S := by rw [← hS, N.decode_encode]
  rw [buildOutputs_scripts hR fun hr => (hreceiver hr).1, hdec, ← hvout] at hscripts
  obtain ⟨change, hchange, hquiet, htx⟩ : ∃ change : List Script,
      (change = [] ∨ change = [getScriptForDestination S] ∧
        getScriptForDestination S ∉ behindData N C.feeScript R.nDonation receiver []) ∧
      (∀ s ∈ change, ∃ d, s = getScriptForDestination d ∧ d ≠ .none) ∧
      tx.vout.map TxOut.scriptPubKey = dataOutputs.map TxOut.scriptPubKey ++
        behindData N C.feeScript R.nDonation receiver change := by
    rcases hscripts with hsame | ⟨hnew, happ⟩
    · exact ⟨[], .inl rfl, fun s hs => absurd hs List.not_mem_nil, hsame⟩
    · refine ⟨[getScriptForDestination S], .inr ⟨rfl, fun hmem => hnew (List.mem_append_right _ hmem)⟩,
        fun s hs => ⟨S, List.mem_singleton.mp hs, hSne⟩, ?_⟩
      rw [happ, behindData, behindData, List.append_nil, List.append_assoc, List.append_assoc]
  obtain ⟨hcarried, hpushes, hmarked, hmulti⟩ := behindData_pushes C.feeScript R.nDonation
    (fun hr => (hreceiver hr).1) hquiet D.nulldataBlock nBlock
  have hdata := encodePayload_scripts hencode
  rw [BuildReadable]
  by_cases huse : W.useEncodingClassC C.nulldataBlock R.payload.length = true
  · rw [if_pos huse] at hdata ⊢
    have hcls : classOf W C.nulldataBlock R.payload = .classC := by rw [classOf, if_pos huse]
    have hbefore : ∀ s ∈ dataOutputs.map TxOut.scriptPubKey,
        paidAddress N D.nulldataBlock nBlock s = none := by
      intro s hs
      rw [hdata.2, List.mem_singleton] at hs
      rw [hs]
      exact (data_seen hdata.1).2.2.2.1
    have href := behindData_reference D.nulldataBlock nBlock hdonation hreceiver hSne hbefore hchange
    rw [hS, ← htx] at href
    rw [hcls, recovers_iff (.inr rfl) hspent (identifySender_own hown hpos _) hsender, if_neg (by decide)]
    have hsplit : tx.vout.map TxOut.scriptPubKey = [] ++ (opReturn :: pushData (omMarker ++ R.payload)) ::
        behindData N C.feeScript R.nDonation receiver change := by
      rw [htx, hdata.2]
      rfl
    have hiff := @classC_iff N D.nulldataBlock nBlock _ _ _ _ hdata.1 hsplit
      (fun s hs => absurd hs List.not_mem_nil)
    rw [hcarried] at hiff
    have hextra : (if 0 < R.nDonation then carriedData D.nulldataBlock nBlock C.feeScript else []) = [] ↔
        (0 < R.nDonation → carriedData D.nulldataBlock nBlock C.feeScript = []) := by
      by_cases hdon : 0 < R.nDonation
      · simp [hdon]
      · simp [hdon]
    rw [hextra] at hiff
    constructor
    · rintro ⟨hclass, -, hcarries⟩
      obtain ⟨hle, hlen, hadds⟩ := hiff.mp ⟨hclass, hcarries⟩
      exact ⟨hle, hlen, fun hdon => hadds.imp id fun hadds => hadds hdon⟩
    · rintro ⟨hle, hlen, hadds⟩
      have hadds' : R.payload.length = maxPackets * packetSize ∨
          (0 < R.nDonation → carriedData D.nulldataBlock nBlock C.feeScript = []) := by
        by_cases hfull : R.payload.length = maxPackets * packetSize
        · exact .inl hfull
        · exact .inr fun hdon => (hadds hdon).resolve_left hfull
      obtain ⟨hclass, hcarries⟩ := hiff.mpr ⟨hle, hlen, hadds'⟩
      exact ⟨hclass, href, hcarries⟩
  · rw [if_neg huse] at hdata ⊢
    have hcls : classOf W C.nulldataBlock R.payload = .classB := by rw [classOf, if_neg huse]
    obtain ⟨redeem, hredeem, hdata⟩ := hdata
    have hbefore : ∀ s ∈ dataOutputs.map TxOut.scriptPubKey,
        paidAddress N D.nulldataBlock nBlock s = none := by
      intro s hs
      rw [hdata] at hs
      rcases List.mem_append.mp hs with hs | hs
      · obtain ⟨keys, hkeys, rfl⟩ := List.mem_map.mp hs
        obtain ⟨h2, h16, hvalid⟩ := multisigKeys_spec hredeem keys hkeys
        exact (multisig_seen hvalid h2 h16).2.2.2
      · have hexodus : N.exodusAddress ≠ .none := by
          rw [TokenNetwork.exodusAddress]
          exact Destination.noConfusion
        rw [List.mem_singleton.mp hs, (address_seen hexodus).2.2.2, if_pos rfl]
    have href := behindData_reference D.nulldataBlock nBlock hdonation hreceiver hSne hbefore hchange
    rw [hS, ← htx] at href
    rw [hcls, recovers_iff (.inl rfl) hspent (identifySender_own hown hpos _) hsender, if_pos rfl]
    have hsplit : tx.vout.map TxOut.scriptPubKey =
        (multisigKeys N E R.senderAddress redeem R.payload.length 0 R.payload).map (getScriptForMultisig 1) ++
          getScriptForDestination N.exodusAddress :: behindData N C.feeScript R.nDonation receiver change := by
      rw [htx, hdata, List.append_assoc]
      rfl
    have hiff := @classB_iff N D.nulldataBlock nBlock _ _ _ _ _ _ hredeem hsplit
    rw [hpushes, hmarked, hmulti] at hiff
    constructor
    · rintro ⟨hclass, -, hcarries⟩
      obtain ⟨hm, hlen, hmark, hzero⟩ := hiff.mp ⟨hclass, hcarries⟩
      refine ⟨hm, hlen, fun hdon => ⟨hmark hdon, ?_⟩⟩
      rw [if_pos hdon] at hzero
      exact hzero
    · rintro ⟨hm, hlen, hadds⟩
      have hzero : ∀ b ∈ decodePackets (hashesOf N R.senderAddress) (packetCount R.payload.length)
          ((if 0 < R.nDonation then multisigPushes C.feeScript else []).take
            (maxPackets - packetCount R.payload.length)), b = 0 := by
        by_cases hdon : 0 < R.nDonation
        · rw [if_pos hdon]
          exact (hadds hdon).2
        · rw [if_neg hdon, List.take_nil]
          exact fun b hb => absurd hb List.not_mem_nil
      obtain ⟨hclass, hcarries⟩ := hiff.mpr ⟨hm, hlen, fun hdon => (hadds hdon).1, hzero⟩
      exact ⟨hclass, href, hcarries⟩

end Builder

/-! ### Funding by another address -/

section Funded

variable {N : TokenNetwork} {W : TokenWallet} {C D : ParseContext} {rounds nBlock idx nTime : Nat}
  {R : FundedRequest} {tx : Transaction}

open TokenWallet

/-- The output that carries a payload in class C. -/
def dataOutput (payload : List UInt8) : TxOut := ⟨0, opReturn :: pushData (omMarker ++ payload)⟩

/-- With the coins and the fee that the wallet settles on, the fee address gets change. -/
def FundedChange (N : TokenNetwork) (W : TokenWallet) (rounds : Nat) (R : FundedRequest) : Prop :=
  ∃ round, W.fundedRound N rounds R [dataOutput R.payload] = some round ∧
    paysChange W (W.fundedOutputs N R [dataOutput R.payload]) (N.decode R.feeAddress) round.setCoins round.nFee

/-- When a funded request can be read: the payload fits, and change does not stand in the way of
the receiver, or takes its place where receiver and fee address are one. -/
def FundedReadable (N : TokenNetwork) (W : TokenWallet) (D : ParseContext) (nBlock rounds : Nat)
    (R : FundedRequest) : Prop :=
  D.nulldataBlock ≤ nBlock ∧ R.payload.length ≤ maxPackets * packetSize ∧
    (R.receiverAddress ≠ [] →
      (R.receiverAddress = R.senderAddress → R.feeAddress = R.senderAddress ∨
        R.feeAddress = N.encode N.exodusAddress ∨ ¬FundedChange N W rounds R) ∧
      (R.receiverAddress = R.feeAddress → FundedChange N W rounds R))

theorem createFundedTransaction_spec (h : W.createFundedTransaction N C rounds R = .ok tx) :
    (omMarker ++ R.payload).length < 2 ^ 32 ∧ W.selectAllCoins N R.senderAddress ≠ [] ∧
      ∃ round, W.fundedRound N rounds R [dataOutput R.payload] = some round ∧
        W.assemble
          ((⟨N.decode R.feeAddress, W.selectAllCoins N R.senderAddress, true⟩ : CoinControl).listSelected ++
            ((W.arrange round.setCoins).map WalletCoin.prevout).filter
              (!(⟨N.decode R.feeAddress, W.selectAllCoins N R.senderAddress, true⟩ : CoinControl).listSelected.contains ·))
          round.vout = some tx := by
  rw [createFundedTransaction] at h
  by_cases huse : (!W.useEncodingClassC C.nulldataBlock R.payload.length) = true
  · rw [if_pos huse] at h
    cases h
  rw [if_neg huse] at h
  rw [Bool.not_eq_true, Bool.not_eq_false', useEncodingClassC, Bool.and_eq_true, Bool.and_eq_true,
    decide_eq_true_eq] at huse
  have hle : (omMarker ++ R.payload).length ≤ W.nMaxDatacarrierBytes := by
    rw [List.length_append]
    omega
  rw [encodeClassC, if_neg (Nat.not_lt.mpr hle)] at h
  dsimp only at h
  by_cases hzero : coinValue (W.selectAllCoins N R.senderAddress) = 0
  · rw [if_pos hzero] at h
    cases h
  rw [if_neg hzero] at h
  refine ⟨Nat.lt_of_le_of_lt hle W.nMaxDatacarrierBytes_lt, ?_, ?_⟩
  · intro hnil
    rw [hnil] at hzero
    exact hzero rfl
  · split at h
    · cases h
    · rename_i round hround
      by_cases hself : round.nChangePosInOut = none ∧ R.receiverAddress = R.feeAddress
      · rw [if_pos hself] at h
        cases h
      · rw [if_neg hself] at h
        split at h
        · cases h
        · rename_i tx' htx
          split_ifs at h
          cases h
          exact ⟨round, hround, htx⟩

/-- The coins of a funded transaction are the wallet's, and its outputs those asked for, with the
change in front if there is any. -/
theorem fundedRound_spec {dataOutputs : List TxOut} {round : TokenWallet.Round}
    (hselected : ∀ c ∈ W.selectAllCoins N R.senderAddress, c ∈ W.coins)
    (h : W.fundedRound N rounds R dataOutputs = some round) :
    (∀ c ∈ round.setCoins, c ∈ W.coins) ∧
      (paysChange W (W.fundedOutputs N R dataOutputs) (N.decode R.feeAddress) round.setCoins round.nFee ∧
          round.vout.map TxOut.scriptPubKey = getScriptForDestination (N.decode R.feeAddress) ::
            (W.fundedOutputs N R dataOutputs).map TxOut.scriptPubKey ∨
        ¬paysChange W (W.fundedOutputs N R dataOutputs) (N.decode R.feeAddress) round.setCoins round.nFee ∧
          round.vout.map TxOut.scriptPubKey = (W.fundedOutputs N R dataOutputs).map TxOut.scriptPubKey) := by
  obtain ⟨-, hloop⟩ := createTransaction_loop h
  obtain ⟨n, nFee, before, setCoins, -, hselect, hplace, -⟩ := createLoop_spec le_rfl hloop
  obtain ⟨hcoins, hfee, hchange, -⟩ := placeChange_cases hplace
  rw [hcoins, hfee]
  refine ⟨fun c hc => ?_, ?_⟩
  · rcases mem_selectCoinsToSpend hselect c hc with hc | hc
    · exact (mem_availableCoins hc).1
    · exact hselected c hc
  · rcases hchange with ⟨hpays, -, -, hvout⟩ | ⟨hpays, hvout, -⟩
    · refine .inl ⟨hpays, ?_⟩
      rw [hvout]
      rfl
    · exact .inr ⟨hpays, hvout⟩

theorem mapM_view_some {ins : List TxIn} (h : ∀ i ∈ ins, ∃ o, D.view i.prevout = some o) :
    ∃ spent, (ins.mapM fun i => D.view i.prevout) = some spent ∧
      ∀ i rest, ins = i :: rest → ∃ o rest', spent = o :: rest' ∧ D.view i.prevout = some o := by
  induction ins with
  | nil => exact ⟨[], rfl, fun i rest h => absurd h.symm (List.cons_ne_nil _ _)⟩
  | cons i ins ih =>
    obtain ⟨o, ho⟩ := h i (.head _)
    obtain ⟨spent, hspent, -⟩ := ih fun i' hi' => h i' (.tail _ hi')
    refine ⟨o :: spent, ?_, fun i' rest heq => ?_⟩
    · rw [List.mapM_cons, ho, hspent]
      rfl
    · obtain ⟨rfl, -⟩ := List.cons.inj heq
      exact ⟨o, spent, rfl, ho⟩

theorem mem_listSelected {coinControl : CoinControl} {p : OutPoint} :
    p ∈ coinControl.listSelected ↔ ∃ c ∈ coinControl.setSelected, c.prevout = p := by
  rw [CoinControl.listSelected, List.mem_insertionSort, List.mem_dedup, List.mem_map]

theorem identifySender_funded (hview : ∀ c ∈ W.coins, D.view c.prevout = some c.out.out)
    {selected : List WalletCoin} (hne : selected ≠ [])
    (hselected : ∀ c ∈ selected, c ∈ W.coins ∧ OwnCoin N R.senderAddress c.out.out) {dest : Destination}
    {others : List OutPoint} (hothers : ∀ p ∈ others, ∃ o, D.view p = some o)
    (hvin : tx.vin.map TxIn.prevout = (⟨dest, selected, true⟩ : CoinControl).listSelected ++ others) :
    ∃ spent, (tx.vin.mapM fun i => D.view i.prevout) = some spent ∧
      identifySender N .classC spent = .ok R.senderAddress := by
  have hfound : ∀ i ∈ tx.vin, ∃ o, D.view i.prevout = some o := by
    intro i hi
    have hmem : i.prevout ∈ tx.vin.map TxIn.prevout := List.mem_map_of_mem hi
    rw [hvin] at hmem
    rcases List.mem_append.mp hmem with hmem | hmem
    · obtain ⟨c, hc, heq⟩ := mem_listSelected.mp hmem
      rw [← heq]
      exact ⟨_, hview c (hselected c hc).1⟩
    · exact hothers _ hmem
  obtain ⟨c, hc⟩ := List.exists_mem_of_ne_nil _ hne
  have hsome : (⟨dest, selected, true⟩ : CoinControl).listSelected ≠ [] :=
    List.ne_nil_of_mem (mem_listSelected.mpr ⟨c, hc, rfl⟩)
  obtain ⟨p, points, hpoints⟩ := List.exists_cons_of_ne_nil hsome
  obtain ⟨spent, hspent, hfirst⟩ := mapM_view_some hfound
  refine ⟨spent, hspent, ?_⟩
  rw [hpoints, List.cons_append] at hvin
  obtain ⟨i, ins, hins, hp, -⟩ := List.map_eq_cons_iff.mp hvin
  obtain ⟨o, rest, rfl, ho⟩ := hfirst i ins hins
  have hmem : p ∈ (⟨dest, selected, true⟩ : CoinControl).listSelected := by
    rw [hpoints]
    exact .head _
  obtain ⟨c', hc', heq⟩ := mem_listSelected.mp hmem
  rw [hp, ← heq, hview c' (hselected c' hc').1, Option.some.injEq] at ho
  rw [identifySender, if_pos rfl, ← ho]
  exact (hselected c' hc').2.source _

/-- **Reading what was funded.** -/
theorem createFundedTransaction_recovers_iff (hview : ∀ c ∈ W.coins, D.view c.prevout = some c.out.out)
    (hfee : N.IsAddress R.feeAddress)
    (hreceiver : R.receiverAddress ≠ [] →
      N.IsAddress R.receiverAddress ∧ R.receiverAddress ≠ N.encode N.exodusAddress)
    (h : W.createFundedTransaction N C rounds R = .ok tx) :
    Recovers N D tx nBlock idx nTime .classC R.senderAddress R.receiverAddress R.payload ↔
      FundedReadable N W D nBlock rounds R := by
  obtain ⟨hsize, hne, round, hround, hassemble⟩ := createFundedTransaction_spec h
  obtain ⟨hcoins, hscripts⟩ := fundedRound_spec (fun c hc => (mem_selectAllCoins hc).1) hround
  obtain ⟨hvin, hvout⟩ := assemble_spec hassemble
  have hchange : FundedChange N W rounds R ↔
      paysChange W (W.fundedOutputs N R [dataOutput R.payload]) (N.decode R.feeAddress) round.setCoins
        round.nFee := by
    constructor
    · rintro ⟨round', hround', hpays⟩
      rw [hround, Option.some.injEq] at hround'
      rw [hround']
      exact hpays
    · exact fun hpays => ⟨round, hround, hpays⟩
  rw [← hchange, ← hvout] at hscripts
  -- the inputs
  obtain ⟨spent, hspent, hsender⟩ := identifySender_funded hview hne (fun c hc => mem_selectAllCoins hc)
    (fun p hp => by
      obtain ⟨c, hc, rfl⟩ := List.mem_map.mp (List.mem_filter.mp hp).1
      exact ⟨_, hview c (hcoins c ((W.arrange_perm _).mem_iff.mp hc))⟩) hvin
  have hsome : R.senderAddress ≠ [] := by
    obtain ⟨c, hc⟩ := List.exists_mem_of_ne_nil _ hne
    obtain ⟨S, hS, hSne⟩ := (mem_selectAllCoins hc).2.isAddress
    rw [← hS]
    exact fun hnil => hSne (N.encode_eq_nil.mp hnil)
  rw [recovers_iff (.inr rfl) hspent hsender hsome, if_neg (by decide)]
  -- the outputs
  obtain ⟨F, hF, hFne⟩ := hfee
  have hdecF : N.decode R.feeAddress = F := by rw [← hF, N.decode_encode]
  rw [hdecF] at hscripts
  obtain ⟨before, hbefore⟩ : ∃ before : List Script, before = [] ∧ ¬FundedChange N W rounds R ∨
      before = [getScriptForDestination F] ∧ FundedChange N W rounds R := by
    by_cases hc : FundedChange N W rounds R
    · exact ⟨_, .inr ⟨rfl, hc⟩⟩
    · exact ⟨_, .inl ⟨rfl, hc⟩⟩
  obtain ⟨behind, hbehind⟩ : ∃ behind : List Script,
      behind = [] ∧ (R.receiverAddress = [] ∨ R.receiverAddress = R.feeAddress) ∨
        behind = [getScriptForDestination (N.decode R.receiverAddress)] ∧ R.receiverAddress ≠ [] ∧
          R.receiverAddress ≠ R.feeAddress := by
    by_cases hb : R.receiverAddress ≠ [] ∧ R.receiverAddress ≠ R.feeAddress
    · exact ⟨_, .inr ⟨rfl, hb⟩⟩
    · rw [not_and_or, not_not, not_not] at hb
      exact ⟨_, .inl ⟨rfl, hb⟩⟩
  have hfunded : (W.fundedOutputs N R [dataOutput R.payload]).map TxOut.scriptPubKey =
      (opReturn :: pushData (omMarker ++ R.payload)) :: behind := by
    rw [fundedOutputs]
    rcases hbehind with ⟨rfl, hb⟩ | ⟨rfl, hb⟩
    · rw [if_neg (by rw [not_and_or, not_not, not_not]; exact hb)]
      rfl
    · rw [if_pos hb]
      rfl
  have hsplit : tx.vout.map TxOut.scriptPubKey =
      before ++ (opReturn :: pushData (omMarker ++ R.payload)) :: behind := by
    rw [← hfunded]
    rcases hbefore with ⟨rfl, hc⟩ | ⟨rfl, hc⟩
    · exact (hscripts.resolve_left fun h => hc h.1).2
    · exact (hscripts.resolve_right fun h => h.1 hc).2
  have hpaid : ∀ d : Destination, d ≠ .none →
      paidAddress N D.nulldataBlock nBlock (getScriptForDestination d) =
        if d = N.exodusAddress then none else some (N.encode d) := fun d hd => (address_seen hd).2.2.2
  have hquiet : ∀ d : Destination, d ≠ .none →
      isMarked D.nulldataBlock nBlock (getScriptForDestination d) = false :=
    fun d hd => (address_seen (N := N) hd).2.1
  have hdata : paidAddress N D.nulldataBlock nBlock (opReturn :: pushData (omMarker ++ R.payload)) = none :=
    (data_seen hsize).2.2.2.1
  have hmarked : ∀ s ∈ before, isMarked D.nulldataBlock nBlock s = false := by
    intro s hs
    rcases hbefore with ⟨rfl, -⟩ | ⟨rfl, -⟩
    · cases hs
    · rw [List.mem_singleton.mp hs]
      exact hquiet F hFne
  have hempty : behind.flatMap (carriedData D.nulldataBlock nBlock) = [] := by
    refine List.flatMap_eq_nil_iff.mpr fun s hs => carriedData_of_not_marked ?_
    rcases hbehind with ⟨rfl, -⟩ | ⟨rfl, hne, -⟩
    · cases hs
    · obtain ⟨⟨T, hT, hTne⟩, -⟩ := hreceiver hne
      rw [List.mem_singleton.mp hs, ← hT, N.decode_encode]
      exact hquiet T hTne
  have hiff := classC_iff (N := N) hsize hsplit hmarked
  have hpayload : R.payload.length ≤ maxPackets * packetSize ∧
      (R.payload.length = maxPackets * packetSize ∨
        behind.flatMap (carriedData D.nulldataBlock nBlock) = []) ↔
      R.payload.length ≤ maxPackets * packetSize := and_iff_left (.inr hempty)
  rw [hpayload] at hiff
  have href : (R.receiverAddress ≠ [] → identifyReference (N.encode N.exodusAddress) R.senderAddress
        ((tx.vout.map TxOut.scriptPubKey).filterMap (paidAddress N D.nulldataBlock nBlock)) =
          R.receiverAddress) ↔
      (R.receiverAddress ≠ [] →
        (R.receiverAddress = R.senderAddress → R.feeAddress = R.senderAddress ∨
          R.feeAddress = N.encode N.exodusAddress ∨ ¬FundedChange N W rounds R) ∧
        (R.receiverAddress = R.feeAddress → FundedChange N W rounds R)) := by
    refine imp_congr_right fun hr => ?_
    obtain ⟨⟨T, hT, hTne⟩, hTx⟩ := hreceiver hr
    rw [hsplit, List.filterMap_append, List.filterMap_cons, hdata]
    by_cases hsame : R.receiverAddress = R.feeAddress
    · -- the change is the only output to the receiver
      have hnil : behind = [] := by
        rcases hbehind with ⟨hnil, -⟩ | ⟨-, -, hother⟩
        · exact hnil
        · exact absurd hsame hother
      rw [hnil, List.filterMap_nil, List.append_nil]
      rcases hbefore with ⟨rfl, hc⟩ | ⟨rfl, hc⟩
      · rw [List.filterMap_nil, identifyReference_nil]
        exact iff_of_false (fun h => hr h.symm) (fun h => hc (h.2 hsame))
      · have hFx : F ≠ N.exodusAddress := by
          rintro rfl
          exact hTx (hsame.trans hF.symm)
        rw [List.filterMap_cons, hpaid F hFne, if_neg hFx, hF, ← hsame]
        rw [List.filterMap_nil, identifyReference_single hTx]
        refine iff_of_true rfl ⟨fun hself => .inl ?_, fun _ => hc⟩
        exact hself
    · have hlast : behind = [getScriptForDestination T] := by
        rcases hbehind with ⟨-, hnil | hsame'⟩ | ⟨hlast, -, -⟩
        · exact absurd hnil hr
        · exact absurd hsame' hsame
        · rw [hlast, ← hT, N.decode_encode]
      have hTexodus : T ≠ N.exodusAddress := by
        rintro rfl
        exact hTx hT.symm
      rw [hlast, List.filterMap_cons, hpaid T hTne, if_neg hTexodus, hT]
      rw [List.filterMap_nil]
      rcases hbefore with ⟨rfl, hc⟩ | ⟨rfl, hc⟩
      · rw [List.filterMap_nil, List.nil_append, identifyReference_single hTx]
        exact iff_of_true rfl ⟨fun _ => .inr (.inr hc), fun h => absurd h hsame⟩
      · rw [List.filterMap_cons, hpaid F hFne, List.filterMap_nil]
        by_cases hFx : F = N.exodusAddress
        · rw [if_pos hFx]
          rw [List.nil_append, identifyReference_single hTx]
          refine iff_of_true rfl ⟨fun _ => .inr (.inl ?_), fun h => absurd h hsame⟩
          rw [← hF, hFx]
        · have hfx : R.feeAddress ≠ N.encode N.exodusAddress := by
            rw [← hF]
            exact fun heq => hFx (N.encode_inj.mp heq)
          rw [if_neg hFx, hF]
          rw [List.singleton_append, identifyReference_two hfx hTx]
          by_cases hself : R.receiverAddress = R.senderAddress ∧ R.feeAddress ≠ R.senderAddress
          · rw [if_pos hself]
            refine iff_of_false (fun h => hsame h.symm) fun h => ?_
            rcases h.1 hself.1 with h | h | h
            · exact hself.2 h
            · exact hfx h
            · exact h hc
          · rw [if_neg hself]
            refine iff_of_true rfl ⟨fun hrs => .inl ?_, fun h => absurd h hsame⟩
            by_contra hfs
            exact hself ⟨hrs, hfs⟩
  rw [href, FundedReadable]
  constructor
  · rintro ⟨hclass, hreads, hcarries⟩
    obtain ⟨hle, hlen⟩ := hiff.mp ⟨hclass, hcarries⟩
    exact ⟨hle, hlen, hreads⟩
  · rintro ⟨hle, hlen, hreads⟩
    obtain ⟨hclass, hcarries⟩ := hiff.mpr ⟨hle, hlen⟩
    exact ⟨hclass, hreads, hcarries⟩

end Funded

/-! ### Both ways of building -/

section Both

open TokenWallet

/-- **What the wallet builds is read as it was asked for, exactly when** the request is readable:
`BuildReadable` for `WalletTxBuilder`, `FundedReadable` for `CreateFundedTransaction`. -/
theorem wallet_transactions_mean_asked_iff {N : TokenNetwork} {W : TokenWallet} {D : ParseContext}
    (hview : ∀ c ∈ W.coins, D.view c.prevout = some c.out.out) :
    (∀ (C : ParseContext) (E : Entropy) (rounds nBlock idx nTime : Nat) (R : BuildRequest)
        (receiver : List UInt8) (tx : Transaction),
      R.receiverAddresses = receiversOf receiver → (0 < R.nDonation → receiver = []) →
      (receiver ≠ [] → N.IsAddress receiver ∧ receiver ≠ N.encode N.exodusAddress) →
      W.walletTxBuilder N C E rounds R = .ok tx →
        (Recovers N D tx nBlock idx nTime (classOf W C.nulldataBlock R.payload) R.senderAddress receiver
          R.payload ↔ BuildReadable N W C D nBlock R)) ∧
    (∀ (C : ParseContext) (rounds nBlock idx nTime : Nat) (R : FundedRequest) (tx : Transaction),
      N.IsAddress R.feeAddress →
      (R.receiverAddress ≠ [] → N.IsAddress R.receiverAddress ∧ R.receiverAddress ≠ N.encode N.exodusAddress) →
      W.createFundedTransaction N C rounds R = .ok tx →
        (Recovers N D tx nBlock idx nTime .classC R.senderAddress R.receiverAddress R.payload ↔
          FundedReadable N W D nBlock rounds R)) := by
  constructor
  · intro C E rounds nBlock idx nTime R receiver tx hR hdonation hreceiver h
    exact walletTxBuilder_recovers_iff hview hR hdonation hreceiver h
  · intro C rounds nBlock idx nTime R tx hfee hreceiver h
    exact createFundedTransaction_recovers_iff hview hfee hreceiver h

/-- A network with plain checksums. -/
def plainNetwork : TokenNetwork where
  addresses := plainAddresses
  pubkey_ne_script := by decide
  isNonMainNet := true
  exodus := Vector.replicate 20 7
  exodus_main h := by exact absurd h (by decide)
  hash160 _ := Vector.replicate 20 0
  sha256 _ := Vector.replicate 32 0
  isFullyValid _ := true

/-- Two addresses of a wallet. -/
def walletKey (b : UInt8) : Destination := .keyID (Vector.replicate 20 b)

/-- A wallet with a coin of each address. -/
def pairWallet : TokenWallet where
  mapWallet := [⟨77, true, true, true,
    [⟨⟨50000, getScriptForDestination (walletKey 1)⟩, .spendable, true, false, false⟩,
      ⟨⟨500000, getScriptForDestination (walletKey 2)⟩, .spendable, true, false, false⟩]⟩]
  getPubKeyFromDestination _ := none
  selectCoinsMinConf _ nTargetValue coins := if nTargetValue ≤ coinValue coins then some coins else none
  selectCoinsMinConf_subset {round target coins picked} h := by
    rw [Option.ite_none_right_eq_some, Option.some.injEq] at h
    rw [h.2]
    exact List.Subset.refl _
  arrange coins := coins
  arrange_perm _ := List.Perm.refl _
  sign _ _ := some fun _ => []
  dummySigns _ := true
  getHash _ _ := 78
  signedSize coins vout := 148 * coins.length + 34 * vout.length
  goesFree _ _ := false
  goesFree_nil _ := rfl
  accepts _ _ := true
  minRelayTxFee := (10000 : Int)
  minRelayTxFee_pos := by decide
  minTxFee := (10000 : Int)
  payTxFee := (0 : Int)
  smartFee := ((0 : Int), 1)
  nTxConfirmTarget := 1
  maxTxFee := 100000000
  fDataCarrier := true
  nMaxDatacarrierBytes := 83
  nMaxDatacarrierBytes_lt := by decide
  height := 100

/-- The chain with the wallet's transaction. -/
def pairContext : ParseContext where
  nulldataBlock := 0
  feeScript := getScriptForDestination (walletKey 9)
  view p := (pairWallet.coins.find? fun c => c.prevout = p).map (·.out.out)

/-- Tokens sent to oneself, with a fee address or without. -/
def toOneself (feeKey : UInt8) : FundedRequest where
  senderAddress := plainNetwork.encode (walletKey 1)
  receiverAddress := plainNetwork.encode (walletKey 1)
  feeAddress := plainNetwork.encode (walletKey feeKey)
  payload := [0, 0, 0, 0]

/-- Tokens for the second address, from the first. -/
def toOther : BuildRequest where
  senderAddress := plainNetwork.encode (walletKey 1)
  receiverAddresses := receiversOf (plainNetwork.encode (walletKey 2))
  redemptionAddress := []
  referenceAmount := 0
  payload := [0, 0, 0, 0]
  commit := true
  nDonation := 0

theorem pairWallet_runs :
    (∀ c ∈ pairWallet.coins, pairContext.view c.prevout = some c.out.out) ∧
      (pairWallet.walletTxBuilder plainNetwork pairContext ⟨fun _ => 0, fun _ => 0⟩ 10
        toOther).toOption.isSome = true ∧
      (pairWallet.createFundedTransaction plainNetwork pairContext 10 (toOneself 1)).toOption.isSome = true ∧
      ((pairWallet.createFundedTransaction plainNetwork pairContext 10 (toOneself 2)).toOption.bind fun tx =>
        (parseTransaction plainNetwork pairContext tx 100 0 0).toOption.map fun read =>
          (read.1, read.2.receiver)) = some (0, (toOneself 2).feeAddress) ∧
      (toOneself 2).receiverAddress ≠ [] ∧ (toOneself 2).feeAddress ≠ (toOneself 2).receiverAddress := by
  decide +kernel

theorem isAddress_walletKey (b : UInt8) : plainNetwork.IsAddress (plainNetwork.encode (walletKey b)) :=
  ⟨walletKey b, rfl, Destination.noConfusion⟩

theorem encode_walletKey_ne (b : UInt8) (h : b ≠ 7) :
    plainNetwork.encode (walletKey b) ≠ plainNetwork.encode plainNetwork.exodusAddress := by
  intro heq
  have hhash : Vector.replicate 20 b = Vector.replicate 20 7 :=
    Destination.keyID.inj (plainNetwork.encode_inj.mp heq)
  have hfirst := congrArg (fun v : Vector UInt8 20 => v.toList.headD 0) hhash
  exact h (by simpa using hfirst)

theorem eq_ok_of_toOption {ε α : Type} {result : Except ε α} {a : α} (h : result.toOption = some a) :
    result = .ok a := by
  cases result with
  | error code => exact absurd h (by simp [Except.toOption])
  | ok a' => exact congrArg _ (Option.some.inj h)

theorem exists_ok {ε α : Type} {result : Except ε α} (h : result.toOption.isSome = true) :
    ∃ a, result = .ok a := by
  obtain ⟨a, ha⟩ := Option.isSome_iff_exists.mp h
  exact ⟨a, eq_ok_of_toOption ha⟩

theorem pairWallet_transactions_mean_asked :
    (∃ tx, pairWallet.walletTxBuilder plainNetwork pairContext ⟨fun _ => 0, fun _ => 0⟩ 10 toOther = .ok tx ∧
      (Recovers plainNetwork pairContext tx 100 0 0 (classOf pairWallet 0 toOther.payload)
          toOther.senderAddress (plainNetwork.encode (walletKey 2)) toOther.payload ↔
        BuildReadable plainNetwork pairWallet pairContext pairContext 100 toOther)) ∧
    ∃ tx, pairWallet.createFundedTransaction plainNetwork pairContext 10 (toOneself 1) = .ok tx ∧
      (Recovers plainNetwork pairContext tx 100 0 0 .classC (toOneself 1).senderAddress
          (toOneself 1).receiverAddress (toOneself 1).payload ↔
        FundedReadable plainNetwork pairWallet pairContext 100 10 (toOneself 1)) := by
  obtain ⟨hview, hbuilds, hfunds, -⟩ := pairWallet_runs
  obtain ⟨hbuilt, hfunded⟩ := wallet_transactions_mean_asked_iff (N := plainNetwork) hview
  constructor
  · obtain ⟨tx, htx⟩ := exists_ok hbuilds
    exact ⟨tx, htx, hbuilt _ _ _ _ _ _ _ _ tx rfl (fun h => absurd h (by decide))
      (fun _ => ⟨isAddress_walletKey 2, encode_walletKey_ne 2 (by decide)⟩) htx⟩
  · obtain ⟨tx, htx⟩ := exists_ok hfunds
    exact ⟨tx, htx, hfunded _ _ _ _ _ _ tx (isAddress_walletKey 1)
      (fun _ => ⟨isAddress_walletKey 1, encode_walletKey_ne 1 (by decide)⟩) htx⟩

/-- With change for the fee address, tokens that go to the sender are read as going to the fee
address. -/
theorem toOneself_goes_to_fee_address :
    (∀ c ∈ pairWallet.coins, pairContext.view c.prevout = some c.out.out) ∧
    plainNetwork.IsAddress (toOneself 2).feeAddress ∧ plainNetwork.IsAddress (toOneself 2).receiverAddress ∧
    (toOneself 2).receiverAddress ≠ plainNetwork.encode plainNetwork.exodusAddress ∧
    ∃ tx, pairWallet.createFundedTransaction plainNetwork pairContext 10 (toOneself 2) = .ok tx ∧
      (∃ mp, parseTransaction plainNetwork pairContext tx 100 0 0 = .ok (0, mp) ∧
        mp.receiver = (toOneself 2).feeAddress) ∧
      ¬Recovers plainNetwork pairContext tx 100 0 0 .classC (toOneself 2).senderAddress
        (toOneself 2).receiverAddress (toOneself 2).payload := by
  obtain ⟨hview, -, -, hrun, hne, hdifferent⟩ := pairWallet_runs
  refine ⟨hview, isAddress_walletKey 2, isAddress_walletKey 1, encode_walletKey_ne 1 (by decide), ?_⟩
  obtain ⟨tx, htx, hread⟩ := Option.bind_eq_some_iff.mp hrun
  obtain ⟨read, hparse, heq⟩ := Option.map_eq_some_iff.mp hread
  obtain ⟨hzero, hreceiver⟩ := Prod.mk.inj heq
  refine ⟨tx, eq_ok_of_toOption htx, ⟨read.2, ?_, hreceiver⟩, ?_⟩
  · rw [eq_ok_of_toOption hparse, ← hzero]
  · rintro ⟨mp, hparse', -, -, hr, -⟩
    rw [eq_ok_of_toOption hparse] at hparse'
    have hsame : read.2 = mp := congrArg Prod.snd (Except.ok.inj hparse')
    have hfee : (toOneself 2).feeAddress = (toOneself 2).receiverAddress := by
      rw [← hreceiver, hsame]
      exact hr hne
    exact absurd hfee hdifferent

end Both

end Rapids.Payload
