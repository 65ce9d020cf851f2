import Rapids.Lib.Text
import Rapids.Masternode.BroadcastSound
import Rapids.Masternode.Winners

/-!
# Rapids.Masternode.OwnBroadcast

**A node announces a masternode of its own** (`CMasternodeBroadcast::Create`), and what a peer says
to the broadcast.

`Create` asks for a service on the default port of the network. The peer's checks ask for a port too,
but not by the network's parameters: it is 28732 on the main network, and any other elsewhere. The
default port of the main network is 1591, so no peer there accepts what a node announces. On the
other networks a peer accepts it unless the ping is for no block, which is so where the tip is not
high enough (`own_broadcast_accepted_iff`).

The wallet, the keys and the lookup of the service are parameters; so are signatures, which the node
verifies itself before it sends them.
-/

namespace Rapids.Masternode

open Rapids.Lib Rapids.Chain

variable {mnb : MasternodeBroadcast}

/-- `PROTOCOL_VERSION`, which `ActiveProtocol` returns as well. -/
def protocolVersion : Int := 70916

/-- `MNPING_DEPTH` -/
def mnPingDepth : Int := 12

/-- `GetDefaultPort` -/
def getDefaultPort : Network → Nat
  | .main => 1591
  | .test => 11591
  | .regtest => 21591

/-- `NetworkIDString` -/
def networkIDString : Network → String
  | .main => "main"
  | .test => "test"
  | .regtest => "regtest"

/-- The key of a masternode: its public key, and `SignHash` for a ping. -/
structure MasternodeKey where
  pubKey : List UInt8
  signHash : MasternodePing → Option (List UInt8)

/-- A collateral in the wallet: an output that a transaction has, its public key, and `SignMessage` for
a broadcast. -/
structure CollateralKey where
  txHash : Nat
  nOutputIndex : Nat
  index_lt : nOutputIndex < 2147483648
  pubKey : List UInt8
  signMessage : MasternodeBroadcast → Option (List UInt8)

/-- A node that announces masternodes. -/
structure Announcer where
  network : Network
  code : MasternodeCode
  mainNet_eq : code.mainNet = decide (network = .main)
  fImporting : Bool
  fReindex : Bool
  /-- `mnodeman.GetBestHeight` -/
  nBestHeight : Int
  /-- The hash of a block of the chain, from the cache or from the chain. -/
  hashAt : Int → Nat
  isReachable : ServiceAddr → Bool
  isRoutable : ServiceAddr → Bool
  /-- `CService::ToString` and `CNetAddr::ToStringIP` -/
  toString : ServiceAddr → String
  toStringIP : ServiceAddr → String
  /-- `GetKeysFromSecret` -/
  getKeysFromSecret : String → Option MasternodeKey
  /-- `GetMasternodeVinAndKeys`, of a transaction hash and an output index -/
  getMasternodeVinAndKeys : String → String → Except String CollateralKey
  /-- `SplitHostPort` and `LookupNumeric`, with the port that is taken where there is none -/
  lookup : String → Nat → ServiceAddr

namespace Announcer

variable (A : Announcer) (now : Int)

/-- `GetHashAtHeight` -/
def getHashAtHeight (nHeight : Int) : Nat :=
  if nHeight < 0 then 0 else if A.nBestHeight < nHeight then 0 else A.hashAt nHeight

/-- `GetBlockHashToPing` -/
def getBlockHashToPing : Nat := A.getHashAtHeight (A.nBestHeight - mnPingDepth)

/-- `IsValidNetAddr` -/
def isValidNetAddr (service : ServiceAddr) : Bool :=
  decide (A.network = .regtest) || (A.isReachable service && A.isRoutable service)

/-- `CSignedMessage::Sign` of a ping: the signature is verified at once. -/
def signPing (key : MasternodeKey) (mnp : MasternodePing) : Option MasternodePing :=
  (key.signHash { mnp with nMessVersion := messVerHash }).bind fun vchSig =>
    let mnp := { mnp with nMessVersion := messVerHash, vchSig := vchSig }
    if A.code.checkPing mnp key.pubKey then some mnp else none

/-- `CMasternodeBroadcast::Sign` -/
def sign (collateral : CollateralKey) (mnb : MasternodeBroadcast) : Option MasternodeBroadcast :=
  (collateral.signMessage { mnb with nMessVersion := messVerHash }).bind fun vchSig =>
    let mnb := { mnb with nMessVersion := messVerHash, vchSig := vchSig }
    if A.code.checkSignature mnb then some mnb else none

/-- `CheckDefaultPort` -/
def checkDefaultPort (service : ServiceAddr) : Except String Unit :=
  if service.port ≠ getDefaultPort A.network then
    .error ("Invalid port " ++ String.ofList (intText service.port) ++ " for masternode " ++ A.toString service ++
      ", only " ++ String.ofList (intText (getDefaultPort A.network)) ++ " is supported on " ++
      networkIDString A.network ++ "-net.")
  else .ok ()

/-- `Create` of a collateral, a service and keys. -/
def createWith (collateral : CollateralKey) (service : ServiceAddr) (key : MasternodeKey) :
    Except String MasternodeBroadcast :=
  let txin : TxIn := ⟨⟨collateral.txHash, collateral.nOutputIndex⟩, []⟩
  let nSequence := 4294967295
  if A.fImporting || A.fReindex then .error ""
  else
    match A.signPing key ⟨txin, nSequence, A.getBlockHashToPing, now, [], messVerHash⟩ with
    | none => .error ("Failed to sign ping, masternode=" ++ String.ofList (hexText 64 collateral.txHash))
    | some mnp =>
      if !A.isValidNetAddr service then
        .error ("Invalid IP address " ++ A.toStringIP service ++ ", masternode=" ++
          String.ofList (hexText 64 collateral.txHash))
      else
        match A.sign collateral ⟨txin, nSequence, service, collateral.pubKey, key.pubKey, [], messVerHash, now,
            protocolVersion, mnp, false⟩ with
        | none => .error ("Failed to sign broadcast, masternode=" ++ String.ofList (hexText 64 collateral.txHash))
        | some mnb => .ok mnb

/-- `Create` of what the user gives. -/
def create (blockchainSynced fOffline : Bool) (strService strKeyMasternode strTxHash strOutputIndex : String) :
    Except String MasternodeBroadcast :=
  if !fOffline && !blockchainSynced then
    .error "Sync in progress. Must wait until sync is complete to start Masternode"
  else
    match A.getKeysFromSecret strKeyMasternode with
    | none => .error ("Invalid masternode key " ++ strKeyMasternode)
    | some key =>
      match A.getMasternodeVinAndKeys strTxHash strOutputIndex with
      | .error strError => .error strError
      | .ok collateral =>
        let service := A.lookup strService (getDefaultPort A.network)
        match A.checkDefaultPort service with
        | .error strErrorRet => .error strErrorRet
        | .ok () => A.createWith now collateral service key

/-! ### What is announced -/

variable {A} {now}

theorem signPing_eq_some {key : MasternodeKey} {mnp mnp' : MasternodePing} (h : A.signPing key mnp = some mnp') :
    mnp'.vin = mnp.vin ∧ mnp'.blockHash = mnp.blockHash ∧ mnp'.sigTime = mnp.sigTime := by
  obtain ⟨vchSig, -, hchecked⟩ := Option.bind_eq_some_iff.mp h
  dsimp only at hchecked
  split_ifs at hchecked
  cases hchecked
  exact ⟨rfl, rfl, rfl⟩

/-- A broadcast that is signed keeps what it says, and passes the check of its signature. -/
theorem sign_eq_some {collateral : CollateralKey} {mnb' : MasternodeBroadcast}
    (h : A.sign collateral mnb = some mnb') :
    A.code.checkSignature mnb' = true ∧
      ∃ vchSig, mnb' = { mnb with nMessVersion := messVerHash, vchSig := vchSig } := by
  obtain ⟨vchSig, -, hchecked⟩ := Option.bind_eq_some_iff.mp h
  dsimp only at hchecked
  split_ifs at hchecked with hgood
  cases hchecked
  exact ⟨hgood, vchSig, rfl⟩

/-- **What `Create` makes**: a broadcast and a ping of this moment, for the collateral and the block to
ping, on the default port. -/
structure Announced (A : Announcer) (now : Int) (mnb : MasternodeBroadcast) : Prop where
  port_eq : mnb.addr.port = getDefaultPort A.network
  sigTime_eq : mnb.sigTime = now
  protocolVersion_eq : mnb.protocolVersion = protocolVersion
  scriptSig_eq : mnb.vin.scriptSig = []
  prevout : mnb.vin.prevout.isNull = false
  signed : A.code.checkSignature mnb = true
  ping_vin : mnb.lastPing.vin = mnb.vin
  ping_hash : mnb.lastPing.blockHash = A.getBlockHashToPing
  ping_time : mnb.lastPing.sigTime = now

theorem createWith_announced {collateral : CollateralKey} {service : ServiceAddr} {key : MasternodeKey} (hport : service.port = getDefaultPort A.network)
    (h : A.createWith now collateral service key = .ok mnb) : A.Announced now mnb := by
  rw [createWith] at h
  by_cases hbusy : (A.fImporting || A.fReindex) = true
  · rw [if_pos hbusy] at h
    cases h
  rw [if_neg hbusy] at h
  cases hping : A.signPing key ⟨⟨⟨collateral.txHash, collateral.nOutputIndex⟩, []⟩, 4294967295,
      A.getBlockHashToPing, now, [], messVerHash⟩ with
  | none =>
    rw [hping] at h
    cases h
  | some mnp =>
    rw [hping] at h
    dsimp only at h
    by_cases haddr : (!A.isValidNetAddr service) = true
    · rw [if_pos haddr] at h
      cases h
    rw [if_neg haddr] at h
    cases hsign : A.sign collateral ⟨⟨⟨collateral.txHash, collateral.nOutputIndex⟩, []⟩, 4294967295, service,
        collateral.pubKey, key.pubKey, [], messVerHash, now, protocolVersion, mnp, false⟩ with
    | none =>
      rw [hsign] at h
      cases h
    | some signed =>
      rw [hsign] at h
      cases h
      obtain ⟨hvin, hhash, htime⟩ := signPing_eq_some hping
      obtain ⟨hgood, vchSig, rfl⟩ := sign_eq_some hsign
      have hindex := collateral.index_lt
      refine ⟨hport, rfl, rfl, rfl, ?_, hgood, hvin, hhash, htime⟩
      simp only [OutPoint.isNull, Bool.and_eq_false_iff, decide_eq_false_iff_not]
      right
      omega

theorem create_announced {blockchainSynced fOffline : Bool}
    {strService strKeyMasternode strTxHash strOutputIndex : String}
    (h : A.create now blockchainSynced fOffline strService strKeyMasternode strTxHash strOutputIndex = .ok mnb) :
    A.Announced now mnb := by
  rw [create] at h
  split_ifs at h with hsync
  cases hkey : A.getKeysFromSecret strKeyMasternode with
  | none =>
    rw [hkey] at h
    cases h
  | some key =>
    rw [hkey] at h
    dsimp only at h
    cases hcollateral : A.getMasternodeVinAndKeys strTxHash strOutputIndex with
    | error strError =>
      rw [hcollateral] at h
      cases h
    | ok collateral =>
      rw [hcollateral, checkDefaultPort] at h
      by_cases hport : (A.lookup strService (getDefaultPort A.network)).port = getDefaultPort A.network
      · rw [if_neg (not_not_intro hport)] at h
        exact createWith_announced hport h
      · rw [if_pos hport] at h
        cases h

/-- **A peer's checks** of a masternode that it does not know: the port and the block of the ping are what
is left of them. -/
theorem Announced.checkMessage_eq {E : MasternodeEnv} {m : MasternodeMan}
    (h : A.Announced E.now mnb) (hactive : E.activeProtocol = protocolVersion)
    (hunknown : m.find mnb.vin.prevout = none) :
    MasternodeMan.checkMessage A.code E mnb m =
      (decide (A.getBlockHashToPing ≠ 0) &&
        decide (if A.code.mainNet then mnb.addr.port = 28732 else mnb.addr.port ≠ 28732)) := by
  have hping : mnb.lastPing.isNull = decide (A.getBlockHashToPing = 0) := by
    rw [MasternodePing.isNull, h.ping_vin, h.prevout, h.ping_hash, Bool.or_false]
  have htime : MasternodeMan.checkPingSigTime A.code E mnb.lastPing m = true := by
    rw [MasternodeMan.checkPingSigTime, MasternodeMan.pingSignedOrUnknown, h.ping_vin, hunknown, Option.all_none,
      Bool.and_true, MasternodeMan.pingInTime, h.ping_time]
    simp
  have hpayee : ∀ pubKey, (A.code.payee pubKey).length = 25 := by
    intro pubKey
    simp [MasternodeCode.payee, getScriptForDestination]
  have hfuture : ¬ E.now + 60 * 60 < mnb.sigTime := by
    rw [h.sigTime_eq]
    omega
  have hversion : ¬ mnb.protocolVersion < E.activeProtocol := by
    rw [h.protocolVersion_eq, hactive]
    exact lt_irrefl _
  rw [MasternodeMan.checkMessage, hping, htime, h.scriptSig_eq, h.signed, decide_eq_false hfuture,
    decide_eq_false hversion]
  simp [hpayee]

end Announcer

/-- **A peer accepts the broadcast** that a node has made of its own masternode, which the peer does not
know yet, if and only if the network is not the main network and there is a block to ping. -/
theorem own_broadcast_accepted_iff (A : Announcer) (E : MasternodeEnv) (m : MasternodeMan)
    {blockchainSynced fOffline : Bool} {strService strKeyMasternode strTxHash strOutputIndex : String}
    {mnb : MasternodeBroadcast}
    (hcreate : A.create E.now blockchainSynced fOffline strService strKeyMasternode strTxHash strOutputIndex =
      .ok mnb)
    (hactive : E.activeProtocol = protocolVersion) (hunknown : m.find mnb.vin.prevout = none) :
    (m.checkAndUpdate A.code E mnb).1 = true ↔ A.network ≠ .main ∧ A.getBlockHashToPing ≠ 0 := by
  have hmade := Announcer.create_announced hcreate
  have hchecks := hmade.checkMessage_eq hactive hunknown
  have hresult : (m.checkAndUpdate A.code E mnb).1 = MasternodeMan.checkMessage A.code E mnb m := by
    rw [MasternodeMan.checkAndUpdate, hunknown]
    cases MasternodeMan.checkMessage A.code E mnb m <;> rfl
  rw [hresult, hchecks, A.mainNet_eq, hmade.port_eq]
  cases hnetwork : A.network with
  | main => simp [getDefaultPort]
  | test => simp [getDefaultPort]
  | regtest => simp [getDefaultPort]

/-- A node with one collateral and one key. -/
def announcer (network : Network) : Announcer where
  network := network
  code := { masternodeCode with mainNet := decide (network = .main), regTest := decide (network = .regtest) }
  mainNet_eq := rfl
  fImporting := false
  fReindex := false
  nBestHeight := 100
  hashAt := fun nHeight => 1000 + nHeight.toNat
  isReachable := fun _ => true
  isRoutable := fun _ => true
  toString := fun _ => ""
  toStringIP := fun _ => ""
  getKeysFromSecret := fun _ => some ⟨[8], fun _ => some [1]⟩
  getMasternodeVinAndKeys := fun _ _ => .ok ⟨5, 0, by decide, [7], fun _ => some [1]⟩
  lookup := fun _ nPort => ⟨[8, 8, 8, 8], nPort⟩

/-- What it announces at the time 5000. -/
def announcement (network : Network) : MasternodeBroadcast :=
  ⟨⟨⟨5, 0⟩, []⟩, 4294967295, ⟨[8, 8, 8, 8], getDefaultPort network⟩, [7], [8], [1], messVerHash, 5000,
    protocolVersion, ⟨⟨⟨5, 0⟩, []⟩, 4294967295, 1088, 5000, [1], messVerHash⟩, false⟩

/-- A peer of the same version. -/
def peerEnv : MasternodeEnv := { masternodeEnv with activeProtocol := protocolVersion }

/-- On the test network the broadcast is accepted. -/
theorem own_broadcast_accepted_test :
    (MasternodeMan.empty.checkAndUpdate (announcer .test).code peerEnv (announcement .test)).1 = true := by
  have hcreate : (announcer .test).create 5000 true false "8.8.8.8" "key" "5" "0" = .ok (announcement .test) := rfl
  exact (own_broadcast_accepted_iff (announcer .test) peerEnv MasternodeMan.empty hcreate rfl rfl).mpr
    ⟨by decide, by decide⟩

/-- On the main network `Create` succeeds, and no peer accepts what it has made. -/
theorem own_broadcast_refused_main :
    (announcer .main).create 5000 true false "8.8.8.8" "key" "5" "0" = .ok (announcement .main) ∧
      peerEnv.now = 5000 ∧ MasternodeMan.empty.find (announcement .main).vin.prevout = none ∧
      (MasternodeMan.empty.checkAndUpdate (announcer .main).code peerEnv (announcement .main)).1 = false :=
  ⟨rfl, rfl, rfl, by decide +kernel⟩

end Rapids.Masternode
