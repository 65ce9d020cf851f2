import Rapids.Chain.ReadsConnect
import Rapids.Chain.StakingSound

/-!
# Rapids.Chain.BlockSignature

**Who signs a block** (`SignBlock` and `CheckBlockSignature`, `blocksignature.cpp`). The block is
signed with the key of the coinstake's third output. The other side takes that key from the output
only if the output shows it; if the output has a hash, the key is cut out of the script of the first
input, behind as many bytes as the script itself says.

Signatures are ideal (`Ecdsa`): each was made with one key at most. `blockSignature_iff` says which
of the wallet's own blocks pass, and of which blocks of a peer only existing bytes are read and only
the output's key is accepted: the script must have the bytes it announces, and a key in it that made
the signature must be the key of the output. Nothing compares the two.
-/

namespace Rapids.Chain

open Rapids.Lib

/-! ### Keys and signatures -/

/-- **Ideal ECDSA**, on public keys and hashes. -/
structure Ecdsa where
  /-- `CPubKey::GetID` -/
  getID : List UInt8 → List UInt8
  /-- `CKey::Sign`, for the key with this public key. -/
  sign : PubKey → Nat → List UInt8
  /-- The key that a signature of the hash was made with. -/
  signer : Nat → List UInt8 → Option (List UInt8)
  signer_sign : ∀ k hash, signer hash (sign k hash) = some k.bytes
  /-- A signature is DER. -/
  sign_length : ∀ k hash, 8 ≤ (sign k hash).length ∧ (sign k hash).length ≤ 72

/-- The node, with `Verify` as it should be. -/
def PeerNode.verifying (N : PeerNode) (E : Ecdsa) : PeerNode :=
  { N with checks := { N.checks with
      verify := fun b key => validPubKeySize key && E.signer b.hash b.vchBlockSig = some key } }

/-- The key id that `GetKeyIDFromUTXO` returns for a type. -/
def StakeType.keyID (E : Ecdsa) : StakeType → List UInt8
  | .pubKey pubkey => E.getID pubkey
  | .pubKeyHash hash => hash
  | .coldStake hash => hash

/-- `CTxOut::GetKeyIDFromUTXO` -/
def getKeyIDFromUTXO (E : Ecdsa) (o : TxOut) : Option (List UInt8) :=
  if o.scriptPubKey = [] then none else (solver o.scriptPubKey).map (StakeType.keyID E)

/-- `SignBlock`: the signature. -/
def signBlock (E : Ecdsa) (W : Wallet) (b : CBlock) : Option (List UInt8) := do
  let keyID ←
    if !b.isProofOfStake then do
      let tx ← b.vtx[0]?
      tx.vout.findSome? (getKeyIDFromUTXO E)
    else do
      let tx ← b.vtx[1]?
      if tx.vout.length < 3 then none
      else do
        let o ← tx.vout[2]?
        getKeyIDFromUTXO E o
  let key ← W.getKey keyID
  some (E.sign key b.hash)

/-- `CScript << vector` -/
def pushVector (v : List UInt8) : Script :=
  let n := v.length
  if n < 76 then UInt8.ofNat n :: v
  else if n ≤ 255 then 76 :: UInt8.ofNat n :: v
  else if n ≤ 65535 then 77 :: UInt8.ofNat n :: UInt8.ofNat (n / 256) :: v
  else 78 :: UInt8.ofNat n :: UInt8.ofNat (n / 256) :: UInt8.ofNat (n / 65536) :: UInt8.ofNat (n / 16777216) :: v

/-- `PushAll` -/
def pushAll (values : List (List UInt8)) : Script :=
  (values.map fun v =>
    match v with
    | [] => [0]
    | [x] => if 1 ≤ x && x ≤ 16 then [80 + x] else pushVector v
    | _ => pushVector v).flatten

/-- What `SignStep` puts in front of an output that is staked; the flag of the staker is `OP_TRUE`. -/
def signStep (sig : List UInt8) (k : PubKey) : StakeType → List (List UInt8)
  | .pubKey _ => [sig]
  | .pubKeyHash _ => [sig, k.bytes]
  | .coldStake _ => [sig, [81], k.bytes]

/-- `ProduceSignature`, of a transaction with this hash. -/
def produceSignature (E : Ecdsa) (W : Wallet) (hash : Nat) (kernel : Script) : Option Script := do
  let type ← solver kernel
  let k ← W.getKey (type.keyID E)
  some (pushAll (signStep (E.sign k hash ++ [1]) k type))

/-- Is this the key of an output of the type? -/
def StakeType.Designates (E : Ecdsa) (key : List UInt8) : StakeType → Prop
  | .pubKey pubkey => key = pubkey
  | .pubKeyHash hash => E.getID key = hash
  | .coldStake hash => E.getID key = hash

/-- The wallet has the key that the script is staked with. -/
def HoldsKey (E : Ecdsa) (W : Wallet) (kernel : Script) (k : PubKey) : Prop :=
  ∃ type, solver kernel = some type ∧ W.getKey (type.keyID E) = some k ∧ type.Designates E k.bytes

/-! ### Keys in scripts -/

section
variable {E : Ecdsa} {N : PeerNode} {W : Wallet} {k : PubKey} {s kernel : Script} {onlyP2PK : Bool}
  {b : WireBlock} {tx : Transaction} {i : TxIn} {key : List UInt8}

theorem validPubKeySize_length (h : validPubKeySize key = true) : key.length = 33 ∨ key.length = 65 := by
  cases key with
  | nil => cases h
  | cons header rest =>
    simp only [validPubKeySize, pubKeyLen] at h
    split_ifs at h <;> simp_all

/-- The bytes from an index on are a key if and only if they are read as that key. -/
theorem pubKeyFrom_eq_some {n : Nat} (hvalid : validPubKeySize key = true) :
    pubKeyFrom s n = some key ↔ s.drop n = key := by
  cases key with
  | nil => cases hvalid
  | cons header rest =>
    unfold pubKeyFrom
    by_cases hn : n = s.length
    · rw [if_pos hn, hn, List.drop_length]
      simp
    · rw [if_neg hn]
      constructor
      · intro h
        simp only [do_eq_some, pure_eq_some] at h
        obtain ⟨x, -, h⟩ := h
        split_ifs at h
        exact h
      · intro h
        have hlen : s.length - n = (header :: rest).length := by rw [← h, List.length_drop]
        have hhead : s[n]? = some header := by
          rw [← Nat.add_zero n, ← List.getElem?_drop, h]
          rfl
        have hsize : pubKeyLen header = (header :: rest).length := of_decide_eq_true hvalid
        rw [hhead, hlen, ← hsize]
        simp [h]

/-- A script of a key is recognized as one. -/
theorem solver_pubKeyScript (k : PubKey) : solver (pubKeyScript k) = some (.pubKey k.bytes) := by
  have hlen : (pubKeyScript k).length = k.bytes.length + 2 := by simp [pubKeyScript]
  have hhead : (pubKeyScript k).head? = some (UInt8.ofNat k.bytes.length) := rfl
  have hkey : (pubKeyScript k).tail.dropLast = k.bytes := by simp [pubKeyScript]
  have hlast : (pubKeyScript k).getLast? = some opCheckSig := by
    rw [pubKeyScript, ← List.cons_append, List.getLast?_concat]
  have hmatch : matchPayToPubkey (pubKeyScript k) = some k.bytes := by
    unfold matchPayToPubkey
    dsimp only
    rw [hkey, hlen, hhead, hlast, k.valid]
    rcases validPubKeySize_length k.valid with h | h <;> rw [h] <;> rfl
  unfold solver isPayToScriptHash startsWithOpcode
  rw [hmatch, hlen, hhead]
  rcases validPubKeySize_length k.valid with h | h <;> rw [h] <;> simp [opZerocoinMint, opReturn]

/-- The script paid to again has the same key, and the same type unless a hash becomes its key. -/
theorem HoldsKey.stakeScript (hk : HoldsKey E W kernel k) (hs : stakeScript W onlyP2PK kernel = some s) :
    HoldsKey E W s k ∧ ((∃ pubkey, solver s = some (.pubKey pubkey)) ∨ s = kernel) ∧
      ∀ hash, solver s = some (.pubKeyHash hash) → onlyP2PK = false := by
  obtain ⟨type, htype, hget, hdes⟩ := hk
  unfold Chain.stakeScript at hs
  rw [htype] at hs
  cases type with
  | pubKey pubkey =>
    cases hs
    exact ⟨⟨_, htype, hget, hdes⟩, .inr rfl, fun _ h => nomatch htype.symm.trans h⟩
  | coldStake hash =>
    obtain ⟨-, -, rfl⟩ := Option.map_eq_some_iff.mp hs
    exact ⟨⟨_, htype, hget, hdes⟩, .inr rfl, fun _ h => nomatch htype.symm.trans h⟩
  | pubKeyHash hash =>
    obtain ⟨k', hget', rfl⟩ := Option.map_eq_some_iff.mp hs
    obtain rfl : k = k' := Option.some.inj (hget.symm.trans hget')
    cases onlyP2PK with
    | false => exact ⟨⟨_, htype, hget, hdes⟩, .inr rfl, fun _ _ => rfl⟩
    | true =>
      have hgetID : E.getID k.bytes = hash := hdes
      have hpub := solver_pubKeyScript k
      refine ⟨⟨_, hpub, ?_, rfl⟩, .inl ⟨_, hpub⟩, fun _ h => nomatch hpub.symm.trans h⟩
      rw [StakeType.keyID, hgetID]
      exact hget

/-! ### The key that is verified with -/

/-- The script of the first input has the key where it is looked for. -/
def ShowsKey (N : PeerNode) (scriptSig : Script) (key : List UInt8) : StakeType → Prop
  | .pubKey pubkey => key = pubkey
  | .pubKeyHash _ =>
    networkUpgradeActive N.upgradeV5 N.active.length = true ∧ scriptSig.length ≠ 73 ∧
      ∃ sig, scriptSig[0]? = some sig ∧ scriptSig.drop (1 + sig.toNat + 1) = key
  | .coldStake _ =>
    ∃ sig flag, scriptSig[0]? = some sig ∧ scriptSig[1 + sig.toNat]? = some flag ∧
      scriptSig.drop (1 + sig.toNat + (1 + flag.toNat) + 1) = key

/-- So does the coinstake; of a zerocoin spend the key is in the spend. -/
def ShownKey (N : PeerNode) (tx : Transaction) (i : TxIn) (key : List UInt8) : Prop :=
  if i.isZerocoinSpend then
    ∃ spend, scriptSigToSerializedSpend i.scriptSig = some spend ∧ N.checks.spendKey spend = some key
  else ∃ o type, tx.vout[2]? = some o ∧ solver o.scriptPubKey = some type ∧ ShowsKey N i.scriptSig key type

theorem outputKey_eq_some {type : StakeType} (hvalid : validPubKeySize key = true) :
    N.outputKey (some type) s = some (some key) ↔ ShowsKey N s key type := by
  cases type with
  | pubKey pubkey =>
    simp only [PeerNode.outputKey, ShowsKey, Option.some.injEq]
    exact eq_comm
  | pubKeyHash hash =>
    unfold PeerNode.outputKey ShowsKey
    cases networkUpgradeActive N.upgradeV5 N.active.length with
    | false => simp
    | true =>
      by_cases hlen : s.length = 73
      · simp [hlen]
      · simp [hlen, Option.bind_eq_some_iff, pubKeyFrom_eq_some hvalid]
  | coldStake hash =>
    simp [PeerNode.outputKey, ShowsKey, Option.bind_eq_some_iff, pubKeyFrom_eq_some hvalid]

theorem stakeKey_eq_some (hvalid : validPubKeySize key = true) :
    N.stakeKey tx i = some (some key) ↔ ShownKey N tx i key := by
  unfold PeerNode.stakeKey ShownKey
  by_cases hzc : i.isZerocoinSpend = true
  · rw [if_pos hzc, if_pos hzc, Option.map_eq_some_iff]
  rw [if_neg hzc, if_neg hzc]
  by_cases hlen : tx.vout.length < 3
  · rw [if_pos hlen, List.getElem?_eq_none_iff.mpr (by omega)]
    simp
  obtain ⟨o, ho⟩ := exists_getElem? (l := tx.vout) (i := 2) (by omega)
  rw [if_neg hlen, ho, Option.bind_eq_bind, Option.bind_some]
  cases htype : solver o.scriptPubKey with
  | none => simp [PeerNode.outputKey, htype]
  | some type => simp [outputKey_eq_some hvalid, htype]

/-- When a proof-of-stake block passes: the coinstake shows the key that signed. -/
theorem checkBlockSignature_eq_true (hpos : b.isProofOfStake = true) (htx : b.vtx[1]? = some tx)
    (hi : tx.vin[0]? = some i) :
    (N.verifying E).checkBlockSignature b = some true ↔
      b.vchBlockSig ≠ [] ∧ ∃ key, validPubKeySize key = true ∧
        E.signer b.hash b.vchBlockSig = some key ∧ ShownKey N tx i key := by
  unfold PeerNode.checkBlockSignature
  rw [hpos, if_neg (by simp)]
  by_cases hsig : b.vchBlockSig = []
  · simp [hsig]
  have hkey : (N.verifying E).stakeKey tx i = N.stakeKey tx i := rfl
  simp only [List.isEmpty_iff, hsig, if_false, htx, hi, Option.bind_eq_bind, Option.bind_some, ne_eq,
    not_false_eq_true, true_and, Option.bind_eq_some_iff, Option.some.injEq, Option.any_eq_true,
    PeerNode.verifying, Bool.and_eq_true, decide_eq_true_eq]
  constructor
  · rintro ⟨_, hkey, key, rfl, hvalid, hsigner⟩
    exact ⟨key, hvalid, hsigner, (stakeKey_eq_some hvalid).mp hkey⟩
  · rintro ⟨key, hvalid, hsigner, hshown⟩
    exact ⟨_, (stakeKey_eq_some hvalid).mpr hshown, key, rfl, hvalid, hsigner⟩

/-- The third output is one of this key. -/
def OutputDesignates (E : Ecdsa) (tx : Transaction) (key : List UInt8) : Prop :=
  ∃ o type, tx.vout[2]? = some o ∧ solver o.scriptPubKey = some type ∧ type.Designates E key

/-- **What the check is for**: it reads inside the block, and accepts only a signature by the key of
the third output. -/
def SafelyVerified (E : Ecdsa) (N : PeerNode) (b : WireBlock) : Prop :=
  (N.verifying E).checkBlockSignature b ≠ none ∧
    ((N.verifying E).checkBlockSignature b = some true → b.isProofOfStake = true →
      ∃ tx key, b.vtx[1]? = some tx ∧ E.signer b.hash b.vchBlockSig = some key ∧ OutputDesignates E tx key)

/-- A key in the coinstake that made the signature is the key of the third output. -/
def ShowsOutputKey (E : Ecdsa) (N : PeerNode) (b : WireBlock) : Prop :=
  b.isProofOfStake = true → b.vchBlockSig ≠ [] → ∀ tx i key, b.vtx[1]? = some tx → tx.vin[0]? = some i →
    validPubKeySize key = true → E.signer b.hash b.vchBlockSig = some key → ShownKey N tx i key →
      OutputDesignates E tx key

theorem safelyVerified_iff :
    SafelyVerified E N b ↔ (N.verifying E).SignatureReadable b ∧ ShowsOutputKey E N b := by
  unfold SafelyVerified
  rw [PeerNode.checkBlockSignature_ne_none, and_congr_right_iff]
  intro _
  constructor
  · intro hall hpos hsig tx i key htx hi hvalid hsigner hshown
    obtain ⟨tx', key', htx', hsigner', hdes⟩ :=
      hall ((checkBlockSignature_eq_true hpos htx hi).mpr ⟨hsig, key, hvalid, hsigner, hshown⟩) hpos
    obtain rfl := Option.some.inj (htx.symm.trans htx')
    obtain rfl := Option.some.inj (hsigner.symm.trans hsigner')
    exact hdes
  · intro hall hok hpos
    obtain ⟨tx, i, htx, hi, -⟩ := coinstake_of_isProofOfStake hpos
    obtain ⟨hsig, key, hvalid, hsigner, hshown⟩ := (checkBlockSignature_eq_true hpos htx hi).mp hok
    exact ⟨tx, key, htx, hsigner, hall hpos hsig tx i key htx hi hvalid hsigner hshown⟩

/-! ### The wallet's own block -/

/-- A block with a coinstake that the wallet made of one of its coins and whose key it holds; signed with
`SignSignature` and `SignBlock`. -/
structure OwnBlock (E : Ecdsa) (N : PeerNode) (W : Wallet) (getHash sigHash : List TxIn → List TxOut → Nat)
    (coins : List (COutput × Attempt)) (tx : Transaction) (b : WireBlock) : Prop where
  created : createCoinStake N.params N.payments W (!networkUpgradeActive N.upgradeV5 N.active.length)
    N.active.length getHash coins = some tx
  spends : tx.vin ≠ []
  vtx_one : b.vtx[1]? = some tx
  signed : signBlock E W b.toCBlock = some b.vchBlockSig
  outpoint : ∀ c ∈ coins.map Prod.fst, c.hash ≠ 0
  holds : ∀ c ∈ coins.map Prod.fst, tx.vin.map TxIn.prevout = [⟨c.hash, c.i⟩] →
    ∃ k, HoldsKey E W c.out.scriptPubKey k
  signs : ∀ c ∈ coins.map Prod.fst, ∀ vin vout scriptSig, vin.map TxIn.prevout = [⟨c.hash, c.i⟩] →
    W.sign vin vout = some scriptSig →
      produceSignature E W (sigHash vin vout) c.out.scriptPubKey = some scriptSig

theorem pushAll_cons {v : List UInt8} {rest : List (List UInt8)} (hlow : 2 ≤ v.length) (hhigh : v.length < 76) :
    pushAll (v :: rest) = UInt8.ofNat v.length :: (v ++ pushAll rest) := by
  have hpush : pushVector v = UInt8.ofNat v.length :: v := if_pos hhigh
  unfold pushAll
  rw [List.map_cons, List.flatten_cons]
  cases v with
  | nil => cases hlow
  | cons x v =>
    cases v with
    | nil => cases hlow with | step h => cases h
    | cons y v =>
      rw [hpush, List.cons_append]

/-- The wallet's own script shows the key, unless an upgrade is missing or the size is taken for
that of a lone signature. -/
theorem showsKey_produced {hash : Nat} {type : StakeType} (hk : HoldsKey E W kernel k)
    (htype : solver kernel = some type) (hactive : ∀ h, type = .pubKeyHash h →
      networkUpgradeActive N.upgradeV5 N.active.length = true)
    (hs : produceSignature E W hash kernel = some s) :
    ShowsKey N s k.bytes type ↔ ∀ h, type = .pubKeyHash h → s.length ≠ 73 := by
  obtain ⟨type', htype', hget, hdes⟩ := hk
  obtain rfl := Option.some.inj (htype.symm.trans htype')
  have hscript : pushAll (signStep (E.sign k hash ++ [1]) k type) = s := by
    simp only [produceSignature, Option.bind_eq_bind, htype, Option.bind_some, hget, Option.some.injEq] at hs
    exact hs
  have hsig := E.sign_length k hash
  have hkey : 2 ≤ k.bytes.length ∧ k.bytes.length < 76 := by
    rcases validPubKeySize_length k.valid with h | h <;> omega
  obtain ⟨sig, hsigEq, hlow, hhigh⟩ : ∃ sig, sig = E.sign k hash ++ [1] ∧ 2 ≤ sig.length ∧ sig.length < 76 :=
    ⟨_, rfl, by rw [List.length_append, List.length_singleton]; omega,
      by rw [List.length_append, List.length_singleton]; omega⟩
  rw [← hsigEq] at hscript
  have hbyte : (UInt8.ofNat sig.length).toNat = sig.length := by
    rw [UInt8.toNat_ofNat']
    omega
  have hlast : pushAll [k.bytes] = UInt8.ofNat k.bytes.length :: k.bytes := by
    rw [pushAll_cons hkey.1 hkey.2]
    simp [pushAll]
  cases type with
  | pubKey pubkey => exact ⟨fun _ h hh => (nomatch hh), fun _ => hdes⟩
  | pubKeyHash h =>
    obtain rfl : _ = s := hscript
    rw [signStep, pushAll_cons hlow hhigh, hlast]
    constructor
    · intro hshows _ _
      exact hshows.2.1
    · intro hlen
      refine ⟨hactive h rfl, hlen h rfl, _, rfl, ?_⟩
      rw [hbyte, Nat.add_comm 1, List.drop_succ_cons, ← List.drop_drop, List.drop_left]
      rfl
  | coldStake h =>
    obtain rfl : _ = s := hscript
    have hflag : pushAll [[81], k.bytes] = 1 :: 81 :: pushAll [k.bytes] := rfl
    rw [signStep, pushAll_cons hlow hhigh, hflag, hlast]
    refine ⟨fun _ h hh => (nomatch hh), fun _ => ⟨_, 1, rfl, ?_, ?_⟩⟩
    · rw [hbyte, Nat.add_comm 1, List.getElem?_cons_succ, List.getElem?_append_right (le_refl _), Nat.sub_self]
      rfl
    · rw [hbyte, show 1 + sig.length + (1 + (1 : UInt8).toNat) + 1 = sig.length + 3 + 1 from by
        rw [show (1 : UInt8).toNat = 1 from rfl]; omega, List.drop_succ_cons, ← List.drop_drop, List.drop_left]
      rfl

/-- A coinstake that was made of a coin has the script that the wallet signed it with. -/
theorem createCoinStake_spends {P : ChainParams} {M : Payments} {nHeight : Nat}
    {getHash : List TxIn → List TxOut → Nat} {coins : List (COutput × Attempt)}
    (h : createCoinStake P M W onlyP2PK nHeight getHash coins = some tx) (hvin : tx.vin ≠ []) :
    ∃ c ∈ coins.map Prod.fst, ∃ s outs vin scriptSig, Stakes P M W onlyP2PK nHeight c s outs tx.vin tx.vout ∧
      vin.map TxIn.prevout = [⟨c.hash, c.i⟩] ∧ W.sign vin tx.vout = some scriptSig ∧
        tx.vin = [⟨⟨c.hash, c.i⟩, scriptSig⟩] := by
  simp only [createCoinStake, do_eq_some] at h
  obtain ⟨⟨vin, vout⟩, hsearch, vin', hsign, h⟩ := h
  cases h
  have hprev := sign_prevouts hsign
  rcases kernelSearch_cases hsearch with ⟨rfl, -⟩ | ⟨c, hc, s, outs, hstake⟩
  · exact absurd (List.map_eq_nil_iff.mp hprev) hvin
  obtain ⟨i, rfl, hi⟩ := List.map_eq_singleton_iff.mp hstake.prevout_eq
  simp only [List.mapM_cons, List.mapM_nil, Option.pure_def, do_eq_some, Option.map_eq_some_iff,
    Option.some.injEq] at hsign
  obtain ⟨j, ⟨scriptSig, hsig, rfl⟩, _, rfl, rfl⟩ := hsign
  exact ⟨c, hc, s, outs, [i], scriptSig, ⟨hstake.script_eq, hstake.stake, hprev.trans hstake.prevout_eq,
    hstake.vout_eq⟩, by rw [List.map_singleton, hi], hsig, by rw [hi]⟩

/-- **The wallet's own block passes**, unless its script has the size of a lone signature. -/
theorem OwnBlock.accepted_iff {getHash sigHash : List TxIn → List TxOut → Nat}
    {coins : List (COutput × Attempt)} (h : OwnBlock E N W getHash sigHash coins tx b) :
    (N.verifying E).checkBlockSignature b = some true ↔
      ∀ i o hash, tx.vin[0]? = some i → tx.vout[2]? = some o → solver o.scriptPubKey = some (.pubKeyHash hash) →
        i.scriptSig.length ≠ 73 := by
  obtain ⟨c, hc, s, outs, vin, scriptSig, hstake, hvin, hsign, htxvin⟩ := createCoinStake_spends h.created h.spends
  obtain ⟨k, hk⟩ := h.holds c hc hstake.prevout_eq
  obtain ⟨hks, hsame, honly⟩ := hk.stakeScript hstake.script_eq
  obtain ⟨type, htype, hget, hdes⟩ := hks
  have hscript := h.signs c hc vin tx.vout scriptSig hvin hsign
  have hi : tx.vin[0]? = some ⟨⟨c.hash, c.i⟩, scriptSig⟩ := by rw [htxvin]; rfl
  -- The third output is the first of the stake.
  obtain ⟨o, ho, hos⟩ : ∃ o, tx.vout[2]? = some o ∧ o.scriptPubKey = s := by
    obtain ⟨o, rest, houts⟩ := List.exists_cons_of_ne_nil hstake.stake.ne_nil
    exact ⟨o, by rw [hstake.vout_eq, houts]; rfl, hstake.stake.script o (houts ▸ (.head _))⟩
  have hlen : ¬ tx.vout.length < 3 := by
    intro hlt
    rw [List.getElem?_eq_none_iff.mpr (by omega)] at ho
    cases ho
  have hpos : b.isProofOfStake = true := by
    have hnull : (⟨c.hash, c.i⟩ : OutPoint).isNull = false := by simp [OutPoint.isNull, h.outpoint c hc]
    unfold CBlock.isProofOfStake
    rw [h.vtx_one]
    unfold Transaction.isCoinStake
    simp [htxvin, hstake.vout_eq, stakeHead, hnull, TxOut.isEmpty]
  have hsig : b.vchBlockSig = E.sign k b.hash := by
    have hne : s ≠ [] := by
      rintro rfl
      cases htype
    have hsigned := h.signed
    simp only [signBlock, hpos, Bool.not_true, Bool.false_eq_true, if_false, h.vtx_one, Option.bind_eq_bind,
      Option.bind_some, if_neg hlen, ho, getKeyIDFromUTXO, hos, if_neg hne, htype, Option.map_some, hget,
      Option.some.injEq] at hsigned
    exact hsigned.symm
  have hne : b.vchBlockSig ≠ [] := by
    intro hnil
    have hlow := (E.sign_length k b.hash).1
    rw [← hsig, hnil] at hlow
    cases hlow
  have hzc : (⟨⟨c.hash, c.i⟩, scriptSig⟩ : TxIn).isZerocoinSpend = false := by
    simp [TxIn.isZerocoinSpend, h.outpoint c hc]
  have hshown : (N.verifying E).checkBlockSignature b = some true ↔ ShowsKey N scriptSig k.bytes type := by
    rw [checkBlockSignature_eq_true hpos h.vtx_one hi, hsig, E.signer_sign]
    simp [hne, ← hsig, ShownKey, hzc, ho, hos, htype, k.valid]
  rw [hshown]
  have hcond : (∀ i o hash, tx.vin[0]? = some i → tx.vout[2]? = some o →
      solver o.scriptPubKey = some (.pubKeyHash hash) → i.scriptSig.length ≠ 73) ↔
        ∀ hash, type = .pubKeyHash hash → scriptSig.length ≠ 73 := by
    constructor
    · intro hall hash hh
      exact hall _ o hash hi ho (by rw [hos, htype, hh])
    · intro hall i' o' hash hi' ho' hsolve
      obtain rfl := Option.some.inj (hi.symm.trans hi')
      obtain rfl := Option.some.inj (ho.symm.trans ho')
      rw [hos, htype] at hsolve
      exact hall hash (Option.some.inj hsolve)
  rw [hcond]
  rcases hsame with ⟨pubkey, hpub⟩ | rfl
  · obtain rfl := Option.some.inj (htype.symm.trans hpub)
    exact ⟨fun _ hash => StakeType.noConfusion, fun _ => hdes⟩
  · refine showsKey_produced hk htype (fun hash hh => ?_) hscript
    have hoff := honly hash (hh ▸ htype)
    simpa using hoff

end

/-- Signatures that show their key. -/
def plainEcdsa : Ecdsa where
  getID key := key.take 20
  sign k _ := k.bytes ++ List.replicate 7 0
  signer _ sig := some (sig.take (sig.length - 7))
  signer_sign k _ := by simp
  sign_length k _ := by
    rw [List.length_append, List.length_replicate]
    rcases validPubKeySize_length k.valid with h | h <;> omega

def stakeKey : PubKey := ⟨2 :: List.replicate 32 7, by decide⟩

/-- A wallet with that key. -/
def keyWallet : Wallet where
  getKey id := if id = plainEcdsa.getID stakeKey.bytes then some stakeKey else none
  nStakeSplitThreshold := 0
  sign _ _ := some (41 :: (stakeKey.bytes ++ List.replicate 7 0 ++ [1]))

/-- A block with a coinstake that has this script and this third output. -/
def signedBlock (scriptSig : Script) (o : TxOut) : WireBlock :=
  { oneTxBlock 6 5 0 with
    vtx := [emptyCoinbase, ⟨100, [⟨⟨7, 0⟩, scriptSig⟩], [⟨0, []⟩,
      ⟨1783500, getScriptForDestination mainParams.devFund⟩, o]⟩]
    vchBlockSig := plainEcdsa.sign stakeKey 6
    sig_nil := fun h => by cases h }

end Rapids.Chain
