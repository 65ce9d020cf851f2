import Rapids.Payload.Interpret
import Rapids.Payload.Outputs

/-!
# Rapids.Payload.Encoding

**Writing a payload into outputs** (`tokencore/encoding.cpp`, and the hashes of
`tokencore/parsing.cpp`).

In class C the payload stands behind a marker in one `OP_RETURN` output. In class B
it is cut into **packets** of thirty bytes. A packet has a sequence number in front,
is padded to 31 bytes, and every byte is masked with a hash: the first hash is that
of the sender's address, and each further one is that of the hash before it, written
out in hexadecimal. The masked packet is dressed as a compressed public key, with a
last byte that is tried until there is a point with that coordinate. One or two such
keys, behind a key that can really spend the output, make a multisig output; the
last output pays the Exodus address.

There are as many hashes as one byte can number. The 256th packet finds no hash: the
source reads beyond the end of an empty vector there. What it finds is left open
(`stray`), and nothing below depends on it.

`decodePackets` is the reader's side. Reading undoes writing up to padding, as long
as there is a hash for every packet (`decodePackets_dataKeys`).
-/

namespace Rapids.Payload

open Rapids.Lib Rapids.Chain

variable {k rounds : Nat} {remaining : List UInt8}

/-! ### The network -/

/-- The hash in `exodus_mainnet`, which `strClassAB` spells out. -/
def exodusMainnet : Vector UInt8 20 :=
  #v[0x99, 0x57, 0xbf, 0x08, 0xad, 0xab, 0xda, 0x09, 0x4d, 0xfe, 0xe3, 0xee, 0x7b, 0x89, 0xc5, 0xfc,
    0x4c, 0xa4, 0x22, 0xa6]

/-- A network, with the functions of the cryptographic library. -/
structure TokenNetwork where
  addresses : AddressParams
  pubkey_ne_script : addresses.pubkeyAddress ≠ addresses.scriptAddress
  isNonMainNet : Bool
  /-- The hash in `ExodusAddress`. -/
  exodus : Vector UInt8 20
  exodus_main : isNonMainNet = false → exodus = exodusMainnet
  hash160 : List UInt8 → Vector UInt8 20
  sha256 : List UInt8 → Vector UInt8 32
  /-- `CPubKey::IsFullyValid`, of keys of a valid size. -/
  isFullyValid : List UInt8 → Bool

namespace TokenNetwork

variable (N : TokenNetwork)

/-- `ExodusAddress` -/
def exodusAddress : Destination := .keyID N.exodus

/-- `EncodeDestination`. Its assertion holds always (`encodeBase58_eq`). -/
def encode : Destination → List UInt8
  | .none => []
  | .keyID hash => ((encodeDestination N.addresses (.keyID hash.toList)).getD [])
  | .scriptID hash => ((encodeDestination N.addresses (.scriptID hash.toList)).getD [])

/-- `DecodeDestination` -/
def decode (str : List UInt8) : Destination :=
  match (decodeDestination N.addresses str).1 with
  | .noDestination => .none
  | .keyID id => .keyID (uint160 id)
  | .scriptID id => .scriptID (uint160 id)

theorem decode_encode (d : Destination) : N.decode (N.encode d) = d := by
  have hread : ∀ version (hash : Vector UInt8 20),
      decodeBase58Check N.addresses ((encodeBase58Check N.addresses (version :: hash.toList)).getD []) =
        some (version :: hash.toList) := by
    intro version hash
    have hsome : encodeBase58Check N.addresses (version :: hash.toList) ≠ none := by
      rw [encodeBase58Check, encodeBase58_eq]
      exact Option.some_ne_none _
    obtain ⟨str, hstr⟩ := Option.ne_none_iff_exists'.mp hsome
    rw [hstr, Option.getD_some, decodeBase58Check_encode hstr]
  have hlen : ∀ version (hash : Vector UInt8 20), (version :: hash.toList).length = 21 := by
    intro version hash
    rw [List.length_cons, toList_length]
  cases d with
  | none =>
    have hnil : decodeBase58Check N.addresses [] = none := rfl
    rw [encode, decode, decodeDestination, hnil]
  | keyID hash =>
    rw [encode, encodeDestination, decode, decodeDestination, hread]
    dsimp only
    rw [if_pos ⟨hlen _ _, rfl⟩]
    dsimp only [List.drop]
    rw [uint160_toList]
  | scriptID hash =>
    have hkey : ¬((N.addresses.scriptAddress :: hash.toList).length = 21 ∧
        (N.addresses.scriptAddress :: hash.toList).head? = some N.addresses.pubkeyAddress) := fun h =>
      N.pubkey_ne_script (Option.some.inj h.2).symm
    have hstake : ¬((N.addresses.scriptAddress :: hash.toList).length = 21 ∧
        (N.addresses.scriptAddress :: hash.toList).head? = some N.addresses.stakingAddress) := fun h =>
      N.addresses.script_ne_staking (Option.some.inj h.2)
    rw [encode, encodeDestination, decode, decodeDestination, hread]
    dsimp only
    rw [if_neg hkey, if_neg hstake, if_pos ⟨hlen _ _, rfl⟩]
    dsimp only [List.drop]
    rw [uint160_toList]

theorem encode_inj {d d' : Destination} : N.encode d = N.encode d' ↔ d = d' := by
  constructor
  · intro h
    rw [← N.decode_encode d, h, N.decode_encode]
  · rintro rfl
    rfl

theorem encode_eq_nil {d : Destination} : N.encode d = [] ↔ d = .none :=
  @encode_inj N d .none

/-- An address as `ParseAddress` returns it: the spelling of a key or a script. -/
def IsAddress (str : List UInt8) : Prop := ∃ d, N.encode d = str ∧ d ≠ .none

end TokenNetwork

/-! ### Hashes -/

/-- `ToUpper(HexStr(…))` -/
def hexUpper (bytes : List UInt8) : List UInt8 :=
  let digit (d : UInt8) : UInt8 := if d < 10 then 48 + d else 55 + d
  bytes.flatMap fun b => [digit (b / 16), digit (b % 16)]

/-- What is hashed for the hash of a number, counted from zero. -/
def shaInput (sha256 : List UInt8 → Vector UInt8 32) (seed : List UInt8) : Nat → List UInt8
  | 0 => cStr seed
  | j + 1 => hexUpper (sha256 (shaInput sha256 seed j)).toList

/-- `PrepareObfuscatedHashes`, with `ParseHex` of an entry. The other entries are empty. -/
def prepareObfuscatedHashes (sha256 : List UInt8 → Vector UInt8 32) (strSeed : List UInt8) (hashCount : Nat)
    (j : Nat) : List UInt8 :=
  if 1 ≤ j ∧ j ≤ min hashCount maxPackets then (sha256 (shaInput sha256 strSeed (j - 1))).toList else []

/-! ### Class B -/

section ClassB

variable (N : TokenNetwork)

/-- What the encoder gets from outside: random bytes, and what stands behind an empty vector. -/
structure Entropy where
  /-- `GetRand(256)`, for the key of each packet. -/
  random : Nat → UInt8
  stray : Nat → UInt8

/-- The last byte of a key: the first one in a cycle that gives a point. -/
def fixCoordinate (start : UInt8) (key : List UInt8) : UInt8 :=
  match (List.range 256).find? fun j => N.isFullyValid (key ++ [start + UInt8.ofNat j]) with
  | some j => start + UInt8.ofNat j
  | none => start + 255

/-- The key that carries a packet. -/
def dataKey (E : Entropy) (vchHash : List UInt8) (chSeqNum : UInt8) (chRandom : UInt8) (data : List UInt8) :
    List UInt8 :=
  let packet := ((chSeqNum :: data) ++ List.replicate packetSize 0).take packetSize
  let masked := packet.mapIdx fun j b => b ^^^ vchHash.getD j (E.stray j)
  (2 :: masked) ++ [fixCoordinate N chRandom (2 :: masked)]

/-- The key of the packet with a number, counted from zero. -/
def packetKey (E : Entropy) (senderAddress : List UInt8) (k : Nat) (data : List UInt8) : List UInt8 :=
  let chSeqNum := UInt8.ofNat (k + 1)
  dataKey N E (prepareObfuscatedHashes N.sha256 senderAddress maxPackets chSeqNum.toNat) chSeqNum
    (E.random k) data

/-- The loop of the encoder, of at most so many rounds: the keys of each output, from a packet on. -/
def multisigKeys (E : Entropy) (senderAddress redeemingPubKey : List UInt8) :
    Nat → Nat → List UInt8 → List (List (List UInt8))
  | 0, _, _ => []
  | rounds + 1, k, remaining =>
    if remaining = [] then []
    else if packetSize - 1 < remaining.length then
      [redeemingPubKey, packetKey N E senderAddress k (remaining.take (packetSize - 1)),
          packetKey N E senderAddress (k + 1)
            ((remaining.drop (packetSize - 1)).take (packetSize - 1))] ::
        multisigKeys E senderAddress redeemingPubKey rounds (k + 2)
          (remaining.drop (2 * (packetSize - 1)))
    else
      [redeemingPubKey, packetKey N E senderAddress k remaining] ::
        multisigKeys E senderAddress redeemingPubKey rounds (k + 1) []

/-- `TokenCore_Encode_ClassB`. `none` is a failed assertion on the length of the seed. -/
def encodeClassB (minRelayTxFee : FeeRate) (E : Entropy) (senderAddress redeemingPubKey : List UInt8)
    (vchPayload : List UInt8) : Option (List TxOut) :=
  if 128 ≤ senderAddress.length then none
  else
    let scripts := (multisigKeys N E senderAddress redeemingPubKey vchPayload.length 0 vchPayload).map
      (getScriptForMultisig 1)
    some ((scripts ++ [getScriptForDestination N.exodusAddress]).map fun script =>
      ⟨dustThreshold minRelayTxFee script, script⟩)

end ClassB

/-! ### Class C -/

/-- `GetOmMarker` -/
def omMarker : List UInt8 := [0x6f, 0x6d, 0x6e, 0x69]

/-- `TokenCore_Encode_ClassC` -/
def encodeClassC (nMaxDatacarrierBytes : Nat) (vchPayload : List UInt8) : Option (List TxOut) :=
  if nMaxDatacarrierBytes < (omMarker ++ vchPayload).length then none
  else some [⟨0, opReturn :: pushData (omMarker ++ vchPayload)⟩]

/-! ### Reading packets -/

/-- The packets in pushed keys, from a number on: unmask, drop the sequence number. -/
def decodePackets (hashes : Nat → List UInt8) : Nat → List (List UInt8) → List UInt8
  | _, [] => []
  | k, key :: keys =>
    (((key.drop 1).take packetSize).mapIdx fun i b => b ^^^ (hashes (k + 1)).getD i 0).drop 1 ++
      decodePackets hashes (k + 1) keys

theorem decodePackets_append (hashes : Nat → List UInt8) (k : Nat) (a b : List (List UInt8)) :
    decodePackets hashes k (a ++ b) =
      decodePackets hashes k a ++ decodePackets hashes (k + a.length) b := by
  induction a generalizing k with
  | nil => rfl
  | cons key keys ih =>
    rw [List.cons_append, decodePackets, decodePackets, ih, List.append_assoc, List.length_cons,
      Nat.add_assoc, Nat.add_comm 1]

theorem decodePackets_congr {hashes hashes' : Nat → List UInt8} {keys : List (List UInt8)}
    (h : ∀ j, k < j → j ≤ k + keys.length → hashes j = hashes' j) :
    decodePackets hashes k keys = decodePackets hashes' k keys := by
  induction keys generalizing k with
  | nil => rfl
  | cons key keys ih =>
    have hlen : (key :: keys).length = keys.length + 1 := rfl
    rw [decodePackets, decodePackets, h (k + 1) (by omega) (by omega)]
    rw [ih fun j hlt hle => h j (by omega) (by omega)]

theorem decodePackets_length_le (hashes : Nat → List UInt8) (k : Nat) (keys : List (List UInt8)) :
    (decodePackets hashes k keys).length ≤ 30 * keys.length := by
  induction keys generalizing k with
  | nil => exact Nat.zero_le _
  | cons key keys ih =>
    have hrest := ih (k + 1)
    rw [decodePackets, List.length_append, List.length_drop, List.length_mapIdx, List.length_take,
      List.length_cons]
    have hsize : packetSize = 31 := rfl
    omega

section RoundTrip

variable {N : TokenNetwork} {E : Entropy} {sender redeem : List UInt8}

/-- The hashes of a sender, as many as there are. -/
def hashesOf (N : TokenNetwork) (sender : List UInt8) : Nat → List UInt8 :=
  prepareObfuscatedHashes N.sha256 sender maxPackets

theorem hashesOf_length {j : Nat} (h1 : 1 ≤ j) (hmax : j ≤ maxPackets) :
    (hashesOf N sender j).length = 32 := by
  rw [hashesOf, prepareObfuscatedHashes, if_pos ⟨h1, by rw [min_self]; exact hmax⟩]
  simp

theorem prepareObfuscatedHashes_eq {n j : Nat} (hj : j ≤ n) :
    prepareObfuscatedHashes N.sha256 sender (1 + n) j = hashesOf N sender j := by
  have hbound : (1 ≤ j ∧ j ≤ min (1 + n) maxPackets) ↔ (1 ≤ j ∧ j ≤ min maxPackets maxPackets) := by
    rw [min_self, le_min_iff]
    omega
  rw [hashesOf, prepareObfuscatedHashes, prepareObfuscatedHashes]
  by_cases h : 1 ≤ j ∧ j ≤ min maxPackets maxPackets
  · rw [if_pos h, if_pos (hbound.mpr h)]
  · rw [if_neg h, if_neg (fun h' => h (hbound.mp h'))]

theorem unmask_mask {l hash : List UInt8} (stray : Nat → UInt8) (h : l.length ≤ hash.length) :
    (l.mapIdx fun j b => b ^^^ hash.getD j (stray j)).mapIdx (fun j b => b ^^^ hash.getD j 0) = l := by
  refine List.ext_getElem (by rw [List.length_mapIdx, List.length_mapIdx]) fun j h1 h2 => ?_
  have hj : j < hash.length := by omega
  have hget : ∀ d, hash.getD j d = hash[j] := fun d => by
    rw [List.getD_eq_getElem?_getD, List.getElem?_eq_getElem hj, Option.getD_some]
  rw [List.getElem_mapIdx, List.getElem_mapIdx, hget, hget, UInt8.xor_assoc, UInt8.xor_self,
    UInt8.xor_zero]

theorem decodePackets_packetKey {data : List UInt8} (hk : k < maxPackets) (hdata : data.length ≤ 30) :
    decodePackets (hashesOf N sender) k [packetKey N E sender k data] =
      data ++ List.replicate (30 - data.length) 0 := by
  have hmax : maxPackets = 255 := rfl
  have hsize : packetSize = 31 := rfl
  have hseq : (UInt8.ofNat (k + 1)).toNat = k + 1 := by
    rw [UInt8.toNat_ofNat']
    omega
  have hlen : (((UInt8.ofNat (k + 1) :: data) ++ List.replicate packetSize 0).take packetSize).length =
      packetSize := by
    rw [List.length_take, List.length_append, List.length_replicate]
    omega
  have hhash : (hashesOf N sender (k + 1)).length = 32 := hashesOf_length (by omega) (by omega)
  rw [decodePackets, decodePackets, List.append_nil, packetKey, hseq, ← hashesOf, dataKey]
  rw [List.cons_append, List.drop_succ_cons, List.drop_zero, List.take_left' (by rw [List.length_mapIdx, hlen]),
    unmask_mask _ (by rw [hlen, hhash]; omega), hsize, List.cons_append, List.take_succ_cons, List.drop_succ_cons,
    List.drop_zero, List.take_append, List.take_of_length_le hdata, List.take_replicate]
  congr 2
  omega

/-- How many packets so many bytes fill. -/
def packetCount (size : Nat) : Nat := (size + 29) / 30

/-- The keys that carry data, as the encoder makes them from a packet on. -/
def dataKeys (N : TokenNetwork) (E : Entropy) (sender redeem : List UInt8) (rounds k : Nat)
    (remaining : List UInt8) : List (List UInt8) :=
  (multisigKeys N E sender redeem rounds k remaining).flatMap List.tail

theorem dataKeys_nil : dataKeys N E sender redeem rounds k [] = [] := by
  cases rounds with
  | zero => rfl
  | succ rounds => rw [dataKeys, multisigKeys, if_pos rfl, List.flatMap_nil]

theorem dataKeys_two (h : 30 < remaining.length) :
    dataKeys N E sender redeem (rounds + 1) k remaining =
      [packetKey N E sender k (remaining.take 30)] ++
        ([packetKey N E sender (k + 1) ((remaining.drop 30).take 30)] ++
          dataKeys N E sender redeem rounds (k + 2) (remaining.drop 60)) := by
  have hne : remaining ≠ [] := by
    rintro rfl
    exact absurd h (by decide)
  have hlt : packetSize - 1 < remaining.length := h
  rw [dataKeys, multisigKeys, if_neg hne, if_pos hlt]
  rfl

theorem dataKeys_one (hne : remaining ≠ [])
    (h : remaining.length ≤ 30) :
    dataKeys N E sender redeem (rounds + 1) k remaining = [packetKey N E sender k remaining] := by
  have hlt : ¬packetSize - 1 < remaining.length := Nat.not_lt.mpr h
  have hrest : (multisigKeys N E sender redeem rounds (k + 1) []).flatMap List.tail = [] := dataKeys_nil
  rw [dataKeys, multisigKeys, if_neg hne, if_neg hlt, List.flatMap_cons, hrest]
  rfl

theorem dataKeys_length (h : remaining.length ≤ rounds) :
    (dataKeys N E sender redeem rounds k remaining).length = packetCount remaining.length := by
  induction rounds generalizing k remaining with
  | zero =>
    obtain rfl := List.length_eq_zero_iff.mp (Nat.le_zero.mp h)
    rfl
  | succ rounds ih =>
    by_cases hne : remaining = []
    · rw [hne, dataKeys_nil]
      rfl
    · have hpos := List.length_pos_iff.mpr hne
      by_cases h30 : 30 < remaining.length
      · have hrest : (remaining.drop 60).length = remaining.length - 60 := List.length_drop
        rw [dataKeys_two h30, List.length_append, List.length_append, ih (by omega), hrest]
        simp only [packetCount, List.length_singleton]
        omega
      · rw [dataKeys_one hne (by omega)]
        simp only [packetCount, List.length_singleton]
        omega

/-- **Reading packets undoes writing them**, up to padding, as long as each has a hash. -/
theorem decodePackets_dataKeys (h : remaining.length ≤ rounds)
    (hk : k + packetCount remaining.length ≤ maxPackets) :
    decodePackets (hashesOf N sender) k (dataKeys N E sender redeem rounds k remaining) =
      remaining ++ List.replicate (30 * packetCount remaining.length - remaining.length) 0 := by
  induction rounds generalizing k remaining with
  | zero =>
    obtain rfl := List.length_eq_zero_iff.mp (Nat.le_zero.mp h)
    rfl
  | succ rounds ih =>
    by_cases hne : remaining = []
    · rw [hne, dataKeys_nil]
      rfl
    · have hpos := List.length_pos_iff.mpr hne
      by_cases h30 : 30 < remaining.length
      · have hfirst : (remaining.take 30).length = 30 := by
          rw [List.length_take]
          omega
        have hsecond : ((remaining.drop 30).take 30).length = min 30 (remaining.length - 30) := by
          rw [List.length_take, List.length_drop]
        have hrest : (remaining.drop 60).length = remaining.length - 60 := List.length_drop
        have hsplit : remaining.take 30 ++ ((remaining.drop 30).take 30 ++ remaining.drop 60) = remaining := by
          rw [← List.drop_drop (i := 30) (j := 30), List.take_append_drop, List.take_append_drop]
        have hcount : packetCount remaining.length = 2 + packetCount (remaining.length - 60) := by
          simp only [packetCount]
          omega
        rw [dataKeys_two h30, decodePackets_append, decodePackets_append, List.length_singleton,
          List.length_singleton, decodePackets_packetKey (by omega) (by omega),
          decodePackets_packetKey (by omega) (by omega), ih (by omega) (by rw [hrest]; omega), hfirst,
          hrest, Nat.sub_self, List.replicate_zero, List.append_nil, hsecond]
        by_cases h60 : 60 ≤ remaining.length
        · -- the second packet is full as well
          have hfull : 30 - min 30 (remaining.length - 30) = 0 := by omega
          have hpad : 30 * packetCount (remaining.length - 60) - (remaining.length - 60) =
              30 * packetCount remaining.length - remaining.length := by omega
          rw [hfull, List.replicate_zero, List.append_nil, hpad]
          generalize 30 * packetCount remaining.length - remaining.length = pad
          conv => rhs; rw [← hsplit]
          rw [List.append_assoc, List.append_assoc]
        · -- nothing is left behind the second packet
          have hnil : remaining.drop 60 = [] := List.drop_eq_nil_iff.mpr (by omega)
          rw [hnil, List.append_nil] at hsplit
          have hnone : packetCount (remaining.length - 60) = 0 := by
            simp only [packetCount]
            omega
          rw [hnil, List.nil_append, hnone, Nat.mul_zero, Nat.zero_sub, List.replicate_zero,
            List.append_nil, ← List.append_assoc, hsplit]
          congr 2
          omega
      · have hone : packetCount remaining.length = 1 := by
          simp only [packetCount]
          omega
        rw [dataKeys_one hne (by omega), decodePackets_packetKey (by omega) (by omega)]
        rw [hone]

end RoundTrip

/-! ### The outputs of class B -/

theorem packetKey_valid (N : TokenNetwork) (E : Entropy) (sender : List UInt8) (k : Nat) (data : List UInt8) :
    validPubKeySize (packetKey N E sender k data) = true := by
  have hlen : (packetKey N E sender k data).length = 33 := by
    rw [packetKey, dataKey, List.length_append, List.length_cons, List.length_mapIdx, List.length_take,
      List.length_append, List.length_replicate, List.length_singleton]
    have hsize : packetSize = 31 := rfl
    omega
  have hheader : pubKeyLen 2 = 33 := by decide
  show decide (pubKeyLen 2 = (packetKey N E sender k data).length) = true
  rw [hlen, hheader]
  rfl

theorem multisigKeys_spec {N : TokenNetwork} {E : Entropy} {sender redeem : List UInt8}
    (hredeem : validPubKeySize redeem = true) :
    ∀ keys ∈ multisigKeys N E sender redeem rounds k remaining,
      2 ≤ keys.length ∧ keys.length ≤ 16 ∧ ∀ key ∈ keys, validPubKeySize key = true := by
  induction rounds generalizing k remaining with
  | zero =>
    intro keys hkeys
    cases hkeys
  | succ rounds ih =>
    intro keys hkeys
    rw [multisigKeys] at hkeys
    split_ifs at hkeys
    · cases hkeys
    · rcases List.mem_cons.mp hkeys with rfl | hkeys
      · refine ⟨by simp, by simp, fun key hkey => ?_⟩
        rcases List.mem_cons.mp hkey with rfl | hkey
        · exact hredeem
        · rcases List.mem_cons.mp hkey with rfl | hkey
          · exact packetKey_valid ..
          · rw [List.mem_singleton.mp hkey]
            exact packetKey_valid ..
      · exact ih keys hkeys
    · rcases List.mem_cons.mp hkeys with rfl | hkeys
      · refine ⟨by simp, by simp, fun key hkey => ?_⟩
        rcases List.mem_cons.mp hkey with rfl | hkey
        · exact hredeem
        · rw [List.mem_singleton.mp hkey]
          exact packetKey_valid ..
      · exact ih keys hkeys

theorem multisigKeys_ne_nil {N : TokenNetwork} {E : Entropy} {sender redeem : List UInt8}
    {payload : List UInt8} :
    multisigKeys N E sender redeem payload.length 0 payload = [] ↔ payload = [] := by
  cases payload with
  | nil => exact iff_of_true rfl rfl
  | cons b rest =>
    refine iff_of_false ?_ (List.cons_ne_nil _ _)
    rw [List.length_cons, multisigKeys, if_neg (List.cons_ne_nil _ _)]
    split_ifs <;> simp

end Rapids.Payload
