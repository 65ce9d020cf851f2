import Rapids.Chain.Staking
import Rapids.Lib.Bytes

/-!
# Rapids.Payload.Outputs

**What the token layer reads from an output** (`tokencore/script.cpp`, and of
`script/script.h` and `script/standard.cpp` what it calls).

There are two solvers. `SafeSolver` compares the operations of a script with
templates, and tells which outputs count; `Solver` compares bytes, and tells which
destination an output pays. They agree on every script that the wallet makes, which
is what the lemmas at the end of this module say, but not on every script: a hash
that is pushed in a longer form than need be makes an output that counts and pays
nobody.

A script is read operation by operation (`getOp`). `scriptOps` reads it to its end.
-/

namespace Rapids.Payload

open Rapids.Lib Rapids.Chain

variable {opcode : UInt8} {data : List UInt8}

/-! ### Operations -/

def opCheckMultisig : UInt8 := 0xae

/-- The immediate operand of an opcode, once its size is read. -/
def readOperand (opcode : UInt8) (sized : Option (List UInt8 × Script)) :
    Option (UInt8 × List UInt8 × Script) :=
  sized.bind fun size =>
    (takeBytes (ofLeBytes size.1) size.2).map fun read => (opcode, read.1, read.2)

/-- `GetOp`: the opcode, what it pushes, and what stands behind it. -/
def getOp : Script → Option (UInt8 × List UInt8 × Script)
  | [] => none
  | opcode :: rest =>
    if opcode < 76 then readOperand opcode (some ([opcode], rest))
    else if opcode = 76 then readOperand opcode (takeBytes 1 rest)
    else if opcode = 77 then readOperand opcode (takeBytes 2 rest)
    else if opcode = 78 then readOperand opcode (takeBytes 4 rest)
    else some (opcode, [], rest)

/-- Reading operations to the end of the script, in at most so many rounds. -/
def opsLoop : Nat → Script → Option (List (UInt8 × List UInt8))
  | _, [] => some []
  | 0, _ :: _ => none
  | rounds + 1, s@(_ :: _) =>
    match getOp s with
    | none => none
    | some (opcode, data, rest) => (opsLoop rounds rest).map ((opcode, data) :: ·)

/-- The operations of a script, if it can be read to its end. -/
def scriptOps (s : Script) : Option (List (UInt8 × List UInt8)) := opsLoop s.length s

/-- `CScript() << b` -/
def pushData (b : List UInt8) : Script :=
  if b.length < 76 then UInt8.ofNat b.length :: b
  else if b.length ≤ 255 then 76 :: (leBytes 1 b.length ++ b)
  else if b.length ≤ 65535 then 77 :: (leBytes 2 b.length ++ b)
  else 78 :: (leBytes 4 b.length ++ b)

/-- `EncodeOP_N` -/
def encodeOpN (n : Nat) : UInt8 := if n = 0 then 0 else UInt8.ofNat (80 + n)

/-- `DecodeOP_N` -/
def decodeOpN (opcode : UInt8) : Nat := if opcode = 0 then 0 else opcode.toNat - 80

/-- `IsSmallInteger` -/
def isSmallInteger (opcode : UInt8) : Bool := 81 ≤ opcode && opcode ≤ 96

/-- `GetScriptPushes`. After a failure the source keeps what it has read; it goes on with
that only for scripts that a solver has read to their end. -/
def getScriptPushes (s : Script) : Option (List (List UInt8)) :=
  (scriptOps s).map fun ops => (ops.filter fun op => op.1 ≤ 78).map Prod.snd

/-! ### Output types -/

/-- `txnouttype`, as far as `SafeSolver` returns it. -/
inductive OutputType
  | pubKey
  | pubKeyHash
  | scriptHash
  | multisig
  | nullData
  deriving DecidableEq, Repr

/-- The multisig template, with the solver's own notion of a key. -/
def isMultisig (isKey : List UInt8 → Bool) : List (UInt8 × List UInt8) → Bool
  | [] => false
  | (m, _) :: rest =>
    let keys := rest.takeWhile fun op => isKey op.2
    match rest.dropWhile fun op => isKey op.2 with
    | [(n, _), (last, data)] =>
      last = opCheckMultisig && data = [] && isSmallInteger m && isSmallInteger n &&
        decodeOpN n = keys.length && decodeOpN m ≤ decodeOpN n
    | _ => false

/-- The templates of `SafeSolver`. -/
def matchTemplates (ops : List (UInt8 × List UInt8)) : Option OutputType :=
  match ops with
  | [(106, [])] => some .nullData
  | [(_, key), (172, [])] => if 33 ≤ key.length ∧ key.length ≤ 65 then some .pubKey else none
  | [(118, []), (169, []), (_, hash), (136, []), (172, [])] =>
    if hash.length = 20 then some .pubKeyHash else none
  | ops => if isMultisig (fun key => 33 ≤ key.length && key.length ≤ 65) ops then some .multisig else none

/-- `SafeSolver` -/
def safeSolver (s : Script) : Option OutputType :=
  if isPayToScriptHash s then some .scriptHash
  else if 2 ≤ s.length ∧ s.head? = some opReturn ∧ isPushOnly s.tail then some .nullData
  else (scriptOps s).bind matchTemplates

/-! ### Destinations -/

/-- The 160 bits that so many bytes are. -/
def uint160 (bytes : List UInt8) : Vector UInt8 20 := Vector.ofFn fun i => bytes.getD i 0

/-- `ExtractDestination`. The hash of a public key is given. -/
def extractDestination (hash160 : List UInt8 → Vector UInt8 20) (s : Script) : Option Destination :=
  if isPayToScriptHash s then some (.scriptID (uint160 ((s.drop 2).take 20)))
  else if startsWithOpcode opZerocoinMint s then none
  else if startsWithOpcode opReturn s && isPushOnly s.tail then none
  else
    match matchPayToPubkey s with
    | some pubkey => some (.keyID (hash160 pubkey))
    | none =>
      match matchPayToPubkeyHash s with
      | some hash => some (.keyID (uint160 hash))
      | none =>
        if isPayToColdStaking s then some (.keyID (uint160 ((s.drop 28).take 20))) else none

/-- Does `Solver` say `TX_MULTISIG`? -/
def solvesMultisig (s : Script) : Bool :=
  !isPayToScriptHash s && !startsWithOpcode opZerocoinMint s &&
    !(startsWithOpcode opReturn s && isPushOnly s.tail) && (matchPayToPubkey s).isNone &&
    (matchPayToPubkeyHash s).isNone && !isPayToColdStaking s &&
    match scriptOps s with
    | none => false
    | some ops => isMultisig validPubKeySize ops

/-- `GetScriptForMultisig` -/
def getScriptForMultisig (nRequired : Nat) (keys : List (List UInt8)) : Script :=
  encodeOpN nRequired :: (keys.flatMap pushData ++ [encodeOpN keys.length, opCheckMultisig])

/-! ### Dust -/

/-- `CFeeRate`: satoshis per 1000 bytes. -/
abbrev FeeRate := Int

/-- `CFeeRate::GetFee` -/
def FeeRate.getFee (rate : FeeRate) (nSize : Nat) : Int :=
  if rate * nSize / 1000 = 0 ∧ 0 < rate then rate else rate * nSize / 1000

/-- `CTxOut::GetDustThreshold` -/
def dustThreshold (minRelayTxFee : FeeRate) (s : Script) : Int :=
  if isUnspendable s then 0
  else 3 * FeeRate.getFee minRelayTxFee (8 + sizeOfCompactSize s.length + s.length + 148)

/-- `CTxOut::IsDust` -/
def isDust (minRelayTxFee : FeeRate) (o : TxOut) : Bool :=
  o.nValue < dustThreshold minRelayTxFee o.scriptPubKey

/-! ### Reading what was written -/

theorem takeBytes_length {size : Nat} {bytes : List UInt8} {read : List UInt8 × List UInt8}
    (h : takeBytes size bytes = some read) : read.2.length ≤ bytes.length := by
  rw [takeBytes] at h
  split_ifs at h
  rw [← Option.some.inj h, List.length_drop]
  exact Nat.sub_le _ _

variable {rest b : List UInt8} {s : Script}

theorem readOperand_length {opcode' : UInt8} {sized : Option (List UInt8 × Script)}
    {n : Nat} (hsized : ∀ size ∈ sized, size.2.length ≤ n)
    (h : readOperand opcode sized = some (opcode', data, rest)) : rest.length ≤ n := by
  obtain ⟨size, hsize, hread⟩ := Option.bind_eq_some_iff.mp h
  obtain ⟨read, hread, heq⟩ := Option.map_eq_some_iff.mp hread
  have hrest : read.2 = rest := (Prod.mk.inj (Prod.mk.inj heq).2).2
  have h1 := takeBytes_length hread
  have h2 := hsized size hsize
  rw [hrest] at h1
  omega

theorem getOp_length
    (h : getOp s = some (opcode, data, rest)) : rest.length < s.length := by
  cases s with
  | nil => cases h
  | cons op tail =>
    rw [List.length_cons, Nat.lt_succ_iff]
    rw [getOp] at h
    split_ifs at h
    · refine readOperand_length (fun size hsize => ?_) h
      rw [← Option.some.inj hsize]
    · exact readOperand_length (fun size hsize => takeBytes_length hsize) h
    · exact readOperand_length (fun size hsize => takeBytes_length hsize) h
    · exact readOperand_length (fun size hsize => takeBytes_length hsize) h
    · rw [← (Prod.mk.inj (Prod.mk.inj (Option.some.inj h)).2).2]

theorem opsLoop_of_le {rounds : Nat} (h : s.length ≤ rounds) :
    opsLoop rounds s = scriptOps s := by
  suffices hsame : ∀ n, s.length ≤ n → ∀ m, s.length ≤ m → opsLoop n s = opsLoop m s from
    hsame _ h _ le_rfl
  clear h
  intro n hn m hm
  induction n generalizing s m with
  | zero =>
    obtain rfl := List.length_eq_zero_iff.mp (Nat.le_zero.mp hn)
    cases m <;> rfl
  | succ n ih =>
    cases s with
    | nil => cases m <;> rfl
    | cons op tail =>
      cases m with
      | zero => cases hm
      | succ m =>
        rw [opsLoop, opsLoop]
        cases hop : getOp (op :: tail) with
        | none => rfl
        | some read =>
          obtain ⟨opcode, data, rest⟩ := read
          have hlt := getOp_length hop
          have hrest : rest.length ≤ tail.length := by
            rw [List.length_cons] at hlt
            omega
          rw [List.length_cons] at hn hm
          dsimp only
          rw [ih (hrest.trans (by omega)) m (hrest.trans (by omega))]

theorem scriptOps_of_getOp
    (h : getOp s = some (opcode, data, rest)) :
    scriptOps s = (scriptOps rest).map ((opcode, data) :: ·) := by
  have hlt := getOp_length h
  cases s with
  | nil => cases h
  | cons op tail =>
    rw [scriptOps, List.length_cons, opsLoop, h]
    rw [List.length_cons] at hlt
    rw [← opsLoop_of_le (Nat.lt_succ_iff.mp hlt)]

theorem scriptOps_opcode (h : 78 < opcode) (rest : Script) :
    scriptOps (opcode :: rest) = (scriptOps rest).map ((opcode, []) :: ·) := by
  refine scriptOps_of_getOp ?_
  rw [UInt8.lt_iff_toNat_lt] at h
  have h76 : ¬opcode < 76 := by
    rw [UInt8.lt_iff_toNat_lt]
    exact fun hlt => by
      have : (76 : UInt8).toNat = 76 := rfl
      have : (78 : UInt8).toNat = 78 := rfl
      omega
  have hne : ∀ k : UInt8, k ≤ 78 → opcode ≠ k := by
    rintro k hk rfl
    rw [UInt8.le_iff_toNat_le] at hk
    omega
  rw [getOp, if_neg h76, if_neg (hne 76 (by decide)), if_neg (hne 77 (by decide)),
    if_neg (hne 78 (by decide))]

/-- The opcode that pushes so many bytes. -/
def pushOpcode (size : Nat) : UInt8 :=
  if size < 76 then UInt8.ofNat size else if size ≤ 255 then 76 else if size ≤ 65535 then 77 else 78

theorem pushOpcode_le (size : Nat) : pushOpcode size ≤ 78 := by
  rw [pushOpcode]
  split_ifs with h
  · have h78 : (78 : UInt8).toNat = 78 := rfl
    rw [UInt8.le_iff_toNat_le, UInt8.toNat_ofNat']
    omega
  all_goals decide

theorem readOperand_append {size : List UInt8} (h : ofLeBytes size = data.length)
    (rest : Script) : readOperand opcode (some (size, data ++ rest)) = some (opcode, data, rest) := by
  rw [readOperand, Option.bind_some, takeBytes_append h.symm, Option.map_some]

theorem getOp_pushData (h : b.length < 2 ^ 32) (rest : Script) :
    getOp (pushData b ++ rest) = some (pushOpcode b.length, b, rest) := by
  rw [pushData, pushOpcode]
  by_cases h76 : b.length < 76
  · have hop : (UInt8.ofNat b.length).toNat = b.length := by
      rw [UInt8.toNat_ofNat']
      omega
    rw [if_pos h76, if_pos h76, List.cons_append, getOp, if_pos]
    · exact readOperand_append (by rw [ofLeBytes, ofLeBytes, hop, Nat.mul_zero, Nat.add_zero]) rest
    · rw [UInt8.lt_iff_toNat_lt, hop]
      exact h76
  · rw [if_neg h76, if_neg h76]
    by_cases h255 : b.length ≤ 255
    · rw [if_pos h255, if_pos h255, List.cons_append, List.append_assoc, getOp, if_neg (by decide),
        if_pos rfl, takeBytes_append (leBytes_length _ _)]
      exact readOperand_append (ofLeBytes_leBytes (by omega)) rest
    · rw [if_neg h255, if_neg h255]
      by_cases h65535 : b.length ≤ 65535
      · rw [if_pos h65535, if_pos h65535, List.cons_append, List.append_assoc, getOp,
          if_neg (by decide), if_neg (by decide), if_pos rfl, takeBytes_append (leBytes_length _ _)]
        exact readOperand_append (ofLeBytes_leBytes (by omega)) rest
      · rw [if_neg h65535, if_neg h65535, List.cons_append, List.append_assoc, getOp,
          if_neg (by decide), if_neg (by decide), if_neg (by decide), if_pos rfl,
          takeBytes_append (leBytes_length _ _)]
        exact readOperand_append (ofLeBytes_leBytes (by omega)) rest

theorem scriptOps_pushData (h : b.length < 2 ^ 32) (rest : Script) :
    scriptOps (pushData b ++ rest) = (scriptOps rest).map ((pushOpcode b.length, b) :: ·) :=
  scriptOps_of_getOp (getOp_pushData h rest)

theorem scriptOps_nil : scriptOps [] = some [] := rfl

theorem scriptOps_pushes {keys : List (List UInt8)} (h : ∀ key ∈ keys, key.length < 2 ^ 32) (rest : Script) :
    scriptOps (keys.flatMap pushData ++ rest) =
      (scriptOps rest).map ((keys.map fun key => (pushOpcode key.length, key)) ++ ·) := by
  induction keys with
  | nil =>
    rw [List.flatMap_nil, List.nil_append]
    exact Option.map_id_apply.symm
  | cons key keys ih =>
    rw [List.flatMap_cons, List.append_assoc, scriptOps_pushData (h key List.mem_cons_self),
      ih fun k hk => h k (List.mem_cons_of_mem _ hk), Option.map_map]
    rfl

/-! ### The scripts that the wallet makes -/

theorem isPushOnly_pushData (h : b.length < 2 ^ 32) : isPushOnly (pushData b) = true := by
  -- one operation, and nothing behind it
  have hone : ∀ {opcode : UInt8} {rest : Script}, skipPush opcode rest = some [] → opcode ≤ 96 →
      isPushOnly (opcode :: rest) = true := by
    intro opcode rest hskip hle
    rw [isPushOnly, List.length_cons, isPushOnlyLoop, hskip]
    dsimp only
    rw [isPushOnlyLoop, decide_eq_true hle]
    rfl
  have hbyte : ∀ n : Nat, (UInt8.ofNat (n % 256)).toNat = n % 256 := by
    intro n
    rw [UInt8.toNat_ofNat']
    omega
  rw [pushData]
  by_cases h76 : b.length < 76
  · have hop : (UInt8.ofNat b.length).toNat = b.length := by
      rw [UInt8.toNat_ofNat']
      omega
    rw [if_pos h76]
    refine hone ?_ ?_
    · have hlt : UInt8.ofNat b.length < 76 := by
        rw [UInt8.lt_iff_toNat_lt, hop]
        exact h76
      unfold skipPush
      rw [if_pos hlt]
      dsimp only
      rw [hop, if_pos le_rfl, List.drop_length]
    · have h96 : (96 : UInt8).toNat = 96 := rfl
      rw [UInt8.le_iff_toNat_le, hop]
      omega
  · rw [if_neg h76]
    by_cases h255 : b.length ≤ 255
    · rw [if_pos h255]
      refine hone ?_ (by decide)
      unfold skipPush
      rw [if_neg (by decide)]
      simp only [leBytes, List.cons_append, List.nil_append, hbyte]
      rw [if_pos (by omega), Nat.mod_eq_of_lt (by omega), List.drop_length]
    · rw [if_neg h255]
      by_cases h65535 : b.length ≤ 65535
      · rw [if_pos h65535]
        refine hone ?_ (by decide)
        unfold skipPush
        rw [if_neg (by decide)]
        simp only [leBytes, List.cons_append, List.nil_append, hbyte]
        rw [if_pos (by omega), List.drop_eq_nil_iff.mpr (by omega)]
      · rw [if_neg h65535]
        refine hone ?_ (by decide)
        unfold skipPush
        rw [if_neg (by decide)]
        simp only [leBytes, List.cons_append, List.nil_append, hbyte]
        rw [if_pos (by omega), List.drop_eq_nil_iff.mpr (by omega)]

theorem uint160_toList (hash : Vector UInt8 20) : uint160 hash.toList = hash := by
  ext i hi
  rw [uint160, Vector.getElem_ofFn, List.getD_eq_getElem?_getD]
  simp [hi]

theorem toList_length (hash : Vector UInt8 20) : hash.toList.length = 20 := by simp

section Destinations

variable (hash160 : List UInt8 → Vector UInt8 20) (hash : Vector UInt8 20)

theorem scriptScript_isPayToScriptHash :
    isPayToScriptHash (getScriptForDestination (.scriptID hash)) = true := by
  simp [isPayToScriptHash, getScriptForDestination]

theorem keyScript_isPayToScriptHash :
    isPayToScriptHash (getScriptForDestination (.keyID hash)) = false := by
  simp [isPayToScriptHash, getScriptForDestination]

theorem keyScript_match :
    matchPayToPubkeyHash (getScriptForDestination (.keyID hash)) = some hash.toList := by
  simp [matchPayToPubkeyHash, getScriptForDestination]

theorem safeSolver_scriptID :
    safeSolver (getScriptForDestination (.scriptID hash)) = some .scriptHash := by
  rw [safeSolver, if_pos (scriptScript_isPayToScriptHash hash)]

theorem extractDestination_scriptID :
    extractDestination hash160 (getScriptForDestination (.scriptID hash)) = some (.scriptID hash) := by
  rw [extractDestination, if_pos (scriptScript_isPayToScriptHash hash)]
  have hbytes : ((getScriptForDestination (.scriptID hash)).drop 2).take 20 = hash.toList := by
    simp [getScriptForDestination]
  rw [hbytes, uint160_toList]

theorem extractDestination_keyID :
    extractDestination hash160 (getScriptForDestination (.keyID hash)) = some (.keyID hash) := by
  have hpubkey : matchPayToPubkey (getScriptForDestination (.keyID hash)) = none := by
    rw [matchPayToPubkey, if_neg]
    simp [getScriptForDestination]
  have hmint : startsWithOpcode opZerocoinMint (getScriptForDestination (.keyID hash)) = false := rfl
  have hreturn : startsWithOpcode opReturn (getScriptForDestination (.keyID hash)) = false := rfl
  rw [extractDestination, if_neg (by rw [keyScript_isPayToScriptHash]; exact Bool.false_ne_true),
    if_neg (by rw [hmint]; exact Bool.false_ne_true), hreturn, Bool.false_and,
    if_neg Bool.false_ne_true, hpubkey, keyScript_match]
  dsimp only
  rw [uint160_toList]

theorem scriptOps_keyID :
    scriptOps (getScriptForDestination (.keyID hash)) =
      some [(118, []), (169, []), (20, hash.toList), (136, []), (172, [])] := by
  have hpush : pushData hash.toList = 20 :: hash.toList := by
    rw [pushData, toList_length, if_pos (by decide)]
    rfl
  have hscript : getScriptForDestination (.keyID hash) =
      118 :: 169 :: (pushData hash.toList ++ [136, 172]) := by
    rw [hpush]
    rfl
  rw [hscript, scriptOps_opcode (by decide), scriptOps_opcode (by decide),
    scriptOps_pushData (by rw [toList_length]; decide), scriptOps_opcode (by decide),
    scriptOps_opcode (by decide), scriptOps_nil, toList_length]
  rfl

theorem safeSolver_keyID : safeSolver (getScriptForDestination (.keyID hash)) = some .pubKeyHash := by
  rw [safeSolver, if_neg (by rw [keyScript_isPayToScriptHash]; exact Bool.false_ne_true), if_neg,
    scriptOps_keyID, Option.bind_some, matchTemplates, if_pos (toList_length hash)]
  intro h
  have hhead : some opDup = some opReturn := h.2.1
  exact absurd hhead (by decide)

theorem solvesMultisig_keyID : solvesMultisig (getScriptForDestination (.keyID hash)) = false := by
  rw [solvesMultisig, keyScript_match]
  simp

theorem solvesMultisig_scriptID : solvesMultisig (getScriptForDestination (.scriptID hash)) = false := by
  rw [solvesMultisig, scriptScript_isPayToScriptHash]
  simp

end Destinations

section Data

variable {data : List UInt8}

theorem dataScript_isPayToScriptHash : isPayToScriptHash (opReturn :: pushData data) = false := by
  have hhead : opReturn ≠ opHash160 := by decide
  simp [isPayToScriptHash, hhead]

theorem safeSolver_data (h : data.length < 2 ^ 32) :
    safeSolver (opReturn :: pushData data) = some .nullData := by
  have hlen : 0 < (pushData data).length := by
    rw [pushData]
    split_ifs <;> simp
  rw [safeSolver, if_neg (by rw [dataScript_isPayToScriptHash]; exact Bool.false_ne_true),
    if_pos ⟨by rw [List.length_cons]; omega, rfl, isPushOnly_pushData h⟩]

theorem extractDestination_data (hash160 : List UInt8 → Vector UInt8 20) (h : data.length < 2 ^ 32) :
    extractDestination hash160 (opReturn :: pushData data) = none := by
  have hmint : startsWithOpcode opZerocoinMint (opReturn :: pushData data) = false := rfl
  have hreturn : startsWithOpcode opReturn (opReturn :: pushData data) = true := rfl
  rw [extractDestination, if_neg (by rw [dataScript_isPayToScriptHash]; exact Bool.false_ne_true),
    if_neg (by rw [hmint]; exact Bool.false_ne_true), hreturn, List.tail_cons, isPushOnly_pushData h]
  rfl

theorem solvesMultisig_data (h : data.length < 2 ^ 32) : solvesMultisig (opReturn :: pushData data) = false := by
  have hreturn : startsWithOpcode opReturn (opReturn :: pushData data) = true := rfl
  rw [solvesMultisig, hreturn, List.tail_cons, isPushOnly_pushData h]
  simp

theorem getScriptPushes_data (h : data.length < 2 ^ 32) :
    getScriptPushes (opReturn :: pushData data) = some [data] := by
  have hops : scriptOps (opReturn :: pushData data) = some [(106, []), (pushOpcode data.length, data)] := by
    rw [scriptOps_opcode (by decide), ← List.append_nil (pushData data), scriptOps_pushData h, scriptOps_nil]
    rfl
  rw [getScriptPushes, hops, Option.map_some, List.filter_cons_of_neg (by decide),
    List.filter_cons_of_pos (by exact decide_eq_true (pushOpcode_le _))]
  rfl

end Data

section Multisig

/-- Keys that both solvers take for keys: a header with the size that belongs to it. -/
theorem key_length {key : List UInt8} (h : validPubKeySize key = true) :
    key.length = 33 ∨ key.length = 65 := by
  cases key with
  | nil => cases h
  | cons header tail =>
    have hlen : pubKeyLen header = (header :: tail).length := of_decide_eq_true h
    rw [pubKeyLen] at hlen
    split_ifs at hlen
    · exact .inl hlen.symm
    · exact .inr hlen.symm

theorem exists_two {α : Type} {l : List α} (h : 2 ≤ l.length) : ∃ a b rest, l = a :: b :: rest := by
  rcases l with _ | ⟨a, _ | ⟨b, rest⟩⟩
  · exact absurd h (by simp)
  · exact absurd h (by simp)
  · exact ⟨a, b, rest, rfl⟩

variable {keys : List (List UInt8)}

theorem scriptOps_multisig (hkeys : ∀ key ∈ keys, validPubKeySize key = true) (h2 : 2 ≤ keys.length)
    (h16 : keys.length ≤ 16) :
    scriptOps (getScriptForMultisig 1 keys) =
      some ((81, []) :: (keys.map fun key => (pushOpcode key.length, key)) ++
        [(encodeOpN keys.length, []), (opCheckMultisig, [])]) := by
  have hn : (78 : UInt8) < encodeOpN keys.length := by
    have h78 : (78 : UInt8).toNat = 78 := rfl
    rw [encodeOpN, if_neg (by omega), UInt8.lt_iff_toNat_lt, UInt8.toNat_ofNat']
    omega
  have h1 : encodeOpN 1 = 81 := rfl
  rw [getScriptForMultisig, h1, scriptOps_opcode (by decide), scriptOps_pushes, scriptOps_opcode hn,
    scriptOps_opcode (by decide), scriptOps_nil]
  · rfl
  · intro key hkey
    rcases key_length (hkeys key hkey) with h | h <;> rw [h] <;> decide

theorem isMultisig_keys {isKey : List UInt8 → Bool} (hkeys : ∀ key ∈ keys, isKey key = true)
    (hnil : isKey [] = false) (h2 : 2 ≤ keys.length) (h16 : keys.length ≤ 16) :
    isMultisig isKey ((81, []) :: (keys.map fun key => (pushOpcode key.length, key)) ++
      [(encodeOpN keys.length, []), (opCheckMultisig, [])]) = true := by
  have hall : ∀ op ∈ keys.map fun key => (pushOpcode key.length, key), isKey op.2 = true := by
    intro op hop
    obtain ⟨key, hkey, rfl⟩ := List.mem_map.mp hop
    exact hkeys key hkey
  have hstop : ¬isKey ([] : List UInt8) = true := by
    rw [hnil]
    exact Bool.false_ne_true
  have hn : (encodeOpN keys.length).toNat = 80 + keys.length := by
    rw [encodeOpN, if_neg (by omega), UInt8.toNat_ofNat']
    omega
  have hne : encodeOpN keys.length ≠ 0 := by
    intro h
    rw [h] at hn
    have h0 : (0 : UInt8).toNat = 0 := rfl
    omega
  have hsmall : isSmallInteger (encodeOpN keys.length) = true := by
    have h81 : (81 : UInt8).toNat = 81 := rfl
    have h96 : (96 : UInt8).toNat = 96 := rfl
    rw [isSmallInteger, Bool.and_eq_true, decide_eq_true_iff, decide_eq_true_iff, UInt8.le_iff_toNat_le,
      UInt8.le_iff_toNat_le, hn]
    omega
  have hdecode : decodeOpN (encodeOpN keys.length) = keys.length := by
    rw [decodeOpN, if_neg hne, hn]
    omega
  have hone : decodeOpN 81 = 1 := by decide
  rw [List.cons_append, isMultisig, List.takeWhile_append_of_pos hall, List.dropWhile_append_of_pos hall,
    List.takeWhile_cons, if_neg hstop, List.dropWhile_cons, if_neg hstop, List.append_nil, List.length_map]
  dsimp only
  rw [hsmall, hdecode, hone, decide_eq_true (show 1 ≤ keys.length by omega)]
  simp [opCheckMultisig, isSmallInteger]

theorem multisigScript_length (hkeys : ∀ key ∈ keys, validPubKeySize key = true) (h2 : 2 ≤ keys.length) :
    68 < (getScriptForMultisig 1 keys).length := by
  have hpush : ∀ key ∈ keys, 34 ≤ (pushData key).length := by
    intro key hkey
    have hlen : key.length < (pushData key).length := by
      rw [pushData]
      split_ifs <;> simp <;> omega
    rcases key_length (hkeys key hkey) with h | h <;> omega
  obtain ⟨a, b, rest, rfl⟩ := exists_two h2
  have ha := hpush a (.head _)
  have hb := hpush b (.tail _ (.head _))
  rw [getScriptForMultisig, List.flatMap_cons, List.flatMap_cons]
  simp only [List.length_cons, List.length_append]
  omega

theorem multisigScript_matchPayToPubkey : matchPayToPubkey (getScriptForMultisig 1 keys) = none := by
  have h65 : ¬(getScriptForMultisig 1 keys).head? = some 65 := by
    have hhead : (getScriptForMultisig 1 keys).head? = some 81 := rfl
    rw [hhead]
    decide
  have h33 : ¬(getScriptForMultisig 1 keys).head? = some 33 := by
    have hhead : (getScriptForMultisig 1 keys).head? = some 81 := rfl
    rw [hhead]
    decide
  rw [matchPayToPubkey, decide_eq_false h65, decide_eq_false h33]
  simp

variable (hkeys : ∀ key ∈ keys, validPubKeySize key = true) (h2 : 2 ≤ keys.length)
include hkeys h2

theorem multisigScript_isPayToScriptHash : isPayToScriptHash (getScriptForMultisig 1 keys) = false := by
  have hlen := multisigScript_length hkeys h2
  have hne : ¬(getScriptForMultisig 1 keys).length = 23 := by omega
  rw [isPayToScriptHash, decide_eq_false hne]
  rfl

theorem multisigScript_matchPayToPubkeyHash : matchPayToPubkeyHash (getScriptForMultisig 1 keys) = none := by
  have hlen := multisigScript_length hkeys h2
  have hne : ¬(getScriptForMultisig 1 keys).length = 25 := by omega
  rw [matchPayToPubkeyHash, decide_eq_false hne]
  rfl

theorem multisigScript_isPayToColdStaking : isPayToColdStaking (getScriptForMultisig 1 keys) = false := by
  have hlen := multisigScript_length hkeys h2
  have hne : ¬(getScriptForMultisig 1 keys).length = 51 := by omega
  rw [isPayToColdStaking, decide_eq_false hne]
  rfl

theorem extractDestination_multisig (hash160 : List UInt8 → Vector UInt8 20) :
    extractDestination hash160 (getScriptForMultisig 1 keys) = none := by
  have hmint : startsWithOpcode opZerocoinMint (getScriptForMultisig 1 keys) = false := rfl
  have hreturn : startsWithOpcode opReturn (getScriptForMultisig 1 keys) = false := rfl
  rw [extractDestination, multisigScript_isPayToScriptHash hkeys h2, if_neg Bool.false_ne_true, hmint,
    if_neg Bool.false_ne_true, hreturn, Bool.false_and, if_neg Bool.false_ne_true,
    multisigScript_matchPayToPubkey]
  rw [multisigScript_matchPayToPubkeyHash hkeys h2]
  rw [multisigScript_isPayToColdStaking hkeys h2, if_neg Bool.false_ne_true]

variable (h16 : keys.length ≤ 16)
include h16

theorem safeSolver_multisig : safeSolver (getScriptForMultisig 1 keys) = some .multisig := by
  have hhead : ¬(getScriptForMultisig 1 keys).head? = some opReturn := by
    have hhead : (getScriptForMultisig 1 keys).head? = some 81 := rfl
    rw [hhead]
    decide
  have hmulti := @isMultisig_keys _ (fun key => 33 ≤ key.length && key.length ≤ 65)
    (fun key hkey => by rcases key_length (hkeys key hkey) with h | h <;> simp [h]) (by rfl) h2 h16
  rw [safeSolver, multisigScript_isPayToScriptHash hkeys h2, if_neg Bool.false_ne_true,
    if_neg (fun h => hhead h.2.1), scriptOps_multisig hkeys h2 h16, Option.bind_some]
  obtain ⟨a, b, rest, rfl⟩ := exists_two h2
  unfold matchTemplates
  split
  · rename_i heq
    simp at heq
  · rename_i heq
    simp at heq
  · rename_i heq
    exact absurd (Prod.mk.inj (List.cons.inj heq).1).1 (by decide)
  · rw [hmulti]
    rfl

theorem solvesMultisig_multisig : solvesMultisig (getScriptForMultisig 1 keys) = true := by
  have hmint : startsWithOpcode opZerocoinMint (getScriptForMultisig 1 keys) = false := rfl
  have hreturn : startsWithOpcode opReturn (getScriptForMultisig 1 keys) = false := rfl
  have hmulti := isMultisig_keys hkeys (by rfl) h2 h16
  rw [solvesMultisig, multisigScript_isPayToScriptHash hkeys h2, hmint, hreturn,
    multisigScript_matchPayToPubkey, multisigScript_matchPayToPubkeyHash hkeys h2,
    multisigScript_isPayToColdStaking hkeys h2, scriptOps_multisig hkeys h2 h16]
  dsimp only
  rw [hmulti]
  rfl

theorem getScriptPushes_multisig : getScriptPushes (getScriptForMultisig 1 keys) = some keys := by
  have hn : ¬encodeOpN keys.length ≤ 78 := by
    have h78 : (78 : UInt8).toNat = 78 := rfl
    rw [encodeOpN, if_neg (by omega), UInt8.le_iff_toNat_le, UInt8.toNat_ofNat']
    omega
  have hkept : (keys.map fun key => (pushOpcode key.length, key)).filter (fun op => op.1 ≤ 78) =
      keys.map fun key => (pushOpcode key.length, key) := by
    rw [List.filter_eq_self]
    intro op hop
    obtain ⟨key, -, rfl⟩ := List.mem_map.mp hop
    exact decide_eq_true (pushOpcode_le _)
  have hlast : [(encodeOpN keys.length, ([] : List UInt8)), (opCheckMultisig, [])].filter
      (fun op => op.1 ≤ 78) = [] := by
    rw [List.filter_cons_of_neg (by simpa using hn)]
    rfl
  rw [getScriptPushes, scriptOps_multisig hkeys h2 h16, Option.map_some, List.cons_append,
    List.filter_cons_of_neg (by decide), List.filter_append, hkept, hlast, List.append_nil, List.map_map]
  exact congrArg some (List.map_id keys)

end Multisig

end Rapids.Payload
