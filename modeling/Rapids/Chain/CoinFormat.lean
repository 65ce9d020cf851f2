import Mathlib.Tactic.Linarith
import Rapids.Lib.Bytes
import Rapids.Chain.ConnectSound

/-!
# Rapids.Chain.CoinFormat

The bytes of a coin on disk: in the coin database (`coins.h`) and in an undo
record (`undo.h`).

Both forms have a number for the height and the flags, the compressed amount and
the compressed script; an undo record has a zero byte between, if the height is
not zero. Each number is a variable-length integer, and a script that has no
short form stands behind its size plus six.

A coin with a script of legal size and a height below `2^30` is read back as it
was, up to its **amount**. The product that stands for an amount without a
trailing zero is nearly nine times the amount, and above `maxCompressible` it no
longer fits in 64 bits. It wraps, and **no** such amount comes back: the
wrapped product reads as some digits over a power of ten, and
`eq_of_shift_fixed` pins down the only amounts that could be equal to that, none
of them within the range where this product is made.
-/

namespace Rapids.Chain

open Rapids.Lib

/-! ### Amounts -/

/-- The largest amount without a trailing zero whose product fits in 64 bits. -/
def maxCompressible : Nat := 2049638230412172402

/-- A number that shifting and scaling modulo `M` leaves alone, by the inverse of
the scale less one. -/
theorem eq_of_shift_fixed {M P i j C n : Nat} (hi : i * P = i + j * M + 1) (hC : C ≤ n) (hn : n < M)
    (h : (n - C) * P % M = n) : n = i * (C * P) % M := by
  have hdiv := Nat.div_add_mod ((n - C) * P) M
  rw [h] at hdiv
  have hmul : i * n + i * (M * ((n - C) * P / M)) + i * (C * P) = n * (i * P) := by
    obtain ⟨r, rfl⟩ := Nat.exists_eq_add_of_le hC
    rw [Nat.add_sub_cancel_left] at hdiv ⊢
    calc i * (C + r) + i * (M * (r * P / M)) + i * (C * P)
        = i * (M * (r * P / M) + (C + r)) + i * (C * P) := by ring
      _ = (C + r) * (i * P) := by rw [hdiv]; ring
  rw [hi] at hmul
  have hsum : i * (C * P) + M * (i * ((n - C) * P / M)) = n + M * (n * j) := by linarith
  have hmod := congrArg (· % M) hsum
  simp only [Nat.add_mul_mod_self_left, Nat.mod_eq_of_lt hn] at hmod
  exact hmod.symm

/-- What a wrapped product reads as: the amount less a constant, or less one more if the
last digit borrows, times a power of ten. -/
theorem decompressAmount_wrapped {n x C e i j : Nat} (hn : n < 9223372036854775808) (he : e < 9)
    (hx : x ≠ 0) (hxe : (x - 1) % 10 = e)
    (hm : (x - 1) / 10 / 9 * 10 + ((x - 1) / 10 % 9 + 1) = n - C ∨
      (x - 1) / 10 / 9 * 10 + ((x - 1) / 10 % 9 + 1) = n - (C + 1))
    (hC : C + 1 ≤ n) (hi : i * 10 ^ e = i + j * 18446744073709551616 + 1)
    (h0 : i * (C * 10 ^ e) % 18446744073709551616 < C ∨
      9223372036854775808 ≤ i * (C * 10 ^ e) % 18446744073709551616)
    (h1 : i * ((C + 1) * 10 ^ e) % 18446744073709551616 < C ∨
      9223372036854775808 ≤ i * ((C + 1) * 10 ^ e) % 18446744073709551616) :
    decompressAmount x ≠ n := by
  intro h
  rw [decompressAmount, if_neg hx] at h
  simp only [hxe, if_pos he] at h
  rcases hm with hm | hm
  · rw [hm] at h
    have hval := eq_of_shift_fixed hi (by omega) (by omega) h
    omega
  · rw [hm] at h
    have hval := eq_of_shift_fixed hi (by omega) (by omega) h
    omega

theorem decompressAmount_of_overflow {n : Nat} (h63 : n < 9223372036854775808) (hdigit : n % 10 ≠ 0)
    (h : maxCompressible < n) : decompressAmount (compressAmount n) ≠ n := by
  unfold maxCompressible at h
  have hs : stripZeros 9 n = (n, 0) := by rw [stripZeros, if_neg hdigit]
  simp only [compressAmount, show n ≠ 0 by omega, if_false, hs, if_pos (show 0 < 9 by omega), Nat.add_zero]
  have hdigits := Nat.div_add_mod n 10
  have hd : n % 10 < 10 := Nat.mod_lt n (by omega)
  generalize n / 10 = q at *
  generalize n % 10 = d at *
  have hwraps := Nat.div_add_mod (1 + (q * 9 + d - 1) * 10) 18446744073709551616
  -- the product wraps between one and four times, which decides the power of ten
  have hk : (1 + (q * 9 + d - 1) * 10) / 18446744073709551616 = 1 ∨
      (1 + (q * 9 + d - 1) * 10) / 18446744073709551616 = 2 ∨
      (1 + (q * 9 + d - 1) * 10) / 18446744073709551616 = 3 ∨
      (1 + (q * 9 + d - 1) * 10) / 18446744073709551616 = 4 := by omega
  generalize (1 + (q * 9 + d - 1) * 10) % 18446744073709551616 = x at *
  rcases hk with hk | hk | hk | hk
  · rw [hk] at hwraps
    exact decompressAmount_wrapped (C := 2049638230412172402) (e := 4) (i := 13458245626333751279)
      (j := 7295) h63 (by omega) (by omega) (by omega) (by omega) (by omega) (by norm_num)
      (by norm_num) (by norm_num)
  · rw [hk] at hwraps
    exact decompressAmount_wrapped (C := 4099276460824344804) (e := 8) (i := 300153063250403071)
      (j := 1627133) h63 (by omega) (by omega) (by omega) (by omega) (by omega) (by norm_num)
      (by norm_num) (by norm_num)
  · rw [hk] at hwraps
    exact decompressAmount_wrapped (C := 6148914691236517205) (e := 2) (i := 12670490878911611211)
      (j := 68) h63 (by omega) (by omega) (by omega) (by omega) (by omega) (by norm_num)
      (by norm_num) (by norm_num)
  · rw [hk] at hwraps
    exact decompressAmount_wrapped (C := 8198552921648689607) (e := 6) (i := 1672254362768354751)
      (j := 90653) h63 (by omega) (by omega) (by omega) (by omega) (by omega) (by norm_num)
      (by norm_num) (by norm_num)

theorem decompressAmount_compressAmount_iff {n : Nat} (h63 : n < 9223372036854775808) :
    decompressAmount (compressAmount n) = n ↔ n % 10 = 0 ∨ n ≤ maxCompressible := by
  constructor
  · intro h
    by_contra hc
    push Not at hc
    exact decompressAmount_of_overflow h63 hc.1 hc.2 h
  · intro h
    refine decompressAmount_compressAmount_of_fits (by omega) fun hdigit => ?_
    have hle : n ≤ 2049638230412172402 := h.resolve_left hdigit
    omega

theorem compressAmount_lt (n : Nat) : compressAmount n < 18446744073709551616 := by
  by_cases hn : n = 0
  · simp [compressAmount, hn]
  · simp only [compressAmount, hn, if_false]
    split_ifs
    · exact Nat.mod_lt _ (by omega)
    · exact Nat.mod_lt _ (by omega)

theorem decompressAmount_lt (x : Nat) : decompressAmount x < 18446744073709551616 := by
  unfold decompressAmount
  split_ifs
  · omega
  · exact Nat.mod_lt _ (by omega)

/-! ### The bytes -/

/-- `nSpecialScripts` -/
def nSpecialScripts : Nat := 6

/-- `GetSpecialSize` -/
def getSpecialSize (nSize : Nat) : Nat :=
  if nSize = 0 ∨ nSize = 1 then 20 else if nSize = 2 ∨ nSize = 3 ∨ nSize = 4 ∨ nSize = 5 then 32 else 0

/-- The bytes of a script (`CScriptCompressor::Serialize`). -/
def ScriptRecord.serialize : ScriptRecord → Option (List UInt8)
  | .keyID hash => some (0 :: hash)
  | .scriptID hash => some (1 :: hash)
  | .pubKey nSize x => some (nSize :: x)
  | .raw s => (writeVarInt 32 ((s.length + nSpecialScripts) % 4294967296)).map (· ++ s)

/-- The record with one of the special sizes. -/
def specialRecord (nSize : Nat) (vch : List UInt8) : ScriptRecord :=
  if nSize = 0 then .keyID vch else if nSize = 1 then .scriptID vch
  else .pubKey (UInt8.ofNat nSize) vch

/-- The record that `CScriptCompressor::Unserialize` reads. An overlong script is
skipped like any other. -/
def readScriptRecord (bytes : List UInt8) : Option (ScriptRecord × List UInt8) :=
  (readVarInt 32 bytes).bind fun r =>
    if r.1 < nSpecialScripts then
      (takeBytes (getSpecialSize r.1) r.2).map fun t => (specialRecord r.1 t.1, t.2)
    else (takeBytes (r.1 - nSpecialScripts) r.2).map fun t => (.raw t.1, t.2)

/-- `CTxOutCompressor`, writing -/
def serializeTxOut (keys : PubKeys) (o : TxOut) : Option (List UInt8) :=
  (writeVarInt 64 (compressAmount (toU64 o.nValue))).bind fun amount =>
    (compressScript keys o.scriptPubKey).serialize.map (amount ++ ·)

/-- `CTxOutCompressor`, reading -/
def unserializeTxOut (keys : PubKeys) (bytes : List UInt8) : Option (TxOut × List UInt8) :=
  (readVarInt 64 bytes).bind fun nVal =>
    (readScriptRecord nVal.2).map fun script =>
      (⟨toI64 (decompressAmount nVal.1), decompressScript keys script.1⟩, script.2)

/-- The number for the height and the flags. -/
def Coin.code (c : Coin) : Nat :=
  (c.nHeight * 4 + c.fCoinBase.toNat * 2 + c.fCoinStake.toNat) % 4294967296

/-- The coin with a number and an output. -/
def Coin.ofCode (code : Nat) (out : TxOut) : Coin :=
  ⟨out, code / 4, code / 2 % 2 = 1, code % 2 = 1⟩

/-- `Coin::Serialize`. It asserts that the coin is unspent. -/
def Coin.serialize (keys : PubKeys) (c : Coin) : Option (List UInt8) :=
  if c.isSpent then none
  else
    (writeVarInt 32 c.code).bind fun code => (serializeTxOut keys c.out).map (code ++ ·)

/-- `Coin::Unserialize` -/
def Coin.unserialize (keys : PubKeys) (bytes : List UInt8) : Option (Coin × List UInt8) :=
  (readVarInt 32 bytes).bind fun code =>
    (unserializeTxOut keys code.2).map fun out => (Coin.ofCode code.1 out.1, out.2)

/-- `TxInUndoSerializer::Serialize` -/
def txInUndoSerialize (keys : PubKeys) (c : Coin) : Option (List UInt8) :=
  (writeVarInt 32 c.code).bind fun code =>
    (serializeTxOut keys c.out).map fun out => code ++ ((if 0 < c.nHeight then [0] else []) ++ out)

/-- The number that older versions wrote behind a height is dropped. -/
def skipVersion (nHeight : Nat) (bytes : List UInt8) : Option (List UInt8) :=
  if 0 < nHeight then (readVarInt 32 bytes).map Prod.snd else some bytes

/-- `TxInUndoDeserializer::Unserialize` -/
def txInUndoUnserialize (keys : PubKeys) (bytes : List UInt8) : Option (Coin × List UInt8) :=
  (readVarInt 32 bytes).bind fun code =>
    (skipVersion (code.1 / 4) code.2).bind fun bytes =>
      (unserializeTxOut keys bytes).map fun out => (Coin.ofCode code.1 out.1, out.2)

/-! ### Scripts -/

/-- The parts of a record have the sizes that the reader expects. -/
def ScriptRecord.Sized : ScriptRecord → Prop
  | .keyID hash => hash.length = 20
  | .scriptID hash => hash.length = 20
  | .pubKey nSize x => (nSize = 2 ∨ nSize = 3 ∨ nSize = 4 ∨ nSize = 5) ∧ x.length = 32
  | .raw s => s.length ≤ maxScriptSize

theorem isToKeyID_length {s hash : List UInt8} (h : isToKeyID s = some hash) : hash.length = 20 := by
  unfold isToKeyID at h
  split at h
  · split_ifs at h with hc
    cases h
    rw [List.length_take, hc.2.2.2.1]
    rfl
  · cases h

theorem isToScriptID_length {s hash : List UInt8} (h : isToScriptID s = some hash) :
    hash.length = 20 := by
  unfold isToScriptID at h
  split at h
  · split_ifs at h with hc
    cases h
    rw [List.length_take, hc.2.2.1]
    rfl
  · cases h

theorem isToPubKey_length {keys : PubKeys} {s xy : List UInt8} {b : UInt8}
    (h : isToPubKey keys s = some (b :: xy)) :
    ((b = 2 ∨ b = 3) ∧ xy.length = 32) ∨ (b = 4 ∧ xy.length = 64) := by
  unfold isToPubKey at h
  split at h
  · split_ifs at h with hc hu
    · obtain ⟨rfl, rfl⟩ := List.cons.inj (Option.some.inj h)
      exact .inl ⟨hc.2.1, by rw [List.length_take, hc.2.2.1]; rfl⟩
    · obtain ⟨rfl, rfl⟩ := List.cons.inj (Option.some.inj h)
      exact .inr ⟨rfl, by rw [List.length_take, hu.2.2.1]; rfl⟩
  · cases h

theorem parity_size (y : UInt8) :
    (4 ||| (y &&& 1)) = 2 ∨ (4 ||| (y &&& 1)) = 3 ∨ (4 ||| (y &&& 1)) = 4 ∨ (4 ||| (y &&& 1)) = 5 := by
  rcases parity_cases y with h | h <;> rw [h] <;> decide

theorem compressScript_sized (keys : PubKeys) {s : Script} (hlen : s.length ≤ maxScriptSize) :
    (compressScript keys s).Sized := by
  unfold compressScript
  split
  next hash hk => exact isToKeyID_length hk
  next =>
    split
    next hash hs => exact isToScriptID_length hs
    next =>
      split
      next b xy hp =>
        rcases isToPubKey_length hp with ⟨hb, hxy⟩ | ⟨rfl, hxy⟩
        · have hb4 : b ≠ 4 := by rcases hb with rfl | rfl <;> decide
          rw [if_neg hb4]
          exact ⟨hb.elim .inl fun h => .inr (.inl h), hxy⟩
        · rw [if_pos rfl]
          exact ⟨parity_size _, by rw [List.length_take, hxy]; rfl⟩
      next => exact hlen

theorem readScriptRecord_special {first : UInt8} {vch : List UInt8} (hfirst : first.toNat < 6)
    (hlen : vch.length = getSpecialSize first.toNat) (rest : List UInt8) :
    readScriptRecord (first :: vch ++ rest) = some (specialRecord first.toNat vch, rest) := by
  have hread : readVarInt 32 (first :: vch ++ rest) = some (first.toNat, vch ++ rest) :=
    readVarInt_byte (by omega) (by omega) _
  have hspecial : (first.toNat, vch ++ rest).1 < nSpecialScripts := hfirst
  rw [readScriptRecord, hread, Option.bind_some, if_pos hspecial, takeBytes_append hlen]
  rfl

theorem readsBack_script {r : ScriptRecord} (h : r.Sized) :
    ReadsBack ScriptRecord.serialize readScriptRecord r := by
  cases r with
  | keyID hash => exact ⟨0 :: hash, rfl, readScriptRecord_special (by decide) h⟩
  | scriptID hash => exact ⟨1 :: hash, rfl, readScriptRecord_special (by decide) h⟩
  | pubKey nSize x =>
    obtain ⟨hsize, hx⟩ := h
    refine ⟨nSize :: x, rfl, fun rest => ?_⟩
    rcases hsize with rfl | rfl | rfl | rfl
    · exact readScriptRecord_special (by decide) hx rest
    · exact readScriptRecord_special (by decide) hx rest
    · exact readScriptRecord_special (by decide) hx rest
    · exact readScriptRecord_special (by decide) hx rest
  | raw s =>
    have hlen : s.length ≤ 10000 := h
    have hmod : (s.length + nSpecialScripts) % 4294967296 = s.length + 6 :=
      Nat.mod_eq_of_lt (by unfold nSpecialScripts; omega)
    obtain ⟨size, hsize, hread⟩ := readsBack_varInt (w := 32) (n := s.length + 6) (by omega) (by omega)
    refine ⟨size ++ s, by rw [ScriptRecord.serialize, hmod, hsize]; rfl, fun rest => ?_⟩
    rw [readScriptRecord, List.append_assoc, hread, Option.bind_some, if_neg (by unfold nSpecialScripts; omega),
      takeBytes_append (by unfold nSpecialScripts; omega)]
    rfl

/-! ### Outputs and coins -/

theorem unserializeTxOut_serializeTxOut (keys : PubKeys) {o : TxOut}
    (hlen : o.scriptPubKey.length ≤ maxScriptSize) :
    ∃ bytes, serializeTxOut keys o = some bytes ∧ ∀ rest, unserializeTxOut keys (bytes ++ rest) =
      some (⟨toI64 (decompressAmount (compressAmount (toU64 o.nValue))), o.scriptPubKey⟩, rest) := by
  have h64 : compressAmount (toU64 o.nValue) < 2 ^ 64 := compressAmount_lt _
  obtain ⟨amount, hamount, hreadAmount⟩ := readsBack_varInt (by omega) h64
  obtain ⟨script, hscript, hreadScript⟩ := readsBack_script (compressScript_sized keys hlen)
  refine ⟨amount ++ script, by rw [serializeTxOut, hamount, Option.bind_some, hscript]; rfl, fun rest => ?_⟩
  rw [unserializeTxOut, List.append_assoc, hreadAmount, Option.bind_some, hreadScript, Option.map_some,
    decompressScript_compressScript_of_length keys (by omega)]

theorem Coin.ofCode_code {c : Coin} (h : c.nHeight < 1073741824) (out : TxOut) :
    Coin.ofCode c.code out = { c with out } := by
  have hb : c.fCoinBase.toNat ≤ 1 := Bool.toNat_le _
  have hs : c.fCoinStake.toNat ≤ 1 := Bool.toNat_le _
  have hcode : c.code = c.nHeight * 4 + c.fCoinBase.toNat * 2 + c.fCoinStake.toNat :=
    Nat.mod_eq_of_lt (by omega)
  have hheight : c.code / 4 = c.nHeight := by omega
  have hbase : decide (c.code / 2 % 2 = 1) = c.fCoinBase := by
    have hbit : c.code / 2 % 2 = c.fCoinBase.toNat := by omega
    rw [hbit]
    cases c.fCoinBase <;> rfl
  have hstake : decide (c.code % 2 = 1) = c.fCoinStake := by
    have hbit : c.code % 2 = c.fCoinStake.toNat := by omega
    rw [hbit]
    cases c.fCoinStake <;> rfl
  rw [Coin.ofCode, hheight, hbase, hstake]

section
variable (keys : PubKeys) {c : Coin} (hlen : c.out.scriptPubKey.length ≤ maxScriptSize)
  (hheight : c.nHeight < 1073741824)
include hlen hheight

theorem unserialize_serialize (hspent : c.isSpent = false) :
    ∃ bytes, c.serialize keys = some bytes ∧ ∀ rest, Coin.unserialize keys (bytes ++ rest) = some
      ({ c with out.nValue := toI64 (decompressAmount (compressAmount (toU64 c.out.nValue))) }, rest) := by
  obtain ⟨code, hcode, hreadCode⟩ := readsBack_varInt (w := 32) (n := c.code) (by omega) (Nat.mod_lt _ (by omega))
  obtain ⟨out, hout, hreadOut⟩ := unserializeTxOut_serializeTxOut keys hlen
  refine ⟨code ++ out, ?_, fun rest => ?_⟩
  · rw [Coin.serialize, hspent, if_neg (by decide), hcode, Option.bind_some, hout]
    rfl
  · rw [Coin.unserialize, List.append_assoc, hreadCode, Option.bind_some, hreadOut, Option.map_some,
      Coin.ofCode_code hheight]

/-- The coin as it comes back from an undo record: the byte behind the height is there and
is skipped for the same coins. -/
theorem txInUndoUnserialize_serialize :
    ∃ bytes, txInUndoSerialize keys c = some bytes ∧ ∀ rest, txInUndoUnserialize keys (bytes ++ rest) = some
      ({ c with out.nValue := toI64 (decompressAmount (compressAmount (toU64 c.out.nValue))) }, rest) := by
  obtain ⟨code, hcode, hreadCode⟩ := readsBack_varInt (w := 32) (n := c.code) (by omega) (Nat.mod_lt _ (by omega))
  obtain ⟨out, hout, hreadOut⟩ := unserializeTxOut_serializeTxOut keys hlen
  have hquot : c.code / 4 = c.nHeight := congrArg Coin.nHeight (Coin.ofCode_code hheight c.out)
  have hskip : ∀ rest, skipVersion c.nHeight ((if 0 < c.nHeight then [0] else []) ++ rest) = some rest := by
    intro rest
    by_cases hpos : 0 < c.nHeight
    · have hzero : readVarInt 32 ([0] ++ rest) = some (0, rest) := readVarInt_byte (by omega) (by decide) rest
      rw [skipVersion, if_pos hpos, if_pos hpos, hzero]
      rfl
    · rw [skipVersion, if_neg hpos, if_neg hpos]
      rfl
  refine ⟨code ++ ((if 0 < c.nHeight then [0] else []) ++ out), ?_, fun rest => ?_⟩
  · rw [txInUndoSerialize, hcode, Option.bind_some, hout]
    rfl
  · rw [txInUndoUnserialize, List.append_assoc, hreadCode, Option.bind_some, hquot, List.append_assoc, hskip,
      Option.bind_some, hreadOut, Option.map_some, Coin.ofCode_code hheight]

end

theorem toI64_decompressAmount_iff {v : Int} (h0 : 0 ≤ v) (h : v ≤ i64Max) :
    toI64 (decompressAmount (compressAmount (toU64 v))) = v ↔ v % 10 = 0 ∨ v ≤ maxCompressible := by
  simp only [i64Max] at h
  obtain ⟨n, rfl⟩ := Int.eq_ofNat_of_zero_le h0
  have hu64 : toU64 (n : Int) = n := by
    rw [toU64]
    omega
  have hiff := decompressAmount_compressAmount_iff (n := n) (by omega)
  rw [hu64]
  have hback := decompressAmount_lt (compressAmount n)
  constructor
  · intro heq
    have hsame : decompressAmount (compressAmount n) = n := by
      rw [toI64, Int.bmod_def] at heq
      omega
    omega
  · intro hc
    rw [hiff.mpr (by omega)]
    exact toI64_of_inI64 ⟨by simp only [i64Min]; omega, by simp only [i64Max]; omega⟩

/-- Which coins survive the disk format. -/
theorem disk_format_keeps_iff (keys : PubKeys) (network : Network) {c : Coin} (h0 : 0 ≤ c.out.nValue)
    (hrange : c.out.nValue ≤ network.maxMoneyOut) (hlen : c.out.scriptPubKey.length ≤ maxScriptSize)
    (hheight : c.nHeight < 2 ^ 30) :
    ReadsBack (Coin.serialize keys) (Coin.unserialize keys) c ∧
        ReadsBack (txInUndoSerialize keys) (txInUndoUnserialize keys) c ↔
      c.out.nValue % 10 = 0 ∨ c.out.nValue ≤ maxCompressible := by
  have hspent : c.isSpent = false := by
    simp only [Coin.isSpent, TxOut.isNull, decide_eq_false_iff_not]
    omega
  obtain ⟨bytes, hbytes, hread⟩ := unserialize_serialize keys hlen hheight hspent
  obtain ⟨undo, hundo, hreadUndo⟩ := txInUndoUnserialize_serialize keys hlen hheight
  rw [← toI64_decompressAmount_iff h0 (Int.le_trans hrange network.maxMoneyOut_le)]
  generalize toI64 (decompressAmount (compressAmount (toU64 c.out.nValue))) = v at hread hreadUndo ⊢
  constructor
  · rintro ⟨⟨bytes', hbytes', hback⟩, -⟩
    have hwritten : bytes = bytes' := Option.some.inj (hbytes.symm.trans hbytes')
    rw [← hwritten] at hback
    have hcoin := Option.some.inj ((hread []).symm.trans (hback []))
    exact congrArg (fun r => r.1.out.nValue) hcoin
  · intro hamount
    rw [hamount] at hread hreadUndo
    exact ⟨⟨bytes, hbytes, hread⟩, ⟨undo, hundo, hreadUndo⟩⟩

/-- A staked coin to a key, at the height of a main network upgrade. -/
def largeCoin (nValue : Int) : Coin :=
  ⟨⟨nValue, [opDup, opHash160, 20] ++ List.replicate 20 7 ++ [opEqualVerify, opCheckSig]⟩, 915000,
    false, true⟩

theorem disk_format_keeps_largest :
    ReadsBack (Coin.serialize noKeys) (Coin.unserialize noKeys) (largeCoin 2049638230412172402) ∧
      ReadsBack (txInUndoSerialize noKeys) (txInUndoUnserialize noKeys) (largeCoin 2049638230412172402) :=
  (disk_format_keeps_iff noKeys .main (c := largeCoin 2049638230412172402) (by decide) (by decide)
    (by decide) (by decide)).mpr (.inr (by decide))

/-- One more, and a coin of twenty billion comes back as a ten-thousandth of one. -/
theorem disk_format_loses_next :
    (largeCoin 2049638230412172403).out.nValue ≤ Network.main.maxMoneyOut ∧
      ((largeCoin 2049638230412172403).serialize noKeys).bind (Coin.unserialize noKeys) =
        some (largeCoin 10000, []) ∧
      (txInUndoSerialize noKeys (largeCoin 2049638230412172403)).bind (txInUndoUnserialize noKeys) =
        some (largeCoin 10000, []) ∧
      largeCoin 10000 ≠ largeCoin 2049638230412172403 := by
  decide +kernel

end Rapids.Chain
