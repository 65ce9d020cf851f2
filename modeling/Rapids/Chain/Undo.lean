import Mathlib.Tactic.Ring
import Rapids.Chain.Coins

/-!
# Rapids.Chain.Undo

**Undo records** (`undo.h`, `compressor.cpp`): what `ConnectBlock` writes about a
coin it spends and what `DisconnectBlock` reads back.

The height and the flags share one 32-bit number, the amount is compressed in 64
bits, and common scripts have a short form. The record is modelled field by
field, not byte by byte. `readUndo_writeUndo` says for which coins the two
directions cancel: an amount `a` with `9 * a` from `2^64` on, or a height from
`2^30` on, does not fit its field.
-/

namespace Rapids.Chain

open Rapids.Lib

/-! ### Amounts -/

/-- The loop of `CompressAmount`: divide by 10 up to `k` more times. Returns what
is left, and how many of the 9 divisions were done. -/
def stripZeros : Nat → Nat → Nat × Nat
  | 0, n => (n, 9)
  | k + 1, n => if n % 10 = 0 then stripZeros k (n / 10) else (n, 9 - (k + 1))

/-- `CompressAmount` -/
def compressAmount (n : Nat) : Nat :=
  if n = 0 then 0
  else
    let (n, e) := stripZeros 9 n
    if e < 9 then (1 + (n / 10 * 9 + n % 10 - 1) * 10 + e) % 18446744073709551616
    else (1 + (n - 1) * 10 + 9) % 18446744073709551616

/-- `DecompressAmount` -/
def decompressAmount (x : Nat) : Nat :=
  if x = 0 then 0
  else
    let e := (x - 1) % 10
    let x := (x - 1) / 10
    let n := if e < 9 then x / 9 * 10 + (x % 9 + 1) else x + 1
    n * 10 ^ e % 18446744073709551616

/-- What the loop leaves: the amount over a power of ten, and no further zero
unless all divisions were used up. -/
theorem stripZeros_spec {k n m e : Nat} (hk : k ≤ 9) (hn : n ≠ 0) (h : stripZeros k n = (m, e)) :
    n = m * 10 ^ (e - (9 - k)) ∧ 9 - k ≤ e ∧ e ≤ 9 ∧ m ≠ 0 ∧ (e < 9 → m % 10 ≠ 0) := by
  induction k generalizing n with
  | zero =>
    obtain ⟨rfl, rfl⟩ := Prod.mk.inj h
    simp [hn]
  | succ k ih =>
    rw [stripZeros] at h
    split_ifs at h with hdiv
    · obtain ⟨hm, hlo, hhi, hne, hmod⟩ := ih (by omega) (by omega) h
      refine ⟨?_, by omega, hhi, hne, hmod⟩
      have hpow : e - (9 - (k + 1)) = e - (9 - k) + 1 := by omega
      rw [hpow, pow_succ, ← mul_assoc, ← hm]
      omega
    · obtain ⟨rfl, rfl⟩ := Prod.mk.inj h
      simp only [Nat.sub_self, pow_zero, mul_one, true_and, le_refl]
      exact ⟨by omega, hn, fun _ => hdiv⟩

/-- An amount survives if its product fits in 64 bits. With a zero stripped the
product is below the amount, so only the last digit and the rest count. -/
theorem decompressAmount_compressAmount_of_fits {n : Nat} (h64 : n < 18446744073709551616)
    (hfits : n % 10 ≠ 0 → 1 + (n / 10 * 9 + n % 10 - 1) * 10 < 18446744073709551616) :
    decompressAmount (compressAmount n) = n := by
  by_cases hn : n = 0
  · simp [hn, compressAmount, decompressAmount]
  rcases hs : stripZeros 9 n with ⟨m, e⟩
  obtain ⟨hval, -, he, hm, hmod⟩ := stripZeros_spec (le_refl 9) hn hs
  simp only [Nat.sub_self, Nat.sub_zero] at hval
  have hback : m * 10 ^ e % 18446744073709551616 = n := by
    rw [← hval]
    exact Nat.mod_eq_of_lt h64
  -- an amount with a zero stripped is ten times what is left, so nothing overflows
  have hten : e ≠ 0 → 10 * m ≤ n := by
    intro he0
    obtain ⟨e', rfl⟩ := Nat.exists_eq_succ_of_ne_zero he0
    rw [hval, pow_succ]
    have hpow : 1 ≤ 10 ^ e' := Nat.one_le_pow _ _ (by omega)
    calc 10 * m = m * 10 := Nat.mul_comm 10 m
      _ ≤ m * (10 ^ e' * 10) := Nat.mul_le_mul_left m (by omega)
  simp only [compressAmount, hn, if_false, hs]
  by_cases he9 : e < 9
  · have hd := hmod he9
    rw [if_pos he9]
    have hlt : 1 + (m / 10 * 9 + m % 10 - 1) * 10 + e < 18446744073709551616 := by
      by_cases he0 : e = 0
      · subst he0
        rw [pow_zero, mul_one] at hval
        subst hval
        exact hfits hd
      · have := hten he0
        omega
    rw [Nat.mod_eq_of_lt hlt, decompressAmount, if_neg (by omega)]
    have h1 : (1 + (m / 10 * 9 + m % 10 - 1) * 10 + e - 1) % 10 = e := by omega
    have h2 : (1 + (m / 10 * 9 + m % 10 - 1) * 10 + e - 1) / 10 = m / 10 * 9 + m % 10 - 1 := by
      omega
    simp only [h1, h2, if_pos he9]
    have h3 : (m / 10 * 9 + m % 10 - 1) / 9 * 10 + ((m / 10 * 9 + m % 10 - 1) % 9 + 1) = m := by
      omega
    rw [h3, hback]
  · obtain rfl : e = 9 := by omega
    rw [if_neg (by omega)]
    have hlt : 1 + (m - 1) * 10 + 9 < 18446744073709551616 := by
      have := hten (by omega)
      omega
    rw [Nat.mod_eq_of_lt hlt, decompressAmount, if_neg (by omega)]
    have h1 : (1 + (m - 1) * 10 + 9 - 1) % 10 = 9 := by omega
    have h2 : (1 + (m - 1) * 10 + 9 - 1) / 10 = m - 1 := by omega
    simp only [h1, h2, lt_irrefl, if_false]
    rw [Nat.sub_add_cancel (by omega), hback]

theorem decompressAmount_compressAmount {n : Nat} (h : 9 * n < 18446744073709551616) :
    decompressAmount (compressAmount n) = n :=
  decompressAmount_compressAmount_of_fits (by omega) fun _ => by omega

/-! ### Scripts -/

/-- Public keys (`CPubKey`, over the curve library): which uncompressed keys are
valid, and the uncompressed form of a compressed one. -/
structure PubKeys where
  isFullyValid : List UInt8 → Bool
  decompress : List UInt8 → Option (List UInt8)
  /-- A valid key is determined by its first coordinate and the parity of the
  second. -/
  decompress_valid : ∀ xy : List UInt8, xy.length = 64 → isFullyValid (4 :: xy) = true →
    decompress ((2 + (xy.getLastD 0 &&& 1)) :: xy.take 32) = some (4 :: xy)

/-- What `CScriptCompressor` writes. -/
inductive ScriptRecord
  | keyID (hash : List UInt8)
  | scriptID (hash : List UInt8)
  /-- The first byte is 2 to 5. -/
  | pubKey (nSize : UInt8) (x : List UInt8)
  | raw (s : Script)
  deriving DecidableEq

/-- `IsToKeyID` -/
def isToKeyID : Script → Option (List UInt8)
  | a :: b :: c :: rest =>
    if a = opDup ∧ b = opHash160 ∧ c = 20 ∧ rest.length = 22 ∧
        rest.drop 20 = [opEqualVerify, opCheckSig] then some (rest.take 20)
    else none
  | _ => none

/-- `IsToScriptID` -/
def isToScriptID : Script → Option (List UInt8)
  | a :: b :: rest =>
    if a = opHash160 ∧ b = 20 ∧ rest.length = 21 ∧ rest.drop 20 = [opEqual] then
      some (rest.take 20)
    else none
  | _ => none

variable (keys : PubKeys)

/-- `IsToPubKey`, for the two forms of a key. -/
def isToPubKey : Script → Option (List UInt8)
  | a :: b :: rest =>
    if a = 33 ∧ (b = 2 ∨ b = 3) ∧ rest.length = 33 ∧ rest.drop 32 = [opCheckSig] then
      some (b :: rest.take 32)
    else if a = 65 ∧ b = 4 ∧ rest.length = 65 ∧ rest.drop 64 = [opCheckSig] ∧
        keys.isFullyValid (4 :: rest.take 64) = true then
      some (4 :: rest.take 64)
    else none
  | _ => none

/-- `CScriptCompressor::Serialize` with `Compress` -/
def compressScript (s : Script) : ScriptRecord :=
  match isToKeyID s with
  | some hash => .keyID hash
  | none =>
    match isToScriptID s with
    | some hash => .scriptID hash
    | none =>
      match isToPubKey keys s with
      | some (b :: xy) =>
        if b = 4 then .pubKey (4 ||| (xy.getLastD 0 &&& 1)) (xy.take 32) else .pubKey b xy
      | _ => .raw s

/-- `CScriptCompressor::Unserialize` with `Decompress`. A key that does not
decompress leaves the script empty, and a script that is too long is replaced. -/
def decompressScript : ScriptRecord → Script
  | .keyID hash => [opDup, opHash160, 20] ++ hash ++ [opEqualVerify, opCheckSig]
  | .scriptID hash => [opHash160, 20] ++ hash ++ [opEqual]
  | .pubKey nSize x =>
    if nSize = 2 ∨ nSize = 3 then [33, nSize] ++ x ++ [opCheckSig]
    else
      match keys.decompress ((nSize - 2) :: x) with
      | some pubkey => 65 :: pubkey ++ [opCheckSig]
      | none => []
  | .raw s => if maxScriptSize < s.length then [opReturn] else s

theorem isToKeyID_eq_some {s hash : List UInt8} (h : isToKeyID s = some hash) :
    s = [opDup, opHash160, 20] ++ hash ++ [opEqualVerify, opCheckSig] := by
  unfold isToKeyID at h
  split at h
  · split_ifs at h with hc
    obtain ⟨rfl, rfl, rfl, -, htail⟩ := hc
    cases h
    rw [← htail]
    simp
  · cases h

theorem isToScriptID_eq_some {s hash : List UInt8} (h : isToScriptID s = some hash) :
    s = [opHash160, 20] ++ hash ++ [opEqual] := by
  unfold isToScriptID at h
  split at h
  · split_ifs at h with hc
    obtain ⟨rfl, rfl, -, htail⟩ := hc
    cases h
    rw [← htail]
    simp
  · cases h

theorem isToPubKey_eq_some {keys : PubKeys} {s pubkey : List UInt8}
    (h : isToPubKey keys s = some pubkey) :
    (∃ b x, pubkey = b :: x ∧ (b = 2 ∨ b = 3) ∧ s = [33, b] ++ x ++ [opCheckSig]) ∨
      (∃ xy, pubkey = 4 :: xy ∧ xy.length = 64 ∧ keys.isFullyValid (4 :: xy) = true ∧
        s = 65 :: (4 :: xy) ++ [opCheckSig]) := by
  unfold isToPubKey at h
  split at h
  next a b rest =>
    split_ifs at h with hc hu
    · obtain ⟨rfl, hb, -, htail⟩ := hc
      cases h
      refine .inl ⟨b, rest.take 32, rfl, hb, ?_⟩
      rw [← htail]
      simp
    · obtain ⟨rfl, rfl, hlen, htail, hvalid⟩ := hu
      cases h
      refine .inr ⟨rest.take 64, rfl, by simp [hlen], hvalid, ?_⟩
      rw [← htail]
      simp
  next => cases h

theorem parity_cases (y : UInt8) : y &&& 1 = 0 ∨ y &&& 1 = 1 := by
  have hbit : (y &&& 1).toNat = y.toNat % 2 := by
    rw [UInt8.toNat_and]
    exact Nat.and_one_is_mod _
  rcases Nat.mod_two_eq_zero_or_one y.toNat with h | h
  · exact .inl (UInt8.toNat_inj.mp (hbit.trans h))
  · exact .inr (UInt8.toNat_inj.mp (hbit.trans h))

/-- The parity bit picks one of the two short forms, and the reader takes 2 off again. -/
theorem parity_code (y : UInt8) :
    ¬((4 ||| (y &&& 1)) = 2 ∨ (4 ||| (y &&& 1)) = 3) ∧ (4 ||| (y &&& 1)) - 2 = 2 + (y &&& 1) := by
  rcases parity_cases y with h | h <;> rw [h] <;> decide

theorem decompressScript_compressScript_of_length {s : Script}
    (hlen : ¬maxScriptSize < s.length) : decompressScript keys (compressScript keys s) = s := by
  unfold compressScript
  split
  next hash hk => exact (isToKeyID_eq_some hk).symm
  next =>
    split
    next hash hs => exact (isToScriptID_eq_some hs).symm
    next =>
      split
      next b xy hp =>
        rcases isToPubKey_eq_some hp with ⟨b', x, hbx, hb, rfl⟩ | ⟨xy', hxy, hl, hvalid, rfl⟩
        · obtain ⟨rfl, rfl⟩ := List.cons.inj hbx
          have hb4 : b ≠ 4 := by rcases hb with rfl | rfl <;> decide
          rw [if_neg hb4, decompressScript, if_pos hb]
        · obtain ⟨rfl, rfl⟩ := List.cons.inj hxy
          obtain ⟨hshort, hsub⟩ := parity_code (xy.getLastD 0)
          rw [if_pos rfl, decompressScript, if_neg hshort, hsub,
            keys.decompress_valid xy hl hvalid]
      next => rw [decompressScript, if_neg hlen]

theorem decompressScript_compressScript {s : Script}
    (h : isUnspendable s = false) : decompressScript keys (compressScript keys s) = s := by
  simp only [isUnspendable, Bool.or_eq_false_iff, decide_eq_false_iff_not] at h
  exact decompressScript_compressScript_of_length keys h.2

/-! ### Records -/

/-- What `TxInUndoSerializer` writes. -/
structure UndoRecord where
  nCode : Nat
  /-- Is there the byte that older versions put behind a height? -/
  versionDummy : Bool
  amount : Nat
  script : ScriptRecord
  deriving DecidableEq

/-- `TxInUndoSerializer` -/
def writeUndo (c : Coin) : UndoRecord where
  nCode := (c.nHeight * 4 + c.fCoinBase.toNat * 2 + c.fCoinStake.toNat) % 4294967296
  versionDummy := 0 < c.nHeight
  amount := compressAmount (toU64 c.out.nValue)
  script := compressScript keys c.out.scriptPubKey

/-- `TxInUndoDeserializer`. Where the height that is left and the version byte do
not go together, what follows is misread. -/
def readUndo (r : UndoRecord) : Option Coin :=
  if r.versionDummy = decide (0 < r.nCode / 4) then
    some
      { out := ⟨toI64 (decompressAmount r.amount), decompressScript keys r.script⟩
        nHeight := r.nCode / 4
        fCoinBase := r.nCode / 2 % 2 = 1
        fCoinStake := r.nCode % 2 = 1 }
  else none

/-- The coins that a chain holds and that undo records keep. -/
structure Coin.Storable (c : Coin) : Prop where
  height_pos : 0 < c.nHeight
  height_lt : c.nHeight < 1073741824
  value_nonneg : 0 ≤ c.out.nValue
  value_lt : 9 * c.out.nValue < 18446744073709551616
  spendable : isUnspendable c.out.scriptPubKey = false

theorem Coin.Storable.not_spent {c : Coin} (h : c.Storable) : c.isSpent = false := by
  have := h.value_nonneg
  simp only [Coin.isSpent, TxOut.isNull, decide_eq_false_iff_not]
  omega

theorem readUndo_writeUndo {c : Coin} (h : c.Storable) :
    readUndo keys (writeUndo keys c) = some c := by
  obtain ⟨hpos, hlt, hnn, hval, hsp⟩ := h
  have hb : c.fCoinBase.toNat ≤ 1 := Bool.toNat_le _
  have hs : c.fCoinStake.toNat ≤ 1 := Bool.toNat_le _
  have hcode : (writeUndo keys c).nCode =
      c.nHeight * 4 + c.fCoinBase.toNat * 2 + c.fCoinStake.toNat :=
    Nat.mod_eq_of_lt (by omega)
  have hheight : (writeUndo keys c).nCode / 4 = c.nHeight := by omega
  have hbase : (decide ((writeUndo keys c).nCode / 2 % 2 = 1)) = c.fCoinBase := by
    have : (writeUndo keys c).nCode / 2 % 2 = c.fCoinBase.toNat := by omega
    rw [this]
    cases c.fCoinBase <;> rfl
  have hstake : (decide ((writeUndo keys c).nCode % 2 = 1)) = c.fCoinStake := by
    have : (writeUndo keys c).nCode % 2 = c.fCoinStake.toNat := by omega
    rw [this]
    cases c.fCoinStake <;> rfl
  have hu64 : toU64 c.out.nValue = c.out.nValue.toNat := by
    rw [toU64, Int.emod_eq_of_lt hnn (by omega)]
  have hamount : toI64 (decompressAmount (compressAmount (toU64 c.out.nValue))) = c.out.nValue := by
    rw [hu64, decompressAmount_compressAmount (by omega), Int.toNat_of_nonneg hnn]
    exact toI64_of_inI64 ⟨by simp only [i64Min]; omega, by simp only [i64Max]; omega⟩
  have hscript := decompressScript_compressScript keys hsp
  have hdummy : (writeUndo keys c).versionDummy = decide (0 < c.nHeight) := rfl
  rw [readUndo, hheight, hbase, hstake, if_pos hdummy]
  simp [writeUndo, hscript, hamount]

end Rapids.Chain
