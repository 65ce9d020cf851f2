import Rapids.Payload.WalletTxSound

/-!
# Rapids.Payload.StmAddresses

**The receivers of a send to many** (`addValidStmAddress` and `getValidStmAddressAt`,
`tokencore/tx.h`).

An entry of the payload names its receiver by the number of an output, in a byte. The
parser counts outputs without a bound and keeps their addresses in a map from bytes. So
an output that pays an address is kept under its number modulo 256, and **a later output
takes the place of an earlier one**, or fills a hole that an earlier one leaves.

A map filled from the front holds for each key what came last (`stm_some_iff`). With at
most 256 outputs every key has one output; in general the receiver is the one referred
to exactly where nothing was put in its place.
-/

namespace Rapids.Payload

open Rapids.Lib Rapids.Chain

variable {vout : List TxOut}

section Stm

variable (N : TokenNetwork) (nulldataBlock nBlock : Nat)

/-- The address of an output by its number: its type counts, a destination can be extracted, and
that is not the Exodus address. -/
def outputAddress (vout : List TxOut) (n : Nat) : Option (List UInt8) :=
  vout[n]?.bind fun o => paidAddress N nulldataBlock nBlock o.scriptPubKey

/-- The map that the parser fills. -/
def stmAddresses (vout : List TxOut) : List (UInt8 × List UInt8) :=
  (addressOutputs N nulldataBlock nBlock vout).foldl
    (fun addresses o => addValidStmAddress addresses (UInt8.ofNat o.n) o.address) []

/-- Nothing is put in the place of an output: whatever is counted last under its number pays the
same address. -/
def KeepsPlace (vout : List TxOut) (n : UInt8) : Prop :=
  ∀ m a, n.toNat < m → UInt8.ofNat m = n → outputAddress N nulldataBlock nBlock vout m = some a →
    (∀ m', m < m' → UInt8.ofNat m' = n → outputAddress N nulldataBlock nBlock vout m' = none) →
    outputAddress N nulldataBlock nBlock vout n.toNat = some a

variable {N nulldataBlock nBlock}

theorem parseTransaction_stm {D : ParseContext} {tx : Transaction} {idx nTime : Nat} {rc : Int}
    {mp : ParsedTransaction} (h : parseTransaction N D tx nBlock idx nTime = .ok (rc, mp)) :
    mp.validOutputAddressesForSTM = stmAddresses N D.nulldataBlock nBlock tx.vout :=
  (parseTransaction_ok h).2

/-! ### The map -/

theorem getValidStmAddressAt_add (addresses : List (UInt8 × List UInt8)) (output : UInt8)
    (address : List UInt8) (k : UInt8) :
    getValidStmAddressAt (addValidStmAddress addresses output address) k =
      if output = k then some address else getValidStmAddressAt addresses k := by
  rw [getValidStmAddressAt, addValidStmAddress, List.find?_cons]
  by_cases hk : output = k
  · rw [if_pos hk, decide_eq_true hk]
    rfl
  · rw [if_neg hk, decide_eq_false hk, getValidStmAddressAt, List.find?_filter]
    -- what is removed has another key
    refine congrArg (fun q => (addresses.find? q).map Prod.snd) (funext fun entry => ?_)
    by_cases hentry : entry.1 = k
    · have hne : k ≠ output := fun heq => hk heq.symm
      simp [hentry, hne]
    · simp [hentry]

theorem stmAddresses_eq (vout : List TxOut) :
    stmAddresses N nulldataBlock nBlock vout =
      ((addressOutputs N nulldataBlock nBlock vout).map fun out => (out.n, out.address)).foldl
        (fun addresses out => addValidStmAddress addresses (UInt8.ofNat out.1) out.2) [] := by
  rw [stmAddresses, List.foldl_map]

theorem getValidStmAddressAt_snoc (vout : List TxOut) (o : TxOut) (k : UInt8) :
    getValidStmAddressAt (stmAddresses N nulldataBlock nBlock (vout ++ [o])) k =
      if UInt8.ofNat vout.length = k ∧ (paidAddress N nulldataBlock nBlock o.scriptPubKey).isSome then
        paidAddress N nulldataBlock nBlock o.scriptPubKey
      else getValidStmAddressAt (stmAddresses N nulldataBlock nBlock vout) k := by
  rw [stmAddresses_eq, addressOutputs_snoc, List.foldl_append, ← stmAddresses_eq]
  cases hpaid : paidAddress N nulldataBlock nBlock o.scriptPubKey with
  | none => exact (if_neg fun h => Bool.false_ne_true h.2).symm
  | some a =>
    rw [Option.map_some, Option.toList_some, List.foldl_cons, List.foldl_nil, getValidStmAddressAt_add]
    by_cases hk : UInt8.ofNat vout.length = k
    · rw [if_pos hk, if_pos ⟨hk, rfl⟩]
    · rw [if_neg hk, if_neg fun h => hk h.1]

theorem outputAddress_snoc_lt {o : TxOut} {n : Nat} (h : n < vout.length) :
    outputAddress N nulldataBlock nBlock (vout ++ [o]) n = outputAddress N nulldataBlock nBlock vout n := by
  rw [outputAddress, outputAddress, List.getElem?_append_left h]

theorem outputAddress_snoc_length (vout : List TxOut) (o : TxOut) :
    outputAddress N nulldataBlock nBlock (vout ++ [o]) vout.length =
      paidAddress N nulldataBlock nBlock o.scriptPubKey := by
  rw [outputAddress, List.getElem?_concat_length]
  rfl

theorem outputAddress_of_length_le {n : Nat} (h : vout.length ≤ n) :
    outputAddress N nulldataBlock nBlock vout n = none := by
  rw [outputAddress, List.getElem?_eq_none h]
  rfl

theorem lt_length_of_outputAddress {n : Nat} {a : List UInt8}
    (h : outputAddress N nulldataBlock nBlock vout n = some a) : n < vout.length := by
  by_contra hle
  rw [outputAddress_of_length_le (Nat.not_lt.mp hle)] at h
  exact absurd h.symm (Option.some_ne_none a)

/-! ### What came last -/

theorem stm_some_iff (vout : List TxOut) (k : UInt8) (a : List UInt8) :
    getValidStmAddressAt (stmAddresses N nulldataBlock nBlock vout) k = some a ↔
      ∃ m, UInt8.ofNat m = k ∧ outputAddress N nulldataBlock nBlock vout m = some a ∧
        ∀ m', m < m' → UInt8.ofNat m' = k → outputAddress N nulldataBlock nBlock vout m' = none := by
  induction vout using List.reverseRecOn with
  | nil =>
    refine iff_of_false (fun h => absurd h.symm (Option.some_ne_none a)) ?_
    rintro ⟨m, -, hm, -⟩
    exact absurd hm.symm (Option.some_ne_none a)
  | append_singleton vout o ih =>
    rw [getValidStmAddressAt_snoc]
    by_cases hlast : UInt8.ofNat vout.length = k ∧ (paidAddress N nulldataBlock nBlock o.scriptPubKey).isSome
    · -- the new output is the last one
      rw [if_pos hlast]
      constructor
      · intro hpaid
        refine ⟨vout.length, hlast.1, ?_, fun m' hm' _ => outputAddress_of_length_le ?_⟩
        · rw [outputAddress_snoc_length, hpaid]
        · rw [List.length_append, List.length_singleton]
          exact hm'
      · rintro ⟨m, -, hm, hafter⟩
        have hlt := lt_length_of_outputAddress hm
        rw [List.length_append, List.length_singleton] at hlt
        rcases Nat.lt_succ_iff_lt_or_eq.mp hlt with hlt | rfl
        · have hnone := hafter vout.length hlt hlast.1
          rw [outputAddress_snoc_length] at hnone
          rw [hnone] at hlast
          exact absurd hlast.2 Bool.false_ne_true
        · rw [outputAddress_snoc_length] at hm
          exact hm
    · -- the new output changes nothing
      rw [if_neg hlast, ih]
      have hnew : UInt8.ofNat vout.length = k →
          outputAddress N nulldataBlock nBlock (vout ++ [o]) vout.length = none := by
        intro hk
        rw [outputAddress_snoc_length]
        exact Option.not_isSome_iff_eq_none.mp fun hpaid => hlast ⟨hk, hpaid⟩
      have hsame : ∀ m, UInt8.ofNat m = k → outputAddress N nulldataBlock nBlock (vout ++ [o]) m =
          outputAddress N nulldataBlock nBlock vout m := by
        intro m hk
        rcases Nat.lt_trichotomy m vout.length with hm | rfl | hm
        · exact outputAddress_snoc_lt hm
        · rw [hnew hk, outputAddress_of_length_le le_rfl]
        · rw [outputAddress_of_length_le hm.le, outputAddress_of_length_le]
          rw [List.length_append, List.length_singleton]
          exact hm
      constructor
      · rintro ⟨m, hk, hm, hafter⟩
        refine ⟨m, hk, by rw [hsame m hk, hm], fun m' hm' hk' => ?_⟩
        rw [hsame m' hk', hafter m' hm' hk']
      · rintro ⟨m, hk, hm, hafter⟩
        refine ⟨m, hk, by rw [← hsame m hk, hm], fun m' hm' hk' => ?_⟩
        rw [← hsame m' hk', hafter m' hm' hk']

theorem stm_none {k : UInt8}
    (h : getValidStmAddressAt (stmAddresses N nulldataBlock nBlock vout) k = none) :
    ∀ m, UInt8.ofNat m = k → outputAddress N nulldataBlock nBlock vout m = none := by
  induction vout using List.reverseRecOn with
  | nil => exact fun m _ => rfl
  | append_singleton vout o ih =>
    rw [getValidStmAddressAt_snoc] at h
    by_cases hlast : UInt8.ofNat vout.length = k ∧ (paidAddress N nulldataBlock nBlock o.scriptPubKey).isSome
    · rw [if_pos hlast] at h
      rw [h] at hlast
      exact absurd hlast.2 Bool.false_ne_true
    · rw [if_neg hlast] at h
      intro m hk
      rcases Nat.lt_trichotomy m vout.length with hm | rfl | hm
      · rw [outputAddress_snoc_lt hm]
        exact ih h m hk
      · rw [outputAddress_snoc_length]
        exact Option.not_isSome_iff_eq_none.mp fun hpaid => hlast ⟨hk, hpaid⟩
      · refine outputAddress_of_length_le ?_
        rw [List.length_append, List.length_singleton]
        exact hm

theorem stm_iff (vout : List TxOut) (n : UInt8) :
    getValidStmAddressAt (stmAddresses N nulldataBlock nBlock vout) n =
        outputAddress N nulldataBlock nBlock vout n.toNat ↔
      KeepsPlace N nulldataBlock nBlock vout n := by
  constructor
  · intro hread m a _ hk hm hafter
    rw [← hread]
    exact (stm_some_iff vout n a).mpr ⟨m, hk, hm, hafter⟩
  · intro hkeeps
    cases hget : getValidStmAddressAt (stmAddresses N nulldataBlock nBlock vout) n with
    | none => exact (stm_none hget n.toNat (UInt8.ofNat_toNat)).symm
    | some a =>
      obtain ⟨m, hk, hm, hafter⟩ := (stm_some_iff vout n a).mp hget
      have hmod : m % 256 = n.toNat := by
        rw [← hk, UInt8.toNat_ofNat']
      rcases Nat.lt_or_ge n.toNat m with hlt | hle
      · exact (hkeeps m a hlt hk hm hafter).symm
      · have heq : m = n.toNat := by omega
        rw [← heq, hm]

end Stm

/-! ### Transactions -/

/-- **The receiver of an entry is the output it refers to, if and only if** nothing was put in its
place. -/
theorem stm_receiver_iff {N : TokenNetwork} {D : ParseContext} {tx : Transaction} {nBlock idx nTime : Nat}
    {rc : Int} {mp : ParsedTransaction} (h : parseTransaction N D tx nBlock idx nTime = .ok (rc, mp)) (n : UInt8) :
    getValidStmAddressAt mp.validOutputAddressesForSTM n =
        outputAddress N D.nulldataBlock nBlock tx.vout n.toNat ↔
      KeepsPlace N D.nulldataBlock nBlock tx.vout n := by
  rw [parseTransaction_stm h]
  exact stm_iff tx.vout n

/-- A transaction from the first address of the wallet, with data, and outputs behind it. -/
def manyOutputs (behind : List TxOut) : Transaction :=
  ⟨78, [⟨⟨77, 0⟩, []⟩], ⟨1000, getScriptForDestination (walletKey 1)⟩ :: dataOutput [0, 0, 0, 7] :: behind⟩

/-- An output of number 256 that pays the second address. -/
def overfullTx : Transaction :=
  manyOutputs (List.replicate 254 ⟨0, []⟩ ++ [⟨1000, getScriptForDestination (walletKey 2)⟩])

theorem manyOutputs_runs :
    (parseTransaction plainNetwork pairContext (manyOutputs []) 100 0 0).toOption.map Prod.fst = some 0 ∧
      ((parseTransaction plainNetwork pairContext overfullTx 100 0 0).toOption.map fun read =>
        (read.1, getValidStmAddressAt read.2.validOutputAddressesForSTM 0)) =
          some (0, some (plainNetwork.encode (walletKey 2))) ∧
      outputAddress plainNetwork 0 100 overfullTx.vout 0 = some (plainNetwork.encode (walletKey 1)) ∧
      plainNetwork.encode (walletKey 2) ≠ plainNetwork.encode (walletKey 1) := by
  decide +kernel

theorem stm_receiver_single :
    ∃ mp, parseTransaction plainNetwork pairContext (manyOutputs []) 100 0 0 = .ok (0, mp) ∧
      (getValidStmAddressAt mp.validOutputAddressesForSTM 0 =
          outputAddress plainNetwork 0 100 (manyOutputs []).vout 0 ↔
        KeepsPlace plainNetwork 0 100 (manyOutputs []).vout 0) := by
  obtain ⟨read, hread, hrc⟩ := Option.map_eq_some_iff.mp manyOutputs_runs.1
  have hparse : parseTransaction plainNetwork pairContext (manyOutputs []) 100 0 0 = .ok (0, read.2) := by
    rw [eq_ok_of_toOption hread, ← hrc]
  exact ⟨read.2, hparse, stm_receiver_iff hparse 0⟩

/-- The output of number 256 takes the place of the first. -/
theorem stm_receiver_replaced :
    ∃ mp, parseTransaction plainNetwork pairContext overfullTx 100 0 0 = .ok (0, mp) ∧
      outputAddress plainNetwork 0 100 overfullTx.vout 0 = some (plainNetwork.encode (walletKey 1)) ∧
      getValidStmAddressAt mp.validOutputAddressesForSTM 0 = some (plainNetwork.encode (walletKey 2)) ∧
      plainNetwork.encode (walletKey 2) ≠ plainNetwork.encode (walletKey 1) := by
  obtain ⟨-, hrun, hplace, hne⟩ := manyOutputs_runs
  obtain ⟨read, hread, heq⟩ := Option.map_eq_some_iff.mp hrun
  obtain ⟨hrc, haddr⟩ := Prod.mk.inj heq
  refine ⟨read.2, ?_, hplace, haddr, hne⟩
  rw [eq_ok_of_toOption hread, ← hrc]

end Rapids.Payload
