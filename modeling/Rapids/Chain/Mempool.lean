import Mathlib.Data.List.Sigma
import Rapids.Chain.Indexes

/-!
# Rapids.Chain.Mempool

**The address and spent indexes of the memory pool** (`txmempool.cpp`), both enabled.

`AcceptToMemoryPool` adds a transaction and then its rows: `addAddressIndex` one for each
input and output with an address, `addSpentIndex` one for each input. Every way out of the
pool (confirmation, conflict, expiry, trimming, reorganisation) ends in `RemoveStaged`,
and `removeUnchecked` takes no row back: `removeAddressIndex` and `removeSpentIndex` have
no caller. Rows are inserted, never overwritten, so a row that stays keeps out the row of
the transaction that spends the coin in the end.

Zerocoin spends are not modelled beyond their recognition.
-/

namespace Rapids.Chain

open Rapids.Lib

/-! ### Rows -/

/-- The address a script pays to, for the indexes of the pool. -/
def mempoolAddress (s : Script) : Option Address :=
  if isPayToScriptHash s then some ⟨2, (s.drop 2).take 20⟩
  else if isPayToPublicKeyHash s then some ⟨1, (s.drop 3).take 20⟩
  else none

/-- `CMempoolAddressDeltaKey` -/
structure MempoolAddressDeltaKey where
  address : Address
  txhash : Nat
  index : Nat
  spending : Bool
  deriving DecidableEq

/-- `CMempoolAddressDelta` -/
structure MempoolAddressDelta where
  time : Int
  amount : Int
  prevout : OutPoint

/-- `CSpentIndexValue`, in the pool. -/
structure MempoolSpentValue where
  txid : Nat
  inputIndex : Nat
  blockHeight : Int
  satoshis : Int
  address : Address

/-- `CTxMemPoolEntry`, with the outputs that the view finds for the inputs. -/
structure MempoolEntry where
  tx : Transaction
  time : Int
  prevouts : List TxOut

namespace MempoolEntry

variable (e : MempoolEntry)

/-- The inputs with what they spend and their places. -/
def inputs : List ((TxIn × TxOut) × Nat) := (e.tx.vin.zip e.prevouts).zipIdx

/-- What `addAddressIndex` inserts for an input. -/
def inputRow (i : (TxIn × TxOut) × Nat) : Option (MempoolAddressDeltaKey × MempoolAddressDelta) :=
  (mempoolAddress i.1.2.scriptPubKey).map fun a =>
    (⟨a, e.tx.hash, i.2, true⟩, ⟨e.time, -i.1.2.nValue, i.1.1.prevout⟩)

/-- What it inserts for an output. -/
def outputRow (o : TxOut × Nat) : Option (MempoolAddressDeltaKey × MempoolAddressDelta) :=
  (mempoolAddress o.1.scriptPubKey).map fun a => (⟨a, e.tx.hash, o.2, false⟩, ⟨e.time, o.1.nValue, ⟨0, 0⟩⟩)

/-- What `addAddressIndex` inserts. -/
def addressRows : List (MempoolAddressDeltaKey × MempoolAddressDelta) :=
  e.inputs.filterMap e.inputRow ++ e.tx.vout.zipIdx.filterMap e.outputRow

/-- What `addSpentIndex` inserts. -/
def spentRows : List (OutPoint × MempoolSpentValue) :=
  e.inputs.map fun i => (i.1.1.prevout, ⟨e.tx.hash, i.2, -1, i.1.2.nValue,
    (mempoolAddress i.1.2.scriptPubKey).getD ⟨0, List.replicate 20 0⟩⟩)

end MempoolEntry

/-! ### The pool -/

/-- `CTxMemPool`: its transactions, and the two indexes. -/
structure Mempool where
  mapTx : List MempoolEntry
  mapAddress : MempoolAddressDeltaKey → Option MempoolAddressDelta
  mapSpent : OutPoint → Option MempoolSpentValue

/-- What happens to a pool: a transaction is accepted, or a set of transactions is removed. -/
inductive MempoolEvent
  | accept (e : MempoolEntry)
  | removeStaged (stage : List Nat)

namespace Mempool

def empty : Mempool := ⟨[], fun _ => none, fun _ => none⟩

/-- What `AcceptToMemoryPool` asks of a transaction, as far as the indexes depend on it: it has
inputs, each with a coin and its own, it is new, and no transaction of the pool spends a coin of it
(`mapNextTx`). -/
def accepts (pool : Mempool) (e : MempoolEntry) : Bool :=
  !e.tx.vin.isEmpty && decide (e.tx.vin.map TxIn.prevout).Nodup && !e.tx.hasZerocoinSpendInputs &&
    e.prevouts.length == e.tx.vin.length && pool.mapTx.all fun x => x.tx.hash != e.tx.hash &&
      e.tx.vin.all fun i => x.tx.vin.all fun j => j.prevout != i.prevout

/-- `addUnchecked`, `addAddressIndex` and `addSpentIndex`, or `RemoveStaged`. -/
def step (pool : Mempool) : MempoolEvent → Option Mempool
  | .accept e =>
    if pool.accepts e then
      some ⟨pool.mapTx ++ [e], insertBatch e.addressRows pool.mapAddress, insertBatch e.spentRows pool.mapSpent⟩
    else none
  | .removeStaged stage => some { pool with mapTx := pool.mapTx.filter fun x => x.tx.hash ∉ stage }

/-- **The indexes are exact**: they hold the rows of the transactions in the pool, and no others. -/
structure Indexed (pool : Mempool) : Prop where
  address : ∀ k d, pool.mapAddress k = some d ↔ ∃ e ∈ pool.mapTx, (k, d) ∈ e.addressRows
  spent : ∀ o v, pool.mapSpent o = some v ↔ ∃ e ∈ pool.mapTx, (o, v) ∈ e.spentRows

/-- Does the event leave all transactions in the pool? -/
def keeps (pool : Mempool) : MempoolEvent → Bool
  | .accept _ => true
  | .removeStaged stage => pool.mapTx.all fun x => x.tx.hash ∉ stage

end Mempool

/-! ### Keys -/

section
variable {e : MempoolEntry} {pool pool' : Mempool}

theorem nodup_keys {α δ : Type} {l : List α} {f : α × Nat → Option (MempoolAddressDeltaKey × δ)}
    (hf : ∀ x r, f x = some r → r.1.index = x.2) : ((l.zipIdx.filterMap f).map Prod.fst).Nodup := by
  have hplaces := List.pairwise_map.mp (List.nodup_zipIdx_map_snd l)
  refine List.pairwise_map.mpr (hplaces.filterMap f fun x y hne r hr r' hr' heq => hne ?_)
  rw [← hf x r hr, heq, hf y r' hr']

/-- The rows of a transaction name it, and whether they are of an input. -/
theorem MempoolEntry.inputRow_key {x : (TxIn × TxOut) × Nat} {r : MempoolAddressDeltaKey × MempoolAddressDelta}
    (h : e.inputRow x = some r) : r.1.index = x.2 ∧ r.1.spending = true ∧ r.1.txhash = e.tx.hash := by
  obtain ⟨a, -, rfl⟩ := Option.map_eq_some_iff.mp h
  exact ⟨rfl, rfl, rfl⟩

theorem MempoolEntry.outputRow_key {x : TxOut × Nat} {r : MempoolAddressDeltaKey × MempoolAddressDelta}
    (h : e.outputRow x = some r) : r.1.index = x.2 ∧ r.1.spending = false ∧ r.1.txhash = e.tx.hash := by
  obtain ⟨a, -, rfl⟩ := Option.map_eq_some_iff.mp h
  exact ⟨rfl, rfl, rfl⟩

/-- Each input and each output has a key of its own. -/
theorem MempoolEntry.addressRows_nodup : (e.addressRows.map Prod.fst).Nodup := by
  rw [addressRows, List.map_append, List.nodup_append]
  refine ⟨nodup_keys fun x r h => (inputRow_key h).1, nodup_keys fun x r h => (outputRow_key h).1, ?_⟩
  intro k hk k' hk' heq
  obtain ⟨r, hr, rfl⟩ := List.mem_map.mp hk
  obtain ⟨r', hr', rfl⟩ := List.mem_map.mp hk'
  obtain ⟨x, -, hx⟩ := List.mem_filterMap.mp hr
  obtain ⟨y, -, hy⟩ := List.mem_filterMap.mp hr'
  have hspends := (inputRow_key hx).2.1
  rw [heq, (outputRow_key hy).2.1] at hspends
  cases hspends

theorem MempoolEntry.addressRows_txhash {k : MempoolAddressDeltaKey} {d : MempoolAddressDelta}
    (h : (k, d) ∈ e.addressRows) : k.txhash = e.tx.hash := by
  rcases List.mem_append.mp h with h | h
  · obtain ⟨x, -, hx⟩ := List.mem_filterMap.mp h
    exact (inputRow_key hx).2.2
  · obtain ⟨x, -, hx⟩ := List.mem_filterMap.mp h
    exact (outputRow_key hx).2.2

theorem MempoolEntry.spentRows_keys (hlen : e.prevouts.length = e.tx.vin.length) :
    e.spentRows.map Prod.fst = e.tx.vin.map TxIn.prevout := by
  have hfst : (e.tx.vin.zip e.prevouts).map Prod.fst = e.tx.vin := List.map_fst_zip hlen.ge
  rw [spentRows, List.map_map]
  conv_rhs => rw [← hfst, ← List.zipIdx_map_fst 0 (e.tx.vin.zip e.prevouts), List.map_map, List.map_map]
  rfl

/-! ### Steps -/

namespace Mempool

/-- What a transaction is that the pool accepts. -/
structure Accepted (pool : Mempool) (e : MempoolEntry) : Prop where
  spends : e.tx.vin ≠ []
  nodup : (e.tx.vin.map TxIn.prevout).Nodup
  found : e.prevouts.length = e.tx.vin.length
  fresh : ∀ x ∈ pool.mapTx, x.tx.hash ≠ e.tx.hash
  free : ∀ x ∈ pool.mapTx, ∀ i ∈ e.tx.vin, ∀ j ∈ x.tx.vin, j.prevout ≠ i.prevout

theorem accepted_of_accepts (h : pool.accepts e = true) : pool.Accepted e := by
  simp only [accepts, Bool.and_eq_true, Bool.not_eq_true', List.isEmpty_eq_false_iff, decide_eq_true_eq,
    beq_iff_eq, List.all_eq_true, bne_iff_ne] at h
  obtain ⟨⟨⟨⟨hspends, hnodup⟩, -⟩, hfound⟩, hpool⟩ := h
  exact ⟨hspends, hnodup, hfound, fun x hx => (hpool x hx).1, fun x hx => (hpool x hx).2⟩

/-- The indexes are exact, and every transaction spends coins that were found. -/
structure Kept (pool : Mempool) : Prop where
  indexed : pool.Indexed
  spends : ∀ e ∈ pool.mapTx, e.tx.vin ≠ [] ∧ e.prevouts.length = e.tx.vin.length

theorem Kept.accept (h : pool.Kept) (hacc : pool.Accepted e) :
    Kept ⟨pool.mapTx ++ [e], insertBatch e.addressRows pool.mapAddress,
      insertBatch e.spentRows pool.mapSpent⟩ := by
  have hkeys := e.spentRows_keys hacc.found
  have haddress : ∀ r ∈ e.addressRows, pool.mapAddress r.1 = none := by
    intro r hr
    by_contra hstored
    obtain ⟨d, hd⟩ := Option.ne_none_iff_exists'.mp hstored
    obtain ⟨x, hx, hrow⟩ := (h.indexed.address _ _).mp hd
    have hname : r.1.txhash = x.tx.hash := MempoolEntry.addressRows_txhash hrow
    exact hacc.fresh x hx (hname.symm.trans (MempoolEntry.addressRows_txhash hr))
  have hspent : ∀ r ∈ e.spentRows, pool.mapSpent r.1 = none := by
    intro r hr
    by_contra hstored
    obtain ⟨v, hv⟩ := Option.ne_none_iff_exists'.mp hstored
    obtain ⟨x, hx, hrow⟩ := (h.indexed.spent _ _).mp hv
    obtain ⟨i, hi, heq⟩ := List.mem_map.mp (hkeys ▸ List.mem_map_of_mem hr)
    obtain ⟨j, hj, heq'⟩ := List.mem_map.mp (x.spentRows_keys (h.spends x hx).2 ▸ List.mem_map_of_mem hrow)
    exact hacc.free x hx i hi j hj (heq'.trans heq.symm)
  refine ⟨⟨fun k d => ?_, fun o v => ?_⟩, fun x hx => ?_⟩
  · show insertBatch e.addressRows pool.mapAddress k = some d ↔ _
    rw [insertBatch_eq_some MempoolEntry.addressRows_nodup haddress, h.indexed.address]
    simp [or_and_right, exists_or]
  · show insertBatch e.spentRows pool.mapSpent o = some v ↔ _
    rw [insertBatch_eq_some (hkeys ▸ hacc.nodup) hspent, h.indexed.spent]
    simp [or_and_right, exists_or]
  · rcases List.mem_append.mp hx with hx | hx
    · exact h.spends x hx
    · obtain rfl := List.mem_singleton.mp hx
      exact ⟨hacc.spends, hacc.found⟩

/-- A removal leaves exact indexes exact if and only if it removes nothing. -/
theorem Kept.removeStaged (h : pool.Kept) (stage : List Nat) :
    Indexed { pool with mapTx := pool.mapTx.filter fun x => x.tx.hash ∉ stage } ↔
      pool.keeps (.removeStaged stage) = true := by
  rw [keeps, List.all_eq_true]
  constructor
  · intro hindexed x hx
    by_contra hgone
    -- the row of an input that was spent is still there
    obtain ⟨hspends, hfound⟩ := h.spends x hx
    have hrows : x.spentRows ≠ [] := by
      intro hnil
      have hkeys := x.spentRows_keys hfound
      rw [hnil] at hkeys
      exact hspends (List.map_eq_nil_iff.mp hkeys.symm)
    obtain ⟨r, hr⟩ := List.exists_mem_of_ne_nil _ hrows
    obtain ⟨y, hy, hrow⟩ := (hindexed.spent r.1 r.2).mp ((h.indexed.spent r.1 r.2).mpr ⟨x, hx, hr⟩)
    have htxid : ∀ z : MempoolEntry, r ∈ z.spentRows → r.2.txid = z.tx.hash := by
      intro z hz
      obtain ⟨i, -, rfl⟩ := List.mem_map.mp hz
      rfl
    have hkept := (List.mem_filter.mp hy).2
    rw [← htxid y hrow, htxid x hr] at hkept
    exact hgone hkept
  · intro hall
    rw [List.filter_eq_self.mpr hall]
    exact h.indexed

theorem Kept.step {ev : MempoolEvent} (h : pool.Kept) (hstep : pool.step ev = some pool') :
    (pool'.Indexed ↔ pool.keeps ev = true) ∧ (pool.keeps ev = true → pool'.Kept) := by
  cases ev with
  | accept e =>
    simp only [Mempool.step] at hstep
    split_ifs at hstep with hacc
    cases hstep
    have hkept := h.accept (accepted_of_accepts hacc)
    exact ⟨iff_of_true hkept.indexed rfl, fun _ => hkept⟩
  | removeStaged stage =>
    cases hstep
    exact ⟨h.removeStaged stage, fun hkeeps =>
      ⟨(h.removeStaged stage).mpr hkeeps, fun x hx => h.spends x (List.mem_of_mem_filter hx)⟩⟩

end Mempool

/-- **The indexes are exact as long as no transaction leaves the pool**, and the first that does
leaves its rows behind. -/
theorem mempool_indexed {es : List MempoolEvent}
    (hrun : run (guarded Mempool.keeps Mempool.step) Mempool.empty es = some pool) :
    pool.Indexed ∧ ∀ ev pool', pool.step ev = some pool' → (pool'.Indexed ↔ pool.keeps ev = true) := by
  have hempty : Mempool.empty.Kept := by
    refine ⟨⟨fun k d => ?_, fun o v => ?_⟩, fun x hx => absurd hx List.not_mem_nil⟩
    · exact iff_of_false nofun fun h => List.not_mem_nil h.choose_spec.1
    · exact iff_of_false nofun fun h => List.not_mem_nil h.choose_spec.1
  have hkept : pool.Kept := run_invariant (fun s ev s' hs h =>
    (hs.step (guarded_eq_some.mp h).2).2 (guarded_eq_some.mp h).1) hempty hrun
  exact ⟨hkept.indexed, fun ev pool' h => (hkept.step h).1⟩

end

/-- A transaction that spends the coin ⟨9, 0⟩. -/
def spendingEntry (hash : Nat) : MempoolEntry := ⟨⟨hash, [⟨⟨9, 0⟩, []⟩], [⟨4, []⟩]⟩, 0, [⟨5, []⟩]⟩

theorem mempool_indexed_one :
    ∃ pool, run (guarded Mempool.keeps Mempool.step) Mempool.empty [.accept (spendingEntry 1)] = some pool ∧
      pool.Indexed ∧ ∀ ev pool', pool.step ev = some pool' → (pool'.Indexed ↔ pool.keeps ev = true) := by
  have hrun : run (guarded Mempool.keeps Mempool.step) Mempool.empty [.accept (spendingEntry 1)] = some _ := rfl
  exact ⟨_, hrun, mempool_indexed hrun⟩

/-- A transaction expires and another spends its coin: the index still names the first. -/
theorem mempool_index_stale :
    ∃ pool, run Mempool.step Mempool.empty
        [.accept (spendingEntry 1), .removeStaged [1], .accept (spendingEntry 2)] = some pool ∧
      pool.mapTx = [spendingEntry 2] ∧ (pool.mapSpent ⟨9, 0⟩).map MempoolSpentValue.txid = some 1 ∧
      ¬ pool.Indexed := by
  refine ⟨_, rfl, rfl, rfl, fun h => ?_⟩
  obtain ⟨e, he, hrow⟩ := (h.spent ⟨9, 0⟩ ⟨1, 0, -1, 5, ⟨0, List.replicate 20 0⟩⟩).mp rfl
  obtain rfl := List.mem_singleton.mp he
  obtain ⟨i, -, hi⟩ := List.mem_map.mp hrow
  have hhash : 2 = 1 := congrArg (fun r => r.2.txid) hi
  exact absurd hhash (by decide)

end Rapids.Chain
