import Rapids.Chain.Connect

/-!
# Rapids.Chain.ConnectSound

**Disconnecting undoes connecting.**

One transaction at a time: `spendOutputs` takes back what `addCoins` stored,
`restoreInputs` what `spendInputs` removed, so `disconnectTx` is a left inverse
of `connectTx` on the coins, and both see the same inputs and outputs
(`disconnectTx_connectTx`). The block follows by induction, since the loop of
`DisconnectBlock` runs backwards.

Undo records keep `Storable` coins only, so the invariant of the views is that
they store no others.
-/

namespace Rapids.Chain

open Rapids.Lib OrdMap

variable {tx : Transaction} {t t' : Tally}

variable {v v' : Coins} {outs : List TxOut} {i : Nat} {undos : List (List Coin)} {k : OutPoint}
  {rest : List Transaction} {b : CBlock}

/-! ### Outputs -/

namespace Coins

/-- Where the spendable outputs of a transaction are stored, from output `i` on. -/
def outKeys (hash : Nat) : Nat → List TxOut → List OutPoint
  | _, [] => []
  | i, o :: rest =>
    if isUnspendable o.scriptPubKey then outKeys hash (i + 1) rest
    else ⟨hash, i⟩ :: outKeys hash (i + 1) rest

theorem outKeys_le {hash : Nat} (h : k ∈ outKeys hash i outs) :
    i ≤ k.n := by
  induction outs generalizing i with
  | nil => simp [outKeys] at h
  | cons o rest ih =>
    rw [outKeys] at h
    split_ifs at h with hu
    · have := ih h
      omega
    · rcases List.mem_cons.mp h with rfl | h
      · exact le_refl i
      · have := ih h
        omega

theorem mem_outKeys {hash : Nat} (h : k ∈ outKeys hash i outs) :
    k.hash = hash ∧ ∃ o, i ≤ k.n ∧ outs[k.n - i]? = some o ∧ isUnspendable o.scriptPubKey = false := by
  induction outs generalizing i with
  | nil => simp [outKeys] at h
  | cons o rest ih =>
    have hlater : k ∈ outKeys hash (i + 1) rest → k.hash = hash ∧
        ∃ o', i ≤ k.n ∧ (o :: rest)[k.n - i]? = some o' ∧ isUnspendable o'.scriptPubKey = false := by
      intro hmem
      obtain ⟨hhash, o', hle, ho', hsp⟩ := ih hmem
      refine ⟨hhash, o', by omega, ?_, hsp⟩
      rw [show k.n - i = (k.n - (i + 1)) + 1 by omega, List.getElem?_cons_succ]
      exact ho'
    rw [outKeys] at h
    split_ifs at h with hu
    · exact hlater h
    · rcases List.mem_cons.mp h with rfl | hmem
      · exact ⟨rfl, o, le_refl i, by simp, by simpa using hu⟩
      · exact hlater hmem

/-- A view that stores good coins only. -/
def Stored (v : Coins) : Prop := ∀ o c, v.find? o = some c → c.Storable

variable {o : OutPoint} {ins : List TxIn}

theorem Stored.find_of_haveCoin_false (hv : Stored v)
    (h : haveCoin v o = false) : v.find? o = none := by
  cases hf : v.find? o with
  | none => rfl
  | some c => simp [haveCoin, accessCoin_of_find hf, (hv o c hf).not_spent] at h

theorem Stored.erase (hv : Stored v) (o : OutPoint) : Stored (v.erase o) := by
  intro o' c h
  rw [find?_erase] at h
  split_ifs at h
  exact hv o' c h

theorem Stored.addCoin {c : Coin} (hv : Stored v)
    (hc : isUnspendable c.out.scriptPubKey = false → c.Storable)
    (h : addCoin v o c = some v') : Stored v' := by
  obtain ⟨-, ⟨-, rfl⟩ | ⟨hsp, -, rfl⟩⟩ := addCoin_eq_some h
  · exact hv
  · intro o' c' h'
    rw [find?_insert] at h'
    split_ifs at h'
    · exact Option.some.inj h' ▸ hc hsp
    · exact hv o' c' h'

section Outputs

variable {tx : Transaction} {nHeight : Nat}

/-- The amounts of a transaction at a height that undo records can keep. -/
structure Keepable (nHeight : Nat) (outs : List TxOut) : Prop where
  height_pos : 0 < nHeight
  height_lt : nHeight < 1073741824
  nonneg : ∀ o ∈ outs, 0 ≤ o.nValue
  lt : ∀ o ∈ outs, 9 * o.nValue < 18446744073709551616

theorem Keepable.tail {o : TxOut} {rest : List TxOut} (h : Keepable nHeight (o :: rest)) :
    Keepable nHeight rest :=
  ⟨h.height_pos, h.height_lt, fun x hx => h.nonneg x (List.mem_cons_of_mem o hx),
    fun x hx => h.lt x (List.mem_cons_of_mem o hx)⟩

theorem Stored.addCoinsFrom (hv : Stored v)
    (hk : Keepable nHeight outs) (h : addCoinsFrom tx nHeight i outs v = some v') : Stored v' := by
  induction outs generalizing i v with
  | nil => exact Option.some.inj h ▸ hv
  | cons o rest ih =>
    simp only [Coins.addCoinsFrom, do_eq_some] at h
    obtain ⟨v₁, h1, h2⟩ := h
    refine ih (hv.addCoin (fun hsp => ?_) h1) hk.tail h2
    exact ⟨hk.height_pos, hk.height_lt, hk.nonneg o (.head _), hk.lt o (.head _),
      hsp⟩

theorem addCoinsFrom_find_ne (h : addCoinsFrom tx nHeight i outs v = some v')
    (hk : k ∉ outKeys tx.hash i outs) : v'.find? k = v.find? k := by
  induction outs generalizing i v with
  | nil => exact Option.some.inj h ▸ rfl
  | cons o rest ih =>
    simp only [addCoinsFrom, do_eq_some] at h
    obtain ⟨v₁, h1, h2⟩ := h
    rw [outKeys] at hk
    obtain ⟨-, ⟨hu, rfl⟩ | ⟨hsp, -, rfl⟩⟩ := addCoin_eq_some h1
    · simp only [hu, if_true] at hk
      exact ih h2 hk
    · simp only [hsp, Bool.false_eq_true, if_false, List.mem_cons, not_or] at hk
      rw [ih h2 hk.2, find?_insert_ne _ _ hk.1]

theorem addCoinsFrom_free (hv : Stored v)
    (h : addCoinsFrom tx nHeight i outs v = some v')
    (hk : k ∈ outKeys tx.hash i outs) (hkeep : Keepable nHeight outs) : v.find? k = none := by
  induction outs generalizing i v with
  | nil => simp [outKeys] at hk
  | cons o rest ih =>
    simp only [addCoinsFrom, do_eq_some] at h
    obtain ⟨v₁, h1, h2⟩ := h
    have hv1 : Stored v₁ := hv.addCoin (fun hsp => ⟨hkeep.height_pos, hkeep.height_lt,
      hkeep.nonneg o (.head _), hkeep.lt o (.head _), hsp⟩) h1
    rw [outKeys] at hk
    obtain ⟨-, ⟨hu, rfl⟩ | ⟨hsp, hfree, rfl⟩⟩ := addCoin_eq_some h1
    · simp only [hu, if_true] at hk
      exact ih hv1 h2 hk hkeep.tail
    · simp only [hsp, Bool.false_eq_true, if_false, List.mem_cons] at hk
      rcases hk with rfl | hk
      · exact hv.find_of_haveCoin_false hfree
      · have hnone := ih hv1 h2 hk hkeep.tail
        rw [find?_insert] at hnone
        split_ifs at hnone
        exact hnone

theorem addCoinsFrom_find
    (h : addCoinsFrom tx nHeight i outs v = some v') {n : Nat} {o : TxOut} (ho : outs[n]? = some o)
    (hsp : isUnspendable o.scriptPubKey = false) :
    v'.find? ⟨tx.hash, i + n⟩ = some ⟨o, nHeight, tx.isCoinBase, tx.isCoinStake⟩ := by
  induction outs generalizing i v n with
  | nil => simp at ho
  | cons o₁ rest ih =>
    simp only [addCoinsFrom, do_eq_some] at h
    obtain ⟨v₁, h1, h2⟩ := h
    cases n with
    | zero =>
      obtain rfl : o₁ = o := by simpa using ho
      obtain ⟨-, ⟨hu, -⟩ | ⟨-, -, rfl⟩⟩ := addCoin_eq_some h1
      · simp [hsp] at hu
      · have hlater : (⟨tx.hash, i + 0⟩ : OutPoint) ∉ outKeys tx.hash (i + 1) rest := by
          intro hmem
          have : i + 1 ≤ i + 0 := outKeys_le hmem
          omega
        rw [addCoinsFrom_find_ne h2 hlater]
        exact find?_insert_self _ _ _
    | succ n =>
      have := ih h2 (by simpa using ho)
      rwa [show i + 1 + n = i + (n + 1) by omega] at this

theorem spendOutputs_find (hash i : Nat) (outs : List TxOut) (v : Coins) (k : OutPoint) :
    (spendOutputs hash i outs v).2.find? k =
      if k ∈ outKeys hash i outs then none else v.find? k := by
  induction outs generalizing i v with
  | nil => simp [spendOutputs, outKeys]
  | cons o rest ih =>
    rw [spendOutputs, outKeys]
    split_ifs with hu hmem hmem
    · rw [ih, if_pos hmem]
    · rw [ih, if_neg hmem]
    · show (spendOutputs hash (i + 1) rest (v.erase ⟨hash, i⟩)).2.find? k = none
      rw [ih]
      split_ifs with hin
      · rfl
      · rcases List.mem_cons.mp hmem with rfl | hin'
        · exact find?_erase_self _ _
        · exact absurd hin' hin
    · show (spendOutputs hash (i + 1) rest (v.erase ⟨hash, i⟩)).2.find? k = v.find? k
      rw [List.mem_cons, not_or] at hmem
      rw [ih, if_neg hmem.2, find?_erase_ne _ hmem.1]

theorem spendOutputs_clean {hash : Nat}
    (h : ∀ n o, outs[n]? = some o → isUnspendable o.scriptPubKey = false →
      (accessCoin v ⟨hash, i + n⟩).out = o) :
    (spendOutputs hash i outs v).1 = true := by
  induction outs generalizing i v with
  | nil => rfl
  | cons o rest ih =>
    rw [spendOutputs]
    split_ifs with hu
    · refine ih fun n o' ho' hsp => ?_
      rw [show i + 1 + n = i + (n + 1) by omega]
      exact h (n + 1) o' (by simpa using ho') hsp
    · have hfirst : (accessCoin v ⟨hash, i⟩).out = o := h 0 o rfl (by simpa using hu)
      have hrest : (spendOutputs hash (i + 1) rest (v.erase ⟨hash, i⟩)).1 = true := by
        refine ih fun n o' ho' hsp => ?_
        have hne : (⟨hash, i + 1 + n⟩ : OutPoint) ≠ ⟨hash, i⟩ := by
          intro heq
          have : i + 1 + n = i := congrArg OutPoint.n heq
          omega
        rw [accessCoin, find?_erase_ne _ hne, ← accessCoin,
          show i + 1 + n = i + (n + 1) by omega]
        exact h (n + 1) o' (by simpa using ho') hsp
      show (decide (o = (accessCoin v ⟨hash, i⟩).out) &&
        (spendOutputs hash (i + 1) rest (v.erase ⟨hash, i⟩)).1) = true
      rw [hfirst, hrest]
      simp

theorem spendOutputs_addCoins (hv : Stored v) (hk : Keepable nHeight tx.vout)
    (h : addCoins v tx nHeight = some v') : spendOutputs tx.hash 0 tx.vout v' = (true, v) := by
  refine Prod.ext (spendOutputs_clean fun n o ho hsp => ?_) (ext_find? fun k => ?_)
  · rw [accessCoin_of_find (addCoinsFrom_find h ho hsp)]
  · rw [spendOutputs_find]
    split_ifs with hmem
    · exact (addCoinsFrom_free hv h hmem hk).symm
    · exact addCoinsFrom_find_ne h hmem

end Outputs

/-! ### Inputs -/

theorem spendInputs_stored (hv : Stored v) :
    Stored (spendInputs ins v).2 := by
  induction ins generalizing v with
  | nil => exact hv
  | cons i rest ih => exact ih (hv.erase i.prevout)

section
variable {i : TxIn} {rest : List TxIn} (hnd : ((i :: rest).map TxIn.prevout).Nodup)
include hnd

/-- Spending an input changes none of the other inputs' coins. -/
theorem accessCoin_rest : ∀ j ∈ rest, accessCoin (v.erase i.prevout) j.prevout = accessCoin v j.prevout := by
  intro j hj
  have hne : j.prevout ≠ i.prevout := fun heq => (List.nodup_cons.mp hnd).1 (heq ▸ List.mem_map_of_mem hj)
  rw [accessCoin, find?_erase_ne _ hne, ← accessCoin]

theorem haveCoin_rest (hin : ∀ j ∈ i :: rest, haveCoin v j.prevout = true) :
    ∀ j ∈ rest, haveCoin (v.erase i.prevout) j.prevout = true := by
  intro j hj
  rw [haveCoin, accessCoin_rest hnd j hj]
  exact hin j (.tail _ hj)

end

theorem spendInputs_storable (hv : Stored v)
    (hnd : (ins.map TxIn.prevout).Nodup) (hin : ∀ i ∈ ins, haveCoin v i.prevout = true) :
    ∀ c ∈ (spendInputs ins v).1, c.Storable := by
  induction ins generalizing v with
  | nil => simp [spendInputs]
  | cons i rest ih =>
    intro c hc
    rcases List.mem_cons.mp (show c ∈ accessCoin v i.prevout :: (spendInputs rest (v.erase i.prevout)).1
      from hc) with rfl | hc
    · exact hv i.prevout _ (find_of_haveCoin (hin i (.head _)))
    · exact ih (hv.erase i.prevout) hnd.of_cons (haveCoin_rest hnd hin) c hc

theorem applyTxInUndo_free {c : Coin} (hc : c.Storable)
    (hfree : v.find? o = none) : applyTxInUndo c v o = some (true, v.insert o c) := by
  have hpos := hc.height_pos
  simp [applyTxInUndo, if_neg (show c.nHeight ≠ 0 by omega),
    addCoin_of_free hc.not_spent hc.spendable hfree, haveCoin_of_find_none hfree]

theorem restoreInputs_spendInputs (hv : Stored v)
    (hnd : (ins.map TxIn.prevout).Nodup) (hin : ∀ i ∈ ins, haveCoin v i.prevout = true) :
    restoreInputs ins (spendInputs ins v).1 (spendInputs ins v).2 = some (true, v) := by
  induction ins generalizing v with
  | nil => rfl
  | cons i rest ih =>
    have hfind := find_of_haveCoin (hin i (.head _))
    have hrest := ih (hv.erase i.prevout) hnd.of_cons (haveCoin_rest hnd hin)
    have hback : (v.erase i.prevout).insert i.prevout (accessCoin v i.prevout) = v := by
      refine ext_find? fun k => ?_
      rw [find?_insert, find?_erase]
      split_ifs with hk
      · rw [hk, hfind]
      · rfl
    show (restoreInputs rest (spendInputs rest (v.erase i.prevout)).1
      (spendInputs rest (v.erase i.prevout)).2 >>= _) = _
    rw [hrest]
    simp only [Option.bind_eq_bind, Option.bind_some,
      applyTxInUndo_free (hv _ _ hfind) (find?_erase_self v i.prevout), hback]
    rfl

end Coins

theorem spendInputs_find (ins : List TxIn) (v : Coins) (o : OutPoint) :
    (Coins.spendInputs ins v).2.find? o = if o ∈ ins.map TxIn.prevout then none else v.find? o := by
  induction ins generalizing v with
  | nil => rfl
  | cons i rest ih =>
    change (Coins.spendInputs rest (v.erase i.prevout)).2.find? o = _
    rw [ih, find?_erase, List.map_cons]
    by_cases ho : o = i.prevout
    · simp [ho]
    · simp [ho]

/-! ### One transaction -/

section
variable {P : ChainParams} {nHeight : Nat} {tx : Transaction} {t t' : Tally} {undo : List Coin}

theorem connectTx_cases (h : connectTx P nHeight t tx = some (undo, t')) :
    ∃ out, tx.getValueOut = some out ∧ Coins.updateCoins t.coins tx nHeight = some (undo, t'.coins) ∧
      t'.nValueOut = toI64 (t.nValueOut + out) ∧
      ((tx.isCoinBase = true ∧ t'.nFees = t.nFees ∧ t'.nValueIn = t.nValueIn) ∨
        (tx.isCoinBase = false ∧ checkTxInputs P t.coins nHeight tx = true ∧
          t'.nValueIn = toI64 (t.nValueIn + Coins.getValueIn t.coins tx) ∧
          t'.nFees = if tx.isCoinStake then t.nFees
            else toI64 (t.nFees + toI64 (Coins.getValueIn t.coins tx - out)))) := by
  simp only [connectTx, do_eq_some] at h
  obtain ⟨out, hout, ⟨u, coins⟩, hupdate, h⟩ := h
  by_cases hcb : tx.isCoinBase = true
  · rw [if_pos hcb] at h
    cases h
    exact ⟨out, hout, hupdate, rfl, .inl ⟨hcb, rfl, rfl⟩⟩
  · rw [if_neg hcb] at h
    by_cases hin : checkTxInputs P t.coins nHeight tx = true
    · rw [if_pos hin] at h
      cases h
      exact ⟨out, hout, hupdate, rfl, .inr ⟨by simpa using hcb, hin, rfl, rfl⟩⟩
    · rw [if_neg hin] at h
      cases h

theorem updateCoins_eq_some (h : Coins.updateCoins v tx nHeight = some (undo, v')) :
    (tx.isCoinBase = true ∧ undo = [] ∧ Coins.addCoins v tx nHeight = some v') ∨
      (tx.isCoinBase = false ∧ undo = (Coins.spendInputs tx.vin v).1 ∧
        Coins.addCoins (Coins.spendInputs tx.vin v).2 tx nHeight = some v') := by
  unfold Coins.updateCoins at h
  cases hcb : tx.isCoinBase with
  | true =>
    simp only [hcb, if_true, Option.map_eq_some_iff, Prod.mk.injEq] at h
    obtain ⟨w, hw, rfl, rfl⟩ := h
    exact .inl ⟨rfl, rfl, hw⟩
  | false =>
    simp only [hcb, Bool.false_eq_true, if_false, Option.map_eq_some_iff, Prod.mk.injEq] at h
    obtain ⟨w, hw, rfl, rfl⟩ := h
    exact .inr ⟨rfl, rfl, hw⟩

theorem haveInputs_of_checkTxInputs (h : checkTxInputs P v nHeight tx = true) :
    Coins.haveInputs v tx = true := by
  rw [checkTxInputs, Bool.and_eq_true] at h
  exact h.1

theorem haveCoin_of_haveInputs (hcb : tx.isCoinBase = false)
    (h : Coins.haveInputs v tx = true) : ∀ i ∈ tx.vin, Coins.haveCoin v i.prevout = true := by
  simpa [Coins.haveInputs, hcb, List.all_eq_true] using h

section
variable (hv : Coins.Stored t.coins)
  (hk : Coins.Keepable nHeight tx.vout)
  (hnd : (tx.vin.map TxIn.prevout).Nodup)
  (h : connectTx P nHeight t tx = some (undo, t'))
include hv hk hnd h

theorem connectTx_stored
    :
    Coins.Stored t'.coins ∧ ∀ c ∈ undo, c.Storable := by
  obtain ⟨out, -, hupdate, -, hkind⟩ := connectTx_cases h
  rcases updateCoins_eq_some hupdate with ⟨-, rfl, hadd⟩ | ⟨hcb, rfl, hadd⟩
  · exact ⟨hv.addCoinsFrom hk hadd, by simp⟩
  · obtain ⟨hcb', -⟩ | ⟨-, hchk, -⟩ := hkind
    · simp [hcb] at hcb'
    · have hin := haveCoin_of_haveInputs hcb (haveInputs_of_checkTxInputs hchk)
      exact ⟨(Coins.spendInputs_stored hv).addCoinsFrom hk hadd,
        Coins.spendInputs_storable hv hnd hin⟩

/-- Disconnecting one transaction restores the coins and counts the inputs and
outputs that connecting counted. -/
theorem disconnectTx_connectTx
    {u : Untally} (hu : u.coins = t'.coins) :
    ∃ u', disconnectTx u tx undo = some u' ∧ u'.coins = t.coins ∧ u'.fClean = u.fClean ∧
      toI64 (u'.nValueOut - u.nValueOut) = toI64 (t'.nValueOut - t.nValueOut) ∧
      toI64 (u'.nValueIn - u.nValueIn) = toI64 (t'.nValueIn - t.nValueIn) := by
  obtain ⟨out, hout, hupdate, hvo, hkind⟩ := connectTx_cases h
  have houtEq : toI64 (toI64 (u.nValueOut + out) - u.nValueOut) =
      toI64 (t'.nValueOut - t.nValueOut) := by
    rw [hvo, toI64_toI64_sub, toI64_toI64_sub]
    congr 1
    omega
  rcases updateCoins_eq_some hupdate with ⟨hcb, rfl, hadd⟩ | ⟨hcb, rfl, hadd⟩
  · have hspend := Coins.spendOutputs_addCoins hv hk hadd
    have hin : t'.nValueIn = t.nValueIn := by
      rcases hkind with ⟨-, -, hin⟩ | ⟨hcb', -⟩
      · exact hin
      · simp [hcb] at hcb'
    refine ⟨⟨t.coins, u.fClean, u.nValueIn, toI64 (u.nValueOut + out)⟩, ?_, rfl, rfl, houtEq, ?_⟩
    · simp [disconnectTx, hout, hu, hspend, hcb]
    · rw [hin]
      simp
  · obtain ⟨hcb', -⟩ | ⟨-, hchk, hvi, -⟩ := hkind
    · simp [hcb] at hcb'
    have hhave := haveInputs_of_checkTxInputs hchk
    have hin := haveCoin_of_haveInputs hcb hhave
    have hspend := Coins.spendOutputs_addCoins (Coins.spendInputs_stored hv) hk hadd
    have hrestore := Coins.restoreInputs_spendInputs hv hnd hin
    refine ⟨⟨t.coins, u.fClean, toI64 (u.nValueIn + Coins.getValueIn t.coins tx),
      toI64 (u.nValueOut + out)⟩, ?_, rfl, rfl, houtEq, ?_⟩
    · simp [disconnectTx, hout, hu, hspend, hcb, hrestore, hhave]
    · rw [hvi, toI64_toI64_sub, toI64_toI64_sub]
      congr 1
      omega

end

end

/-! ### Blocks -/

section
variable {P : ChainParams} {nHeight : Nat}

/-- The transactions of a block as `CheckBlock` lets them through, with amounts
that undo records can keep. -/
structure Undoable (nHeight : Nat) (txs : List Transaction) : Prop where
  keepable : ∀ tx ∈ txs, Coins.Keepable nHeight tx.vout
  nodup : ∀ tx ∈ txs, (tx.vin.map TxIn.prevout).Nodup

theorem Undoable.tail
    (h : Undoable nHeight (tx :: rest)) : Undoable nHeight rest :=
  ⟨fun x hx => h.keepable x (List.mem_cons_of_mem tx hx),
    fun x hx => h.nodup x (List.mem_cons_of_mem tx hx)⟩

theorem connectTxs_cons (h : connectTxs P nHeight (tx :: rest) t = some (undos, t')) :
    ∃ undo t₁ undos', connectTx P nHeight t tx = some (undo, t₁) ∧
      connectTxs P nHeight rest t₁ = some (undos', t') ∧ undos = undo :: undos' := by
  simp only [connectTxs, do_eq_some] at h
  obtain ⟨⟨undo, t₁⟩, h1, ⟨undos', t₂⟩, h2, h⟩ := h
  cases h
  exact ⟨undo, t₁, undos', h1, h2, rfl⟩

variable {txs : List Transaction} {cold : Bool}

theorem connectTxs_length
    (h : connectTxs P nHeight txs t = some (undos, t')) : undos.length = txs.length := by
  induction txs generalizing t undos with
  | nil => obtain ⟨rfl, rfl⟩ := Prod.mk.inj (Option.some.inj h); rfl
  | cons tx rest ih =>
    obtain ⟨undo, t₁, undos', -, h2, rfl⟩ := connectTxs_cons h
    simp [ih h2]

theorem connectTxs_coinbase {cb : Transaction} (hcb : cb.isCoinBase = true)
    (h : connectTxs P nHeight (cb :: rest) t = some (undos, t')) : undos = [] :: undos.tail := by
  obtain ⟨undo, t₁, undos', h1, -, rfl⟩ := connectTxs_cons h
  obtain ⟨-, -, hupdate, -⟩ := connectTx_cases h1
  rcases updateCoins_eq_some hupdate with ⟨-, rfl, -⟩ | ⟨hcb', -⟩
  · rfl
  · rw [hcb] at hcb'
    cases hcb'

theorem connectTxs_stored
    (hv : Coins.Stored t.coins) (hu : Undoable nHeight txs)
    (h : connectTxs P nHeight txs t = some (undos, t')) :
    Coins.Stored t'.coins ∧ ∀ undo ∈ undos, ∀ c ∈ undo, c.Storable := by
  induction txs generalizing t undos with
  | nil =>
    cases h
    exact ⟨hv, by simp⟩
  | cons tx rest ih =>
    obtain ⟨undo, t₁, undos', h1, h2, rfl⟩ := connectTxs_cons h
    obtain ⟨hv1, hc⟩ := connectTx_stored hv (hu.keepable tx (.head _))
      (hu.nodup tx (.head _)) h1
    obtain ⟨hv', hcs⟩ := ih hv1 hu.tail h2
    refine ⟨hv', fun x hx => ?_⟩
    rcases List.mem_cons.mp hx with rfl | hx
    · exact hc
    · exact hcs x hx

theorem disconnectTxs_connectTxs
    (hv : Coins.Stored t.coins) (hu : Undoable nHeight txs)
    (h : connectTxs P nHeight txs t = some (undos, t')) {u : Untally} (huc : u.coins = t'.coins) :
    ∃ u', disconnectTxs txs undos u = some u' ∧ u'.coins = t.coins ∧ u'.fClean = u.fClean ∧
      toI64 (u'.nValueOut - u.nValueOut) = toI64 (t'.nValueOut - t.nValueOut) ∧
      toI64 (u'.nValueIn - u.nValueIn) = toI64 (t'.nValueIn - t.nValueIn) := by
  -- induction over the block; the rest is undone first, which leads back to `t₁`
  induction txs generalizing t undos u with
  | nil =>
    cases h
    exact ⟨u, rfl, huc, rfl, by simp, by simp⟩
  | cons tx rest ih =>
    obtain ⟨undo, t₁, undos', h1, h2, rfl⟩ := connectTxs_cons h
    have hk := hu.keepable tx (.head _)
    have hnd := hu.nodup tx (.head _)
    have hv1 := (connectTx_stored hv hk hnd h1).1
    obtain ⟨u₁, hd1, hc1, hf1, ho1, hi1⟩ := ih hv1 hu.tail h2 huc
    obtain ⟨u₂, hd2, hc2, hf2, ho2, hi2⟩ := disconnectTx_connectTx hv hk hnd h1 hc1
    refine ⟨u₂, by simp [disconnectTxs, hd1, hd2], hc2, hf2.trans hf1, ?_, ?_⟩
    · exact toI64_sub_trans ho1 ho2
    · exact toI64_sub_trans hi1 hi2

theorem readBlockUndo_eq {keys : PubKeys} {undos : BlockUndo}
    (h : ∀ undo ∈ undos, ∀ c ∈ undo, c.Storable) : readBlockUndo keys undos = some undos := by
  have hrec : ∀ cs : List Coin, (∀ c ∈ cs, c.Storable) →
      (cs.map (writeUndo keys)).mapM (readUndo keys) = some cs := by
    intro cs hcs
    induction cs with
    | nil => rfl
    | cons c rest ih =>
      simp [readUndo_writeUndo keys (hcs c List.mem_cons_self),
        ih fun x hx => hcs x (List.mem_cons_of_mem c hx)]
  rw [readBlockUndo]
  induction undos with
  | nil => rfl
  | cons undo rest ih =>
    rw [List.mapM_cons, hrec undo (h undo List.mem_cons_self),
      ih fun x hx => h x (List.mem_cons_of_mem undo hx)]
    rfl

theorem connectCore_cases {hashPrev : Nat} {s s' : ChainTip} {undo : Option BlockUndo}
    (h : connectCore P nHeight hashPrev b s = some (undo, s')) :
    hashPrev = s.bestBlock ∧
      ((b.hash = P.hashGenesisBlock ∧ undo = none ∧ s' = { s with bestBlock := b.hash }) ∨
        (b.hash ≠ P.hashGenesisBlock ∧
          (networkUpgradeActive P.upgradePos nHeight = true →
            b.isProofOfStake = true ∧ checkDevFund P (nHeight - 1) b = true) ∧
          ∃ undos t, connectTxs P nHeight b.vtx ⟨s.coins, 0, 0, 0⟩ = some (undos, t) ∧
            checkReward (nHeight - 1) t = true ∧ undo = some undos.tail ∧
            s' = ⟨t.coins, b.hash,
              toI64 (s.nMoneySupply + toI64 (t.nValueOut - t.nValueIn))⟩)) := by
  unfold connectCore at h
  split_ifs at h with hprev hgen hpow
  · cases h
    exact ⟨by simpa using hprev, .inl ⟨hgen, rfl, rfl⟩⟩
  · simp only [do_eq_some] at h
    obtain ⟨⟨undos, t⟩, htxs, h⟩ := h
    split_ifs at h with hchecks
    cases h
    rw [Bool.and_eq_true] at hchecks
    refine ⟨by simpa using hprev, .inr ⟨hgen, fun hpos => ?_, undos, t, htxs, hchecks.1, rfl, rfl⟩⟩
    simpa [hpos] using And.intro hpow hchecks.2

/-- The transactions of a block that `CheckBlock` accepts: a coinbase, then
transactions that are none. -/
theorem checkBlock_vtx {N : NodeState} (h : checkBlock P N nHeight b = true) :
    ∃ cb rest, b.vtx = cb :: rest ∧ cb.isCoinBase = true ∧ ∀ tx ∈ rest, tx.isCoinBase = false := by
  simp only [checkBlock, Bool.and_eq_true] at h
  obtain ⟨⟨hvtx, -⟩, -⟩ := h
  cases hb : b.vtx with
  | nil => simp [hb] at hvtx
  | cons cb rest =>
    simp only [hb, Bool.and_eq_true, List.all_eq_true, Bool.not_eq_true'] at hvtx
    exact ⟨cb, rest, rfl, hvtx.1.1, hvtx.1.2⟩

theorem checkBlock_transactions {N : NodeState}
    (h : checkBlock P N nHeight b = true) :
    ∃ cold, ∀ tx ∈ b.vtx, checkTransaction P cold tx = true := by
  simp only [checkBlock, Bool.and_eq_true, List.all_eq_true] at h
  exact ⟨_, fun tx htx => (h.2 tx htx).1⟩

theorem checkTransaction_nodup
    (h : checkTransaction P cold tx = true) : (tx.vin.map TxIn.prevout).Nodup := by
  simp only [checkTransaction, Bool.and_eq_true, decide_eq_true_eq] at h
  exact h.1.2

theorem checkOutputs_nonneg {acc : Int}
    (h : checkOutputs P cold tx outs acc = true) : ∀ o ∈ outs, 0 ≤ o.nValue := by
  induction outs generalizing acc with
  | nil => simp
  | cons o rest ih =>
    simp only [checkOutputs, Bool.and_eq_true, decide_eq_true_eq] at h
    obtain ⟨⟨⟨⟨⟨-, h0⟩, -⟩, -⟩, -⟩, hrest⟩ := h
    intro x hx
    rcases List.mem_cons.mp hx with rfl | hx
    · exact h0
    · exact ih hrest x hx

theorem checkTransaction_nonneg
    (h : checkTransaction P cold tx = true) : ∀ o ∈ tx.vout, 0 ≤ o.nValue := by
  simp only [checkTransaction, Bool.and_eq_true] at h
  exact checkOutputs_nonneg h.1.1.2

/-- The undo records of a connected block lead back to where it was connected. -/
theorem disconnectBlock_connectCore (keys : PubKeys) (Z : Zerocoins) {hashPrev : Nat}
    {s s' : ChainTip} {undo : BlockUndo} {cb : Transaction}
    (hvtx : b.vtx = cb :: rest) (hcb : cb.isCoinBase = true) (hu : Undoable nHeight b.vtx)
    (hv : Coins.Stored s.coins) (hs : InI64 s.nMoneySupply)
    (hzc : networkUpgradeActive P.upgradeZC nHeight = false)
    (h : connectCore P nHeight hashPrev b s = some (some undo, s')) :
    disconnectBlock P keys Z nHeight hashPrev (some undo) b s' = (.ok, s) := by
  obtain ⟨hprev, ⟨-, hnone, -⟩ | ⟨-, -, undos, t, htxs, -, hundo, rfl⟩⟩ := connectCore_cases h
  · cases hnone
  cases hundo
  obtain ⟨-, hstor⟩ := connectTxs_stored hv hu htxs
  have hhead : undos = [] :: undos.tail := connectTxs_coinbase hcb (hvtx ▸ htxs)
  have hread : readBlockUndo keys undos.tail = some undos.tail :=
    readBlockUndo_eq fun u hmem => hstor u (List.mem_of_mem_tail hmem)
  have hlen : undos.tail.length + 1 = b.vtx.length := by
    have := connectTxs_length htxs
    rw [hhead] at this
    simpa using this
  obtain ⟨u', hd, hc, hf, ho, hi⟩ :=
    disconnectTxs_connectTxs hv hu htxs (u := ⟨t.coins, true, 0, 0⟩) rfl
  rw [hhead] at hd
  have hsupply : toI64 (toI64 (s.nMoneySupply + toI64 (t.nValueOut - t.nValueIn)) -
      toI64 (u'.nValueOut - u'.nValueIn)) = s.nMoneySupply := by
    have hdiff : toI64 (u'.nValueOut - u'.nValueIn) = toI64 (t.nValueOut - t.nValueIn) := by
      simp only [Int.sub_zero] at ho hi
      rw [← toI64_toI64_sub, ← toI64_sub_toI64, ho, hi, toI64_toI64_sub, toI64_sub_toI64]
    rw [hdiff]
    simp only [toI64_toI64_sub, toI64_sub_toI64]
    rw [← toI64_toI64_sub, toI64_add_toI64, toI64_toI64_sub, Int.add_sub_cancel]
    exact toI64_of_inI64 hs
  simp only [disconnectBlock, ne_eq, not_true, if_false, Option.bind_some, hread, hlen,
    updateZPIVSupplyDisconnect, hzc, Bool.not_false, Bool.true_or, Bool.not_true,
    Bool.false_eq_true, hd, hc, hf, if_true, hsupply, hprev]

end

/-! ### Coins that come back, and coins that do not -/

/-- A synced node outside budget payments. -/
def syncedNode : NodeState := ⟨false, true, false, true, fun _ => false, fun _ => none⟩

/-- No script of the examples holds an uncompressed key. -/
def noKeys : PubKeys := ⟨fun _ => false, fun _ => none, by simp⟩

def noZerocoins : Zerocoins := ⟨fun _ => [], fun _ => 0⟩

def coinbaseTx : Transaction := ⟨99, [⟨⟨0, 4294967295⟩, [1, 1]⟩], [⟨5, [0x51]⟩]⟩

/-- Spends output 0 of transaction 7. -/
def spendTx : Transaction := ⟨100, [⟨⟨7, 0⟩, []⟩], [⟨1, [0x51]⟩]⟩

def spendBlock : CBlock := ⟨1000, [coinbaseTx, spendTx]⟩

/-- A view with one coin, at output 0 of transaction 7. -/
def tipWith (c : Coin) : ChainTip := ⟨(∅ : Coins).insert ⟨7, 0⟩ c, 999, 0⟩

/-- Connect the block that spends the coin at height 12 and disconnect it again. -/
def spendAndBack (c : Coin) : Option (DisconnectResult × ChainTip) :=
  (connectBlock mainParams syncedNode 12 999 spendBlock (tipWith c)).map fun r =>
    disconnectBlock mainParams noKeys noZerocoins 12 999 r.1 spendBlock r.2

end Rapids.Chain
