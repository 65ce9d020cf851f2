import Mathlib.Data.List.Infix
import Rapids.Chain.Indexes

/-!
# Rapids.Chain.IndexesSound

**What the indexes hold**, in runs of connections and disconnections.

As long as no two transactions of a chain have the same hash, the unspent index is a
function of the active chain (`unspentOf`): a coin that is spent stood in it with its
value, and the place of a new output was free, so that the operations of a disconnected
block are inverse to those of the connected one. The address index holds the records of
the active chain (`AddressRecords`), the ones of received outputs and no others. The
spent index holds the records of the active chain and whatever other chains left.

The steps are transactions; blocks and chains follow by induction.
-/

namespace Rapids.Chain

open Rapids.Lib OrdMap

variable {v : Coins} {b : CBlock} {w : TxView} {rest : List CBlock}

/-! ### The coins of a transaction -/

section
variable {P : ChainParams} {nHeight : Nat} {t t' : Tally} {tx : Transaction} {undo : List Coin}

/-- The transaction has a new hash. -/
def NewHash (v : Coins) (tx : Transaction) : Prop := ∀ o c, v.find? o = some c → o.hash ≠ tx.hash

/-- The coins after a transaction with a new hash: its outputs, and those it did not
spend. -/
theorem connectTx_find (hnew : NewHash t.coins tx) (h : connectTx P nHeight t tx = some (undo, t'))
    {o : OutPoint} {c : Coin} (hc : t'.coins.find? o = some c) :
    (o.hash = tx.hash ∧ ∃ out, tx.vout[o.n]? = some out ∧ c = ⟨out, nHeight, tx.isCoinBase, tx.isCoinStake⟩) ∨
      (o.hash ≠ tx.hash ∧ t.coins.find? o = some c ∧
        (tx.isCoinBase = false → o ∉ tx.vin.map TxIn.prevout)) := by
  obtain ⟨-, -, hupdate, -, -⟩ := connectTx_cases h
  obtain ⟨v, hadd, hold⟩ : ∃ v, Coins.addCoins v tx nHeight = some t'.coins ∧
      ∀ c, v.find? o = some c → t.coins.find? o = some c ∧
        (tx.isCoinBase = false → o ∉ tx.vin.map TxIn.prevout) := by
    rcases updateCoins_eq_some hupdate with ⟨hcb, -, hadd⟩ | ⟨hcb, -, hadd⟩
    · refine ⟨_, hadd, fun c hfind => ⟨hfind, fun hcb' => ?_⟩⟩
      rw [hcb] at hcb'
      cases hcb'
    · refine ⟨_, hadd, fun c hfind => ?_⟩
      rw [spendInputs_find] at hfind
      split_ifs at hfind with hin
      exact ⟨hfind, fun _ => hin⟩
  by_cases hkey : o ∈ Coins.outKeys tx.hash 0 tx.vout
  · obtain ⟨hhash, out, -, hout, hsp⟩ := Coins.mem_outKeys hkey
    rw [Nat.sub_zero] at hout
    have hstored := Coins.addCoinsFrom_find hadd hout hsp
    rw [Nat.zero_add, ← hhash] at hstored
    rw [hstored] at hc
    exact .inl ⟨hhash, out, hout, (Option.some.inj hc).symm⟩
  · rw [Coins.addCoinsFrom_find_ne hadd hkey] at hc
    obtain ⟨hfind, hunspent⟩ := hold c hc
    exact .inr ⟨hnew o c hfind, hfind, hunspent⟩

theorem connectTx_have (h : connectTx P nHeight t tx = some (undo, t')) (hcb : tx.isCoinBase = false)
    {i : TxIn} (hi : i ∈ tx.vin) :
    t.coins.find? i.prevout = some (Coins.accessCoin t.coins i.prevout) := by
  obtain ⟨_, -, -, -, hkind⟩ := connectTx_cases h
  rcases hkind with ⟨hcb', -⟩ | ⟨-, hcheck, -⟩
  · rw [hcb] at hcb'
    cases hcb'
  · exact Coins.find_of_haveCoin (haveCoin_of_haveInputs hcb (haveInputs_of_checkTxInputs hcheck) i hi)

theorem connectTx_gone (hnew : NewHash t.coins tx) (h : connectTx P nHeight t tx = some (undo, t'))
    (hcb : tx.isCoinBase = false) {i : TxIn} (hi : i ∈ tx.vin) : t'.coins.find? i.prevout = none := by
  cases hc : t'.coins.find? i.prevout with
  | none => rfl
  | some c =>
    rcases connectTx_find hnew h hc with ⟨hhash, -⟩ | ⟨-, -, hunspent⟩
    · exact absurd hhash (hnew _ _ (connectTx_have h hcb hi))
    · exact absurd (List.mem_map_of_mem hi) (hunspent hcb)

end

/-! ### The operations of a transaction -/

section
variable {I : IndexParams} {nHeight i : Nat} {tx : Transaction} {v : Coins} {w : TxView}

/-- The view that connecting a transaction has. -/
def viewOf (v : Coins) (i : Nat) (tx : Transaction) : TxView := ⟨i, tx, inputCoins v tx⟩

theorem mem_inputs {e : (TxIn × Coin) × Nat} :
    e ∈ (viewOf v i tx).inputs ↔
      tx.isCoinBase = false ∧ tx.vin[e.2]? = some e.1.1 ∧ e.1.2 = Coins.accessCoin v e.1.1.prevout := by
  obtain ⟨⟨inp, c⟩, j⟩ := e
  rw [TxView.inputs, List.mk_mem_zipIdx_iff_getElem?, List.getElem?_zip_eq_some]
  cases hcb : tx.isCoinBase with
  | true => simp [viewOf, inputCoins, hcb]
  | false =>
    simp only [viewOf, inputCoins, hcb, Bool.false_eq_true, if_false, List.getElem?_map,
      Option.map_eq_some_iff, true_and]
    constructor
    · rintro ⟨hinp, x, hx, rfl⟩
      rw [hinp] at hx
      cases hx
      exact ⟨hinp, rfl⟩
    · rintro ⟨hinp, rfl⟩
      exact ⟨hinp, inp, hinp, rfl⟩

theorem mem_outputs {e : TxOut × Nat} : e ∈ w.outputs ↔ w.tx.vout[e.2]? = some e.1 :=
  List.mk_mem_zipIdx_iff_getElem?

theorem mem_connectUnspent {k : AddressUnspentKey} {x : Option AddressUnspentValue} :
    (k, x) ∈ w.connectUnspent I nHeight ↔
      (∃ e ∈ w.inputs, addressOf I e.1.2.out.scriptPubKey = some k.address ∧ k.out = e.1.1.prevout ∧
        x = none) ∨
      ∃ e ∈ w.outputs, addressOf I e.1.scriptPubKey = some k.address ∧ k.out = ⟨w.tx.hash, e.2⟩ ∧
        x = unspentValue e.1 nHeight := by
  simp only [TxView.connectUnspent, List.mem_append, List.mem_filterMap, Option.map_eq_some_iff,
    Prod.mk.injEq]
  obtain ⟨a, o⟩ := k
  constructor
  · rintro (⟨e, he, a', ha, hk, rfl⟩ | ⟨e, he, a', ha, hk, rfl⟩)
    · cases hk
      exact .inl ⟨e, he, ha, rfl, rfl⟩
    · cases hk
      exact .inr ⟨e, he, ha, rfl, rfl⟩
  · rintro (⟨e, he, ha, hk, rfl⟩ | ⟨e, he, ha, hk, rfl⟩)
    · exact .inl ⟨e, he, a, ha, by rw [← hk], rfl⟩
    · exact .inr ⟨e, he, a, ha, by rw [← hk], rfl⟩

theorem mem_disconnectUnspent {k : AddressUnspentKey} {x : Option AddressUnspentValue} :
    (k, x) ∈ w.disconnectUnspent I ↔
      (∃ e ∈ w.outputs, addressOf I e.1.scriptPubKey = some k.address ∧ k.out = ⟨w.tx.hash, e.2⟩ ∧
        x = none) ∨
      ∃ e ∈ w.inputs, addressOf I e.1.2.out.scriptPubKey = some k.address ∧ k.out = e.1.1.prevout ∧
        x = unspentValue e.1.2.out e.1.2.nHeight := by
  simp only [TxView.disconnectUnspent, List.mem_append, List.mem_filterMap, List.mem_reverse,
    Option.map_eq_some_iff, Prod.mk.injEq]
  obtain ⟨a, o⟩ := k
  constructor
  · rintro (⟨e, he, a', ha, hk, rfl⟩ | ⟨e, he, a', ha, hk, rfl⟩)
    · cases hk
      exact .inl ⟨e, he, ha, rfl, rfl⟩
    · cases hk
      exact .inr ⟨e, he, ha, rfl, rfl⟩
  · rintro (⟨e, he, ha, hk, rfl⟩ | ⟨e, he, ha, hk, rfl⟩)
    · exact .inl ⟨e, he, a, ha, by rw [← hk], rfl⟩
    · exact .inr ⟨e, he, a, ha, by rw [← hk], rfl⟩

end

/-! ### The unspent index -/

/-- How the unspent index, the coins and the hashes of the transactions so far belong
together. -/
structure UnspentInv (I : IndexParams) (hashes : List Nat) (v : Coins)
    (m : AddressUnspentKey → Option AddressUnspentValue) : Prop where
  coins : ∀ o c a, v.find? o = some c → addressOf I c.out.scriptPubKey = some a →
    m ⟨a, o⟩ = unspentValue c.out c.nHeight
  known : ∀ k, m k ≠ none → k.out.hash ∈ hashes
  coinKnown : ∀ o c, v.find? o = some c → o.hash ∈ hashes

section
variable {P : ChainParams} {I : IndexParams} {nHeight i : Nat} {hashes : List Nat} {t t' : Tally}
  {tx : Transaction} {undo : List Coin} {m : AddressUnspentKey → Option AddressUnspentValue}

theorem UnspentInv.newHash (hi : UnspentInv I hashes v m) (hfresh : tx.hash ∉ hashes) :
    NewHash v tx := by
  intro o c hc heq
  exact hfresh (heq ▸ hi.coinKnown o c hc)

theorem UnspentInv.mono {hashes' : List Nat} (hi : UnspentInv I hashes v m)
    (hsub : ∀ x ∈ hashes, x ∈ hashes') : UnspentInv I hashes' v m :=
  ⟨hi.coins, fun k hk => hsub _ (hi.known k hk), fun o c hc => hsub _ (hi.coinKnown o c hc)⟩

theorem input_have (h : connectTx P nHeight t tx = some (undo, t')) {e : (TxIn × Coin) × Nat}
    (he : e ∈ (viewOf t.coins i tx).inputs) :
    tx.isCoinBase = false ∧ e.1.1 ∈ tx.vin ∧ t.coins.find? e.1.1.prevout = some e.1.2 := by
  obtain ⟨hcb, hvin, hcoin⟩ := mem_inputs.mp he
  have hmem := List.mem_of_getElem? hvin
  rw [hcoin]
  exact ⟨hcb, hmem, connectTx_have h hcb hmem⟩

theorem UnspentInv.connect (hi : UnspentInv I hashes t.coins m) (hfresh : tx.hash ∉ hashes)
    (h : connectTx P nHeight t tx = some (undo, t')) :
    UnspentInv I (tx.hash :: hashes) t'.coins
      (writeBatch ((viewOf t.coins i tx).connectUnspent I nHeight) m) := by
  have hnew := hi.newHash hfresh
  refine ⟨fun o c a hc ha => ?_, fun k hk => ?_, fun o c hc => ?_⟩
  · rcases connectTx_find hnew h hc with ⟨hhash, out, hout, rfl⟩ | ⟨hhash, hfind, hunspent⟩
    · -- a new output, which no input of the transaction is
      obtain ⟨_, n⟩ := o
      subst hhash
      refine writeBatch_of_mem (mem_connectUnspent.mpr (.inr ⟨(out, n), mem_outputs.mpr hout, ha, rfl, rfl⟩))
        fun x hx => ?_
      rcases mem_connectUnspent.mp hx with ⟨e, he, -, hout', -⟩ | ⟨e, he, -, hout', rfl⟩
      · have hspent := (input_have h he).2.2
        rw [← hout'] at hspent
        exact absurd rfl (hnew _ _ hspent)
      · obtain ⟨o', n'⟩ := e
        obtain rfl : n = n' := congrArg OutPoint.n hout'
        have hsame := (mem_outputs.mp he).symm.trans hout
        rw [Option.some.inj hsame]
    · rw [writeBatch_of_not_mem fun x hx heq => ?_]
      · exact hi.coins o c a hfind ha
      · obtain ⟨k, y⟩ := x
        subst heq
        rcases mem_connectUnspent.mp hx with ⟨e, he, -, hout, -⟩ | ⟨e, -, -, hout, -⟩
        · obtain ⟨hcb, hvin, -⟩ := input_have h he
          have hprev : o = e.1.1.prevout := hout
          exact hunspent hcb (hprev ▸ List.mem_map_of_mem hvin)
        · exact hhash (congrArg OutPoint.hash hout)
  · rcases writeBatch_cases ((viewOf t.coins i tx).connectUnspent I nHeight) m k with
      ⟨-, hsame⟩ | ⟨x, hx, hval⟩
    · rw [hsame] at hk
      exact .tail _ (hi.known k hk)
    · rcases mem_connectUnspent.mp hx with ⟨-, -, -, -, rfl⟩ | ⟨e, -, -, hout, -⟩
      · exact absurd hval hk
      · rw [hout]
        exact .head _
  · rcases connectTx_find hnew h hc with ⟨hhash, -⟩ | ⟨-, hfind, -⟩
    · rw [hhash]
      exact .head _
    · exact .tail _ (hi.coinKnown o c hfind)

theorem UnspentInv.disconnect (hi : UnspentInv I hashes t.coins m) (hfresh : tx.hash ∉ hashes)
    (h : connectTx P nHeight t tx = some (undo, t')) :
    writeBatch ((viewOf t.coins i tx).disconnectUnspent I)
      (writeBatch ((viewOf t.coins i tx).connectUnspent I nHeight) m) = m := by
  funext k
  rcases writeBatch_cases ((viewOf t.coins i tx).disconnectUnspent I)
      (writeBatch ((viewOf t.coins i tx).connectUnspent I nHeight) m) k with ⟨hno, hsame⟩ | ⟨x, hx, hval⟩
  · rw [hsame]
    refine writeBatch_of_not_mem fun e he heq => ?_
    obtain ⟨k', y⟩ := e
    subst heq
    rcases mem_connectUnspent.mp he with ⟨e, he, ha, hout, -⟩ | ⟨e, he, ha, hout, -⟩
    · exact hno _ (mem_disconnectUnspent.mpr (.inr ⟨e, he, ha, hout, rfl⟩)) rfl
    · exact hno _ (mem_disconnectUnspent.mpr (.inl ⟨e, he, ha, hout, rfl⟩)) rfl
  · rw [hval]
    rcases mem_disconnectUnspent.mp hx with ⟨e, -, -, hout, rfl⟩ | ⟨e, he, ha, hout, rfl⟩
    · by_contra hsome
      have hknown := hi.known k fun hnone => hsome hnone.symm
      rw [hout] at hknown
      exact hfresh hknown
    · obtain ⟨a, o⟩ := k
      have hprev : o = e.1.1.prevout := hout
      rw [hprev]
      exact (hi.coins _ _ a (input_have h he).2.2 ha).symm

end

/-! ### The spent index -/

/-- The records `done` of the spent index are there, and what they spend is gone. -/
structure SpentInv (hashes : List Nat) (v : Coins) (done : List (OutPoint × Option SpentIndexValue))
    (m : OutPoint → Option SpentIndexValue) : Prop where
  recorded : ∀ e ∈ done, m e.1 = e.2
  gone : ∀ e ∈ done, v.find? e.1 = none ∧ e.1.hash ∈ hashes
  coinKnown : ∀ o c, v.find? o = some c → o.hash ∈ hashes

section
variable {P : ChainParams} {I : IndexParams} {nHeight i : Nat} {hashes : List Nat} {t t' : Tally}
  {tx : Transaction} {undo : List Coin} {done : List (OutPoint × Option SpentIndexValue)}
  {m : OutPoint → Option SpentIndexValue}

theorem SpentInv.mono {hashes' : List Nat} (hi : SpentInv hashes v done m)
    (hsub : ∀ x ∈ hashes, x ∈ hashes') : SpentInv hashes' v done m :=
  ⟨hi.recorded, fun e he => ⟨(hi.gone e he).1, hsub _ (hi.gone e he).2⟩,
    fun o c hc => hsub _ (hi.coinKnown o c hc)⟩

theorem mem_connectSpent {o : OutPoint} {x : Option SpentIndexValue} :
    (o, x) ∈ w.connectSpent I nHeight ↔
      ∃ e ∈ w.inputs, o = e.1.1.prevout ∧ x = spentValue I w.tx.hash e.2 nHeight e.1.2.out := by
  simp only [TxView.connectSpent, List.mem_map, Prod.mk.injEq]
  constructor
  · rintro ⟨e, he, rfl, rfl⟩
    exact ⟨e, he, rfl, rfl⟩
  · rintro ⟨e, he, rfl, rfl⟩
    exact ⟨e, he, rfl, rfl⟩

theorem inputs_inj (hnd : (tx.vin.map TxIn.prevout).Nodup) {e e' : (TxIn × Coin) × Nat}
    (he : e ∈ (viewOf v i tx).inputs) (he' : e' ∈ (viewOf v i tx).inputs)
    (heq : e.1.1.prevout = e'.1.1.prevout) : e = e' := by
  obtain ⟨⟨x, c⟩, j⟩ := e
  obtain ⟨⟨x', c'⟩, j'⟩ := e'
  obtain ⟨-, hj, hc⟩ := mem_inputs.mp he
  obtain ⟨-, hj', hc'⟩ := mem_inputs.mp he'
  dsimp only at hj hj' hc hc' heq
  have hsame : (tx.vin.map TxIn.prevout)[j]? = (tx.vin.map TxIn.prevout)[j']? := by
    rw [List.getElem?_map, List.getElem?_map, hj, hj', Option.map_some, Option.map_some, heq]
  have hlt : j < (tx.vin.map TxIn.prevout).length := by
    rw [List.length_map]
    exact (List.getElem?_eq_some_iff.mp hj).1
  obtain rfl := (List.getElem?_inj hlt hnd).mp hsame
  rw [hj] at hj'
  cases hj'
  rw [hc, hc']

theorem SpentInv.connect (hi : SpentInv hashes t.coins done m) (hfresh : tx.hash ∉ hashes)
    (hnd : (tx.vin.map TxIn.prevout).Nodup) (h : connectTx P nHeight t tx = some (undo, t')) :
    SpentInv (tx.hash :: hashes) t'.coins (done ++ (viewOf t.coins i tx).connectSpent I nHeight)
      (writeBatch ((viewOf t.coins i tx).connectSpent I nHeight) m) := by
  have hnew : NewHash t.coins tx := fun o c hc heq => hfresh (heq ▸ hi.coinKnown o c hc)
  refine ⟨fun x hx => ?_, fun x hx => ?_, fun o c hc => ?_⟩
  · rcases List.mem_append.mp hx with hold | hself
    · rw [writeBatch_of_not_mem fun y hy heq => ?_]
      · exact hi.recorded x hold
      · obtain ⟨o, z⟩ := y
        obtain ⟨e, he, hout, -⟩ := mem_connectSpent.mp hy
        have hhave := (input_have h he).2.2
        dsimp only at heq
        rw [← hout, heq, (hi.gone x hold).1] at hhave
        cases hhave
    · obtain ⟨o, z⟩ := x
      refine writeBatch_of_mem hself fun y hy => ?_
      obtain ⟨e, he, hout, rfl⟩ := mem_connectSpent.mp hself
      obtain ⟨e', he', hout', rfl⟩ := mem_connectSpent.mp hy
      rw [inputs_inj hnd he he' (hout.symm.trans hout')]
  · rcases List.mem_append.mp hx with hold | hself
    · obtain ⟨hgone, hknown⟩ := hi.gone x hold
      refine ⟨?_, .tail _ hknown⟩
      cases hc : t'.coins.find? x.1 with
      | none => rfl
      | some c =>
        rcases connectTx_find hnew h hc with ⟨hhash, -⟩ | ⟨-, hfind, -⟩
        · exact absurd (hhash ▸ hknown) hfresh
        · rw [hgone] at hfind
          cases hfind
    · obtain ⟨o, z⟩ := x
      obtain ⟨e, he, rfl, -⟩ := mem_connectSpent.mp hself
      obtain ⟨hcb, hvin, hhave⟩ := input_have h he
      exact ⟨connectTx_gone hnew h hcb hvin, .tail _ (hi.coinKnown _ _ hhave)⟩
  · rcases connectTx_find hnew h hc with ⟨hhash, -⟩ | ⟨-, hfind, -⟩
    · rw [hhash]
      exact .head _
    · exact .tail _ (hi.coinKnown o c hfind)

end

/-! ### The views of a block -/

section
variable {P : ChainParams} {I : IndexParams} {nHeight i : Nat} {hashes : List Nat} {t t' : Tally}
  {txs : List Transaction} {undos : List (List Coin)}

theorem connectViews_cons {tx : Transaction} {rest : List Transaction} {undo : List Coin} {t₁ : Tally}
    (h : connectTx P nHeight t tx = some (undo, t₁)) :
    connectViews P nHeight (tx :: rest) i t =
      viewOf t.coins i tx :: connectViews P nHeight rest (i + 1) t₁ := by
  rw [connectViews, h]
  rfl

theorem le_of_mem_connectViews (hw : w ∈ connectViews P nHeight txs i t) : i ≤ w.i := by
  induction txs generalizing i t with
  | nil => cases hw
  | cons tx rest ih =>
    rw [connectViews] at hw
    rcases List.mem_cons.mp hw with rfl | hw
    · exact le_refl i
    · cases hc : connectTx P nHeight t tx with
      | none =>
        rw [hc] at hw
        cases hw
      | some r =>
        rw [hc] at hw
        exact (Nat.le_succ i).trans (ih hw)

theorem connectViews_inj {w' : TxView} (hw : w ∈ connectViews P nHeight txs i t)
    (hw' : w' ∈ connectViews P nHeight txs i t) (heq : w.i = w'.i) : w = w' := by
  induction txs generalizing i t with
  | nil => cases hw
  | cons tx rest ih =>
    rw [connectViews] at hw hw'
    cases hc : connectTx P nHeight t tx with
    | none =>
      rw [hc] at hw hw'
      rw [List.mem_singleton.mp hw, List.mem_singleton.mp hw']
    | some r =>
      rw [hc] at hw hw'
      rcases List.mem_cons.mp hw with rfl | hw <;> rcases List.mem_cons.mp hw' with rfl | hw'
      · rfl
      · have hle := le_of_mem_connectViews hw'
        rw [← heq] at hle
        exact absurd hle (by simp)
      · have hle := le_of_mem_connectViews hw
        rw [heq] at hle
        exact absurd hle (by simp)
      · exact ih hw hw'

/-- The transactions have new hashes. -/
structure NewHashes (hashes : List Nat) (txs : List Transaction) : Prop where
  nodup : (txs.map Transaction.hash).Nodup
  fresh : ∀ tx ∈ txs, tx.hash ∉ hashes

theorem NewHashes.tail {tx : Transaction} {rest : List Transaction} (h : NewHashes hashes (tx :: rest)) :
    NewHashes (tx.hash :: hashes) rest := by
  have hnd := List.nodup_cons.mp h.nodup
  refine ⟨hnd.2, fun x hx hmem => ?_⟩
  rcases List.mem_cons.mp hmem with heq | hmem
  · exact hnd.1 (List.mem_map.mpr ⟨x, hx, heq⟩)
  · exact h.fresh x (List.mem_cons_of_mem tx hx) hmem

theorem mem_hashes_cons {tx : Transaction} {rest : List Transaction} {x : Nat}
    (hx : x ∈ rest.map Transaction.hash ++ tx.hash :: hashes) :
    x ∈ (tx :: rest).map Transaction.hash ++ hashes := by
  simp only [List.map_cons, List.cons_append, List.mem_append, List.mem_cons] at hx ⊢
  rcases hx with hx | rfl | hx
  · exact .inr (.inl hx)
  · exact .inl rfl
  · exact .inr (.inr hx)

/-- The unspent index over the transactions of a block, forwards and back again. -/
theorem UnspentInv.connectTxs {m : AddressUnspentKey → Option AddressUnspentValue}
    (hi : UnspentInv I hashes t.coins m) (hfresh : NewHashes hashes txs)
    (h : connectTxs P nHeight txs t = some (undos, t')) :
    UnspentInv I (txs.map Transaction.hash ++ hashes) t'.coins
        (writeBatch ((connectViews P nHeight txs i t).flatMap (TxView.connectUnspent I nHeight)) m) ∧
      writeBatch ((connectViews P nHeight txs i t).reverse.flatMap (TxView.disconnectUnspent I))
        (writeBatch ((connectViews P nHeight txs i t).flatMap (TxView.connectUnspent I nHeight)) m) = m := by
  induction txs generalizing i hashes t undos m with
  | nil =>
    cases h
    exact ⟨hi, rfl⟩
  | cons tx rest ih =>
    obtain ⟨undo, t₁, undos', h1, h2, rfl⟩ := connectTxs_cons h
    have hnew := hfresh.fresh tx (.head _)
    obtain ⟨hinv, hback⟩ := ih (hi.connect hnew h1) hfresh.tail h2
    rw [connectViews_cons h1, List.flatMap_cons, writeBatch_append, List.reverse_cons,
      List.flatMap_append, writeBatch_append, hback]
    refine ⟨hinv.mono fun x hx => mem_hashes_cons hx, ?_⟩
    rw [List.flatMap_cons, List.flatMap_nil, List.append_nil]
    exact hi.disconnect hnew h1

theorem SpentInv.connectTxs {m : OutPoint → Option SpentIndexValue}
    {done : List (OutPoint × Option SpentIndexValue)} (hi : SpentInv hashes t.coins done m)
    (hfresh : NewHashes hashes txs) (hu : Undoable nHeight txs)
    (h : connectTxs P nHeight txs t = some (undos, t')) :
    SpentInv (txs.map Transaction.hash ++ hashes) t'.coins
      (done ++ (connectViews P nHeight txs i t).flatMap (TxView.connectSpent I nHeight))
      (writeBatch ((connectViews P nHeight txs i t).flatMap (TxView.connectSpent I nHeight)) m) := by
  induction txs generalizing i hashes t undos m done with
  | nil =>
    cases h
    rw [connectViews, List.flatMap_nil, List.append_nil]
    exact hi
  | cons tx rest ih =>
    obtain ⟨undo, t₁, undos', h1, h2, rfl⟩ := connectTxs_cons h
    have hstep := hi.connect (I := I) (i := i) (hfresh.fresh tx (.head _))
      (hu.nodup tx (.head _)) h1
    have hinv := ih (i := i + 1) hstep hfresh.tail hu.tail h2
    rw [connectViews_cons h1, List.flatMap_cons, writeBatch_append, ← List.append_assoc]
    exact hinv.mono fun x hx => mem_hashes_cons hx

theorem restoredCoins_spendInputs {ins : List TxIn} (hv : Coins.Stored v)
    (hnd : (ins.map TxIn.prevout).Nodup) (hin : ∀ i ∈ ins, Coins.haveCoin v i.prevout = true) :
    restoredCoins ins (Coins.spendInputs ins v).1 (Coins.spendInputs ins v).2 =
      ins.map fun i => Coins.accessCoin v i.prevout := by
  induction ins generalizing v with
  | nil => rfl
  | cons i rest ih =>
    have hfind := Coins.find_of_haveCoin (hin i (.head _))
    have hrest := Coins.haveCoin_rest hnd hin
    have hspent : Coins.spendInputs (i :: rest) v =
        (Coins.accessCoin v i.prevout :: (Coins.spendInputs rest (v.erase i.prevout)).1,
          (Coins.spendInputs rest (v.erase i.prevout)).2) := rfl
    rw [hspent, restoredCoins, Coins.restoreInputs_spendInputs (hv.erase i.prevout) hnd.of_cons hrest]
    dsimp only
    rw [Coins.applyTxInUndo_free (hv _ _ hfind) (find?_erase_self v i.prevout),
      ih (hv.erase i.prevout) hnd.of_cons hrest, List.map_cons]
    dsimp only
    rw [Coins.accessCoin_of_find (find?_insert_self _ _ _), List.map_congr_left (Coins.accessCoin_rest hnd)]

/-- **Disconnecting meets the views of connecting**, in the opposite order. -/
theorem disconnectViews_eq (hv : Coins.Stored t.coins) (hu : Undoable nHeight txs)
    (h : connectTxs P nHeight txs t = some (undos, t')) {u : Untally} (huc : u.coins = t'.coins) :
    disconnectViews txs undos i u = (connectViews P nHeight txs i t).reverse := by
  induction txs generalizing i t undos u with
  | nil =>
    cases h
    rfl
  | cons tx rest ih =>
    obtain ⟨undo, t₁, undos', h1, h2, rfl⟩ := connectTxs_cons h
    have hk := hu.keepable tx (.head _)
    have hnd := hu.nodup tx (.head _)
    have hv1 := (connectTx_stored hv hk hnd h1).1
    obtain ⟨u₁, hd1, hc1, -⟩ := disconnectTxs_connectTxs hv1 hu.tail h2 huc
    rw [disconnectViews, ih hv1 hu.tail h2 huc, hd1, connectViews_cons h1, List.reverse_cons]
    dsimp only
    rw [hc1]
    obtain ⟨_, -, hupdate, -, hkind⟩ := connectTx_cases h1
    rcases updateCoins_eq_some hupdate with ⟨hcb, -, -⟩ | ⟨hcb, rfl, hadd⟩
    · rw [viewOf, inputCoins, hcb]
      rfl
    · obtain ⟨hcb', -⟩ | ⟨-, hchk, -⟩ := hkind
      · rw [hcb] at hcb'
        cases hcb'
      have hin := haveCoin_of_haveInputs hcb (haveInputs_of_checkTxInputs hchk)
      have hspend := Coins.spendOutputs_addCoins (Coins.spendInputs_stored hv) hk hadd
      rw [hspend, viewOf, inputCoins, hcb]
      rw [if_neg (by simp), if_neg (by simp), restoredCoins_spendInputs hv hnd hin]

end

/-! ### The records of a chain -/

section
variable (P : ChainParams) (I : IndexParams)

/-- The hashes of the transactions of a chain. -/
def chainHashes (chain : List CBlock) : List Nat := chain.flatMap fun b => b.vtx.map Transaction.hash

/-- The views of a block on top of a chain. -/
def blockViews (rest : List CBlock) (b : CBlock) : List TxView :=
  connectViews P (rest.length + 1) b.vtx 0 ⟨replayCoins P rest, 0, 0, 0⟩

/-- The unspent index of a chain. -/
def unspentOf : List CBlock → AddressUnspentKey → Option AddressUnspentValue
  | [] => fun _ => none
  | b :: rest =>
    writeBatch ((blockViews P rest b).flatMap (TxView.connectUnspent I (rest.length + 1))) (unspentOf rest)

/-- The records of a block in the spent index. -/
def spentRecords (rest : List CBlock) (b : CBlock) : List (OutPoint × Option SpentIndexValue) :=
  (blockViews P rest b).flatMap (TxView.connectSpent I (rest.length + 1))

/-- The records of a chain in the spent index. -/
def spentOf : List CBlock → List (OutPoint × Option SpentIndexValue)
  | [] => []
  | b :: rest => spentOf rest ++ spentRecords P I rest b

/-- The records of a block in the address index. -/
def addressRecords (rest : List CBlock) (b : CBlock) : List (AddressIndexKey × Option Int) :=
  (blockViews P rest b).flatMap (TxView.connectAddress I (rest.length + 1))

/-- The keys that disconnecting a block erases in the address index. -/
def addressKeys (rest : List CBlock) (b : CBlock) : List AddressIndexKey :=
  ((blockViews P rest b).reverse.flatMap (TxView.disconnectAddress I (rest.length + 1))).map Prod.fst

/-- The address index has the records of a chain, and no others of received outputs. -/
structure AddressRecords (chain : List CBlock) (m : AddressIndexKey → Option Int) : Prop where
  recorded : ∀ b rest, b :: rest <:+ chain → ∀ e ∈ addressRecords P I rest b, m e.1 = e.2
  received : ∀ k, k.spending = false → m k ≠ none →
    ∃ b rest, b :: rest <:+ chain ∧ ∃ x, (k, x) ∈ addressRecords P I rest b

end

section
variable {P : ChainParams} {I : IndexParams} {rest : List CBlock} {b : CBlock} {k : AddressIndexKey}

theorem mem_connectAddress {nHeight : Nat} {x : Option Int} :
    (k, x) ∈ w.connectAddress I nHeight ↔
      (∃ e ∈ w.inputs, addressOf I e.1.2.out.scriptPubKey = some k.address ∧
        k = w.activityKey nHeight k.address e.2 true ∧ x = some (-e.1.2.out.nValue)) ∨
      ∃ e ∈ w.outputs, addressOf I e.1.scriptPubKey = some k.address ∧
        k = w.activityKey nHeight k.address e.2 false ∧ x = some e.1.nValue := by
  simp only [TxView.connectAddress, List.mem_append, List.mem_filterMap, Option.map_eq_some_iff,
    Prod.mk.injEq]
  constructor
  · rintro (⟨e, he, a, ha, rfl, rfl⟩ | ⟨e, he, a, ha, rfl, rfl⟩)
    · exact .inl ⟨e, he, ha, rfl, rfl⟩
    · exact .inr ⟨e, he, ha, rfl, rfl⟩
  · rintro (⟨e, he, ha, hk, rfl⟩ | ⟨e, he, ha, hk, rfl⟩)
    · exact .inl ⟨e, he, _, ha, hk.symm, rfl⟩
    · exact .inr ⟨e, he, _, ha, hk.symm, rfl⟩

theorem mem_addressKeys :
    k ∈ addressKeys P I rest b ↔ ∃ w ∈ blockViews P rest b,
      (∃ e ∈ w.outputs, addressOf I e.1.scriptPubKey = some k.address ∧
        k = w.activityKey (rest.length + 1) k.address e.2 false) ∨
      ∃ e ∈ w.inputs, addressOf I e.1.2.out.scriptPubKey = some k.address ∧
        k = w.activityKey (rest.length + 1) k.address e.2 (!isPayToPublicKey e.1.2.out.scriptPubKey) := by
  simp only [addressKeys, List.mem_map, List.mem_flatMap, List.mem_reverse, TxView.disconnectAddress,
    List.mem_append, List.mem_filterMap, Option.map_eq_some_iff]
  constructor
  · rintro ⟨_, ⟨w, hw, ⟨e, he, a, ha, rfl⟩ | ⟨e, he, a, ha, rfl⟩⟩, rfl⟩
    · exact ⟨w, hw, .inl ⟨e, he, ha, rfl⟩⟩
    · exact ⟨w, hw, .inr ⟨e, he, ha, rfl⟩⟩
  · rintro ⟨w, hw, ⟨e, he, ha, hk⟩ | ⟨e, he, ha, hk⟩⟩
    · exact ⟨(k, e.1.nValue), ⟨w, hw, .inl ⟨e, he, _, ha, by rw [← hk]⟩⟩, rfl⟩
    · exact ⟨(k, -e.1.2.out.nValue), ⟨w, hw, .inr ⟨e, he, _, ha, by rw [← hk]⟩⟩, rfl⟩

theorem addressRecords_height {x : Option Int} (h : (k, x) ∈ addressRecords P I rest b) :
    k.blockHeight = rest.length + 1 := by
  obtain ⟨w, -, hk⟩ := List.mem_flatMap.mp h
  rcases mem_connectAddress.mp hk with ⟨e, -, -, hk, -⟩ | ⟨e, -, -, hk, -⟩ <;> exact congrArg _ hk

theorem addressKeys_height (h : k ∈ addressKeys P I rest b) : k.blockHeight = rest.length + 1 := by
  obtain ⟨w, -, ⟨e, -, -, hk⟩ | ⟨e, -, -, hk⟩⟩ := mem_addressKeys.mp h <;> exact congrArg _ hk

theorem addressRecords_unique {x y : Option Int} (hx : (k, x) ∈ addressRecords P I rest b)
    (hy : (k, y) ∈ addressRecords P I rest b) : x = y := by
  obtain ⟨w, hw, hkx⟩ := List.mem_flatMap.mp hx
  obtain ⟨w', hw', hky⟩ := List.mem_flatMap.mp hy
  have hkey : ∀ {w : TxView} {a : Address} {j : Nat} {f : Bool},
      k = w.activityKey (rest.length + 1) a j f → k.txindex = w.i ∧ k.index = j ∧ k.spending = f := by
    rintro w a j f rfl
    exact ⟨rfl, rfl, rfl⟩
  have hfrom : ∀ {w : TxView} {x : Option Int}, (k, x) ∈ w.connectAddress I (rest.length + 1) →
      k.txindex = w.i := by
    intro w x hmem
    rcases mem_connectAddress.mp hmem with ⟨e, -, -, hk, -⟩ | ⟨e, -, -, hk, -⟩ <;> exact (hkey hk).1
  obtain rfl := connectViews_inj hw hw' ((hfrom hkx).symm.trans (hfrom hky))
  rcases mem_connectAddress.mp hkx with ⟨e, he, -, hk, rfl⟩ | ⟨e, he, -, hk, rfl⟩ <;>
    rcases mem_connectAddress.mp hky with ⟨e', he', -, hk', rfl⟩ | ⟨e', he', -, hk', rfl⟩
  · have hplace : e.2 = e'.2 := (hkey hk).2.1.symm.trans (hkey hk').2.1
    have hsame := (List.mk_mem_zipIdx_iff_getElem?.mp he).symm.trans
      (hplace ▸ List.mk_mem_zipIdx_iff_getElem?.mp he')
    rw [Option.some.inj hsame]
  · exact absurd ((hkey hk).2.2.symm.trans (hkey hk').2.2) (by decide)
  · exact absurd ((hkey hk).2.2.symm.trans (hkey hk').2.2) (by decide)
  · have hplace : e.2 = e'.2 := (hkey hk).2.1.symm.trans (hkey hk').2.1
    have hsame := (mem_outputs.mp he).symm.trans (hplace ▸ mem_outputs.mp he')
    rw [Option.some.inj hsame]

theorem mem_addressKeys_of_received {x : Option Int} (h : (k, x) ∈ addressRecords P I rest b)
    (hk : k.spending = false) : k ∈ addressKeys P I rest b := by
  obtain ⟨w, hw, hmem⟩ := List.mem_flatMap.mp h
  rcases mem_connectAddress.mp hmem with ⟨e, -, -, hkey, -⟩ | ⟨e, he, ha, hkey, -⟩
  · rw [hkey] at hk
    cases hk
  · exact mem_addressKeys.mpr ⟨w, hw, .inl ⟨e, he, ha, hkey⟩⟩

theorem spending_of_mem_addressKeys (h : k ∈ addressKeys P I rest b)
    (hno : ∀ x, (k, x) ∉ addressRecords P I rest b) : k.spending = false := by
  obtain ⟨w, hw, ⟨e, -, -, hkey⟩ | ⟨e, he, ha, hkey⟩⟩ := mem_addressKeys.mp h
  · rw [hkey]
    rfl
  · cases hpk : isPayToPublicKey e.1.2.out.scriptPubKey with
    | true =>
      rw [hkey, hpk]
      rfl
    | false =>
      rw [hpk] at hkey
      exact absurd (List.mem_flatMap.mpr ⟨w, hw, mem_connectAddress.mpr (.inl ⟨e, he, ha, hkey, rfl⟩)⟩)
        (hno _)

end

section
variable {P : ChainParams} {I : IndexParams} {rest : List CBlock} {b : CBlock}
  {m : AddressIndexKey → Option Int}

theorem height_of_suffix {b' : CBlock} {rest' : List CBlock} (h : b' :: rest' <:+ rest) :
    rest'.length + 1 ≤ rest.length :=
  h.length_le

theorem AddressRecords.connect (hi : AddressRecords P I rest m) :
    AddressRecords P I (b :: rest) (writeBatch (addressRecords P I rest b) m) := by
  refine ⟨fun b' rest' hsuf e he => ?_, fun k hk hsome => ?_⟩
  · rcases List.suffix_cons_iff.mp hsuf with heq | hsuf
    · obtain ⟨rfl, rfl⟩ := List.cons.inj heq
      exact writeBatch_of_mem he fun x hx => addressRecords_unique hx he
    · rw [writeBatch_of_not_mem fun x hx heq => ?_]
      · exact hi.recorded b' rest' hsuf e he
      · have hnew := addressRecords_height hx
        have hold := addressRecords_height he
        have hle := height_of_suffix hsuf
        rw [heq] at hnew
        omega
  · rcases writeBatch_cases (addressRecords P I rest b) m k with ⟨-, hsame⟩ | ⟨x, hx, -⟩
    · rw [hsame] at hsome
      obtain ⟨b', rest', hsuf, hrec⟩ := hi.received k hk hsome
      exact ⟨b', rest', hsuf.trans (List.suffix_cons b rest), hrec⟩
    · exact ⟨b, rest, List.suffix_rfl, x, hx⟩

/-- The address index after a block is disconnected. -/
def eraseAddress (P : ChainParams) (I : IndexParams) (rest : List CBlock) (b : CBlock)
    (m : AddressIndexKey → Option Int) : AddressIndexKey → Option Int :=
  writeBatch (eraseBatch ((blockViews P rest b).reverse.flatMap
    (TxView.disconnectAddress I (rest.length + 1)))) m

theorem eraseAddress_apply (k : AddressIndexKey) :
    eraseAddress P I rest b m k = if k ∈ addressKeys P I rest b then none else m k :=
  writeBatch_eraseBatch _ m k

theorem AddressRecords.disconnect (hi : AddressRecords P I (b :: rest) m) :
    AddressRecords P I rest (eraseAddress P I rest b m) := by
  refine ⟨fun b' rest' hsuf e he => ?_, fun k hk hsome => ?_⟩
  · rw [eraseAddress_apply, if_neg fun hmem => ?_]
    · exact hi.recorded b' rest' (hsuf.trans (List.suffix_cons b rest)) e he
    · have hnew := addressKeys_height hmem
      have hold := addressRecords_height he
      have hle := height_of_suffix hsuf
      omega
  · rw [eraseAddress_apply] at hsome
    split_ifs at hsome with hmem
    · exact absurd rfl hsome
    obtain ⟨b', rest', hsuf, x, hx⟩ := hi.received k hk hsome
    rcases List.suffix_cons_iff.mp hsuf with heq | hsuf
    · obtain ⟨rfl, rfl⟩ := List.cons.inj heq
      exact absurd (mem_addressKeys_of_received hx hk) hmem
    · exact ⟨b', rest', hsuf, x, hx⟩

theorem AddressRecords.restore (hi : AddressRecords P I (b :: rest) m) :
    writeBatch (addressRecords P I rest b) (eraseAddress P I rest b m) = m := by
  funext k
  rcases writeBatch_cases (addressRecords P I rest b) (eraseAddress P I rest b m) k with
    ⟨hno, hsame⟩ | ⟨x, hx, hval⟩
  · rw [hsame, eraseAddress_apply]
    split_ifs with hmem
    · -- an input that was taken for an output: nothing was there
      have hspend := spending_of_mem_addressKeys hmem fun x hx => hno _ hx rfl
      by_contra hsome
      obtain ⟨b', rest', hsuf, x, hx⟩ := hi.received k hspend fun hnone => hsome hnone.symm
      have hkey := addressKeys_height hmem
      rw [addressRecords_height hx] at hkey
      obtain heq : b' :: rest' = b :: rest := by
        rcases List.suffix_cons_iff.mp hsuf with heq | hsuf
        · exact heq
        · have hle := height_of_suffix hsuf
          omega
      obtain ⟨rfl, rfl⟩ := List.cons.inj heq
      exact hno _ hx rfl
    · rfl
  · rw [hval]
    exact (hi.recorded b rest List.suffix_rfl _ hx).symm

end

/-! ### Nodes -/

section
variable {I : IndexParams} {nHeight : Nat} {ws : List TxView} {x : Indexes}

theorem writeIndexes_address (hon : I.fAddressIndex = true) :
    (writeIndexes I nHeight ws x).address =
      writeBatch (ws.flatMap (TxView.connectAddress I nHeight)) x.address :=
  if_pos hon

theorem writeIndexes_unspent (hon : I.fAddressIndex = true) :
    (writeIndexes I nHeight ws x).unspent =
      writeBatch (ws.flatMap (TxView.connectUnspent I nHeight)) x.unspent :=
  if_pos hon

theorem writeIndexes_spent (hon : I.fSpentIndex = true) :
    (writeIndexes I nHeight ws x).spent = writeBatch (ws.flatMap (TxView.connectSpent I nHeight)) x.spent :=
  if_pos hon

theorem revertIndexes_address (hon : I.fAddressIndex = true) :
    (revertIndexes I nHeight ws x).address =
      writeBatch (eraseBatch (ws.flatMap (TxView.disconnectAddress I nHeight))) x.address :=
  if_pos hon

theorem revertIndexes_unspent (hon : I.fAddressIndex = true) :
    (revertIndexes I nHeight ws x).unspent =
      writeBatch (ws.flatMap (TxView.disconnectUnspent I)) x.unspent :=
  if_pos hon

end

/-- **What holds of a node**: the state is the replayed chain, no two transactions have
the same hash, undo records are there, and the indexes are those of the chain. -/
structure Grounded (P : ChainParams) (I : IndexParams) (g : Int) (n : ChainState) (x : Indexes) : Prop where
  chain : ChainInv P g n
  hashes : (chainHashes n.chain).Nodup
  undo : ∀ b rest, b :: rest <:+ n.chain → n.undo (b :: rest) ≠ none
  unspent : I.fAddressIndex = true → x.unspent = unspentOf P I n.chain
  address : I.fAddressIndex = true → AddressRecords P I n.chain x.address
  spent : I.fSpentIndex = true → ∀ e ∈ spentOf P I n.chain, x.spent e.1 = e.2

section
variable {P : ChainParams} {I : IndexParams} {g : Int}

theorem newHashes_of_nodup (h : (chainHashes (b :: rest)).Nodup) :
    NewHashes (chainHashes rest) b.vtx ∧ (chainHashes rest).Nodup := by
  rw [chainHashes, List.flatMap_cons, List.nodup_append] at h
  obtain ⟨hb, hrest, hne⟩ := h
  exact ⟨⟨hb, fun tx htx hmem => hne _ (List.mem_map_of_mem htx) _ hmem rfl⟩, hrest⟩

theorem Extends.connectTxs {s s' : ChainTip} {undo : BlockUndo}
    (hrest : Replay P g rest s) (hext : Extends P rest s b undo s') :
    ∃ undos t, Chain.connectTxs P (rest.length + 1) b.vtx ⟨replayCoins P rest, 0, 0, 0⟩ = some (undos, t) ∧
      s'.coins = t.coins ∧ undo = undos.tail ∧
      s'.nMoneySupply = toI64 (s.nMoneySupply + toI64 (t.nValueOut - t.nValueIn)) := by
  obtain ⟨-, ⟨-, hnone, -⟩ | ⟨-, -, undos, t, htxs, -, hundo, rfl⟩⟩ := connectCore_cases hext.core
  · cases hnone
  · rw [hrest.coins] at htxs
    exact ⟨undos, t, htxs, rfl, Option.some.inj hundo, rfl⟩

theorem Replay.unspent {chain : List CBlock} {tip : ChainTip} (h : Replay P g chain tip)
    (hnd : (chainHashes chain).Nodup) :
    UnspentInv I (chainHashes chain) tip.coins (unspentOf P I chain) := by
  induction h with
  | genesis =>
    refine ⟨fun o c a hc => ?_, fun k hk => absurd rfl hk, fun o c hc => ?_⟩ <;> simp at hc
  | @connect rest s s' b undo hrest hext ih =>
    obtain ⟨hnew, hrestnd⟩ := newHashes_of_nodup hnd
    obtain ⟨undos, t, htxs, hcoins, -, -⟩ := hext.connectTxs hrest
    have hinv := ih hrestnd
    rw [hrest.coins] at hinv
    rw [hcoins]
    exact (hinv.connectTxs hnew htxs).1

variable (hmax : P.nMaxMoneyOut ≤ i64Max) (hmature : 0 < P.nCoinbaseMaturity) (hg : InI64 g)
include hmax hmature hg

theorem Replay.undoable {s s' : ChainTip} {undo : BlockUndo}
    (hrest : Replay P g rest s) (hext : Extends P rest s b undo s') :
    Coins.Stored (replayCoins P rest) ∧ Undoable (rest.length + 1) b.vtx := by
  have hbal := hrest.balanced hmax hmature hg
  rw [← hrest.coins]
  exact ⟨hbal.stored, (hbal.extend hmax hmature hext).1⟩

/-- What the chain spent is gone, and recorded in the store that its records make up. -/
theorem Replay.spent {chain : List CBlock} {tip : ChainTip} (h : Replay P g chain tip)
    (hnd : (chainHashes chain).Nodup) :
    SpentInv (chainHashes chain) tip.coins (spentOf P I chain)
      (writeBatch (spentOf P I chain) fun _ => none) := by
  induction h with
  | genesis =>
    refine ⟨fun e he => ?_, fun e he => ?_, fun o c hc => ?_⟩
    · cases he
    · cases he
    · simp at hc
  | @connect rest s s' b undo hrest hext ih =>
    obtain ⟨hnew, hrestnd⟩ := newHashes_of_nodup hnd
    obtain ⟨undos, t, htxs, hcoins, -, -⟩ := hext.connectTxs hrest
    have hinv := ih hrestnd
    rw [hrest.coins] at hinv
    rw [hcoins, spentOf, writeBatch_append]
    exact hinv.connectTxs hnew (hrest.undoable hmax hmature hg hext).2 htxs

variable {keys : PubKeys} {n n' : ChainState} {x : Indexes} {b : CBlock} {rest : List CBlock}

omit hmax hmature hg in
theorem connectedIndexes_eq (hi : ChainInv P g n) :
    connectedIndexes P I n b x = writeIndexes I (n.chain.length + 1) (blockViews P n.chain b) x := by
  rw [connectedIndexes, blockViews, hi.replay.coins]

theorem Grounded.connect {N : NodeState} (hi : Grounded P I g n x)
    (hfits : connectFits n (.connect N b) = true) (hnew : (chainHashes (b :: n.chain)).Nodup)
    (hstep : chainStep P keys n (.connect N b) = some n') :
    n'.chain = b :: n.chain ∧ Grounded P I g n' (connectedIndexes P I n b x) := by
  have hinv := connect_inv hi.chain hfits hstep
  have hstep' := hstep
  simp only [chainStep] at hstep'
  split_ifs at hstep' with hgen
  obtain ⟨⟨undo, tip⟩, hconnect, rfl⟩ := Option.map_eq_some_iff.mp hstep'
  rw [connectedIndexes_eq hi.chain]
  refine ⟨rfl, hinv, hnew, fun b' rest' hsuf => ?_, fun hon => ?_, fun hon => ?_, fun hon => ?_⟩
  · unfold connectBlock at hconnect
    split_ifs at hconnect
    obtain ⟨-, ⟨hgen', -⟩ | ⟨-, -, undos, t, -, -, rfl, -⟩⟩ := connectCore_cases hconnect
    · exact absurd hgen' hgen
    dsimp only [storeUndo]
    split_ifs with hentry
    · simp
    · rcases List.suffix_cons_iff.mp hsuf with heq | hsuf
      · exact fun hnone => hentry ⟨heq, hnone⟩
      · exact hi.undo b' rest' hsuf
  · rw [writeIndexes_unspent hon, hi.unspent hon]
    rfl
  · rw [writeIndexes_address hon]
    exact (hi.address hon).connect
  · rw [writeIndexes_spent hon]
    have hpure := hi.chain.replay.spent (I := I) hmax hmature hg hi.hashes
    obtain ⟨t, u, hrest, hext, -⟩ := hinv.top rfl
    obtain ⟨undos, t', htxs, hcoins, -, -⟩ := hext.connectTxs hrest
    have hspent : SpentInv (chainHashes n.chain) (replayCoins P n.chain) (spentOf P I n.chain) x.spent := by
      rw [← hi.chain.replay.coins]
      exact ⟨hi.spent hon, hpure.gone, hpure.coinKnown⟩
    exact (hspent.connectTxs
      (newHashes_of_nodup hnew).1 (hrest.undoable hmax hmature hg hext).2 htxs).recorded

theorem Grounded.disconnect (hzc : ∀ n < 1073741824, networkUpgradeActive P.upgradeZC n = false)
    (keys : PubKeys) (Z : Zerocoins) (hi : Grounded P I g n x) (hchain : n.chain = b :: rest) :
    ∃ t undo, n.undo (b :: rest) = some undo ∧ Replay P g rest t ∧ Extends P rest t b undo n.tip ∧
      disconnectBlock P keys Z (rest.length + 1) (tipHash P rest) (some undo) b n.tip = (.ok, t) ∧
      undoneViews keys n = (blockViews P rest b).reverse ∧
      Grounded P I g ⟨rest, t, n.undo⟩ (revertIndexes I (rest.length + 1) (undoneViews keys n) x) ∧
      connectedIndexes P I ⟨rest, t, n.undo⟩ b
        (revertIndexes I (rest.length + 1) (undoneViews keys n) x) = x := by
  obtain ⟨undo, hundo⟩ := Option.ne_none_iff_exists'.mp (hi.undo b rest (hchain ▸ List.suffix_rfl))
  obtain ⟨t, hrest, hext, hback⟩ := hi.chain.back hmax hmature hg hzc keys Z hchain hundo
  obtain ⟨undos, t', htxs, hcoins, rfl, -⟩ := hext.connectTxs hrest
  obtain ⟨hstored, hundoable⟩ := hrest.undoable hmax hmature hg hext
  obtain ⟨N, hcheck⟩ := hext.checked
  obtain ⟨cb, txs, hvtx, hcb, -⟩ := checkBlock_vtx hcheck
  have hhead : undos = [] :: undos.tail := connectTxs_coinbase hcb (hvtx ▸ htxs)
  have hviews : undoneViews keys n = (blockViews P rest b).reverse := by
    have hread : readBlockUndo keys undos.tail = some undos.tail :=
      readBlockUndo_eq fun u hmem =>
        (connectTxs_stored hstored hundoable htxs).2 u (List.mem_of_mem_tail hmem)
    rw [undoneViews, hchain]
    dsimp only
    rw [hundo, Option.bind_some, hread]
    dsimp only
    rw [← hhead]
    exact disconnectViews_eq hstored hundoable htxs hcoins
  have hchainInv : ChainInv P g ⟨rest, t, n.undo⟩ := ⟨hrest, hi.chain.records⟩
  have hhashes := hi.hashes
  rw [hchain] at hhashes
  obtain ⟨hnew, hnd⟩ := newHashes_of_nodup hhashes
  -- the operations on the unspent index are inverse to those of connecting
  have hunspent : I.fAddressIndex = true →
      writeBatch ((blockViews P rest b).reverse.flatMap (TxView.disconnectUnspent I)) x.unspent =
        unspentOf P I rest := by
    intro hon
    have hinv := hrest.unspent (I := I) hnd
    rw [hrest.coins] at hinv
    rw [hi.unspent hon, hchain]
    exact (hinv.connectTxs hnew htxs).2
  rw [hviews]
  refine ⟨t, _, hundo, hrest, hext, hback, rfl, ⟨hchainInv, hnd, fun b' rest' hsuf => ?_, fun hon => ?_,
    fun hon => ?_, fun hon e he => ?_⟩, ?_⟩
  · exact hi.undo b' rest' (hchain ▸ hsuf.trans (List.suffix_cons b rest))
  · rw [revertIndexes_unspent hon]
    exact hunspent hon
  · have haddress := hi.address hon
    rw [hchain] at haddress
    rw [revertIndexes_address hon]
    exact haddress.disconnect
  · have hspent := hi.spent hon
    rw [hchain] at hspent
    exact hspent e (List.mem_append_left _ he)
  · rw [connectedIndexes_eq hchainInv]
    obtain ⟨address, unspent, spent⟩ := x
    rw [writeIndexes, revertIndexes]
    congr 1
    · split_ifs with hon
      · have haddress := hi.address hon
        rw [hchain] at haddress
        exact haddress.restore
      · rfl
    · split_ifs with hon
      · have hold := hi.unspent hon
        rw [hchain] at hold
        rw [hunspent hon]
        exact hold.symm
      · rfl
    · by_cases hon : I.fSpentIndex = true
      · have hspent := hi.spent hon
        rw [hchain] at hspent
        rw [if_pos hon]
        exact writeBatch_eq_self fun e he => hspent e (List.mem_append_right _ he)
      · exact if_neg hon

end

/-! ### Runs -/

/-- **The condition on a call**: a block that is connected fits the undo records and has
transactions with new hashes; a call that does not connect its block comes to no
governance action that is written. -/
def indexSafe (P : ChainParams) (M : GovernanceParams) (keys : PubKeys) (s : IndexedNode) :
    GovernanceEvent → Bool
  | .connect N C b =>
    match connects P keys N C s.core.node b with
    | some _ =>
      connectFits s.core.node (.connect N b) && (chainHashes (b :: s.core.node.chain)).Nodup
    | none => (calledActions P M N C s.core.node b).all fun a => !a.isWritten
  | .check N C b => (calledActions P M N C s.core.node b).all fun a => !a.isWritten
  | .disconnect _ => true

/-- Calls that meet the condition. -/
def safeIndexedStep (P : ChainParams) (M : GovernanceParams) (keys : PubKeys) (I : IndexParams) :
    IndexedNode → GovernanceEvent → Option IndexedNode :=
  guarded (indexSafe P M keys) fun s e => some (indexedStep P M keys I s e)

/-- The node and its governance database are those of the active chain. -/
structure IndexedInv (P : ChainParams) (M : GovernanceParams) (I : IndexParams) (g : Int)
    (s : IndexedNode) : Prop where
  grounded : Grounded P I g s.core.node s.indexes
  governance : s.core.governance = governanceOf P M s.core.node.chain

section
variable {P : ChainParams} {M : GovernanceParams} {keys : PubKeys} {I : IndexParams} {g : Int}
  {s : IndexedNode} (hmax : P.nMaxMoneyOut ≤ i64Max) (hmature : 0 < P.nCoinbaseMaturity)
  (hzc : ∀ n < 1073741824, networkUpgradeActive P.upgradeZC n = false) (hg : InI64 g)

theorem IndexedInv.attempt {N : NodeState} {C : LeftOutChecks}
    (hi : IndexedInv P M I g s)
    (hnone : ((calledActions P M N C s.core.node b).all fun a => !a.isWritten) = true) :
    IndexedInv P M I g ⟨⟨s.core.node, (calledActions P M N C s.core.node b).foldl
      (applyUpdate (s.core.node.chain.length + 1)) s.core.governance⟩, s.indexes⟩ := by
  have hun : ∀ a ∈ calledActions P M N C s.core.node b, a.isWritten = false := by
    simpa using hnone
  refine ⟨hi.grounded, ?_⟩
  rw [foldl_update_unwritten hun]
  exact hi.governance

include hmax hmature hg

theorem IndexedInv.connect {N : NodeState} {C : LeftOutChecks} {b : CBlock} (hi : IndexedInv P M I g s)
    (hsafe : indexSafe P M keys s (.connect N C b) = true) :
    IndexedInv P M I g (indexedStep P M keys I s (.connect N C b)) := by
  rw [indexedStep, connectCall]
  rw [indexSafe] at hsafe
  cases hc : connects P keys N C s.core.node b with
  | none =>
    rw [hc] at hsafe
    exact hi.attempt hsafe
  | some node =>
    rw [hc] at hsafe
    simp only [Bool.and_eq_true, decide_eq_true_eq] at hsafe
    obtain ⟨hstep, -, hacts⟩ := calledActions_connected hi.grounded.chain hc
    obtain ⟨hchain, hground⟩ := hi.grounded.connect hmax hmature hg hsafe.1 hsafe.2 hstep
    refine ⟨hground, ?_⟩
    rw [hchain, hacts, hi.governance]
    rfl

include hzc

variable (keys) in
theorem IndexedInv.disconnect (Z : Zerocoins)
    (hi : IndexedInv P M I g s) (hchain : s.core.node.chain = b :: rest) :
    ∃ t undo, s.core.node.undo (b :: rest) = some undo ∧ Extends P rest t b undo s.core.node.tip ∧
      undoneViews keys s.core.node = (blockViews P rest b).reverse ∧
      disconnectCall P M keys I Z s = (.ok, ⟨⟨⟨rest, t, s.core.node.undo⟩, governanceOf P M rest⟩,
        revertIndexes I (rest.length + 1) (undoneViews keys s.core.node) s.indexes⟩) ∧
      IndexedInv P M I g ⟨⟨⟨rest, t, s.core.node.undo⟩, governanceOf P M rest⟩,
        revertIndexes I (rest.length + 1) (undoneViews keys s.core.node) s.indexes⟩ ∧
      connectedIndexes P I ⟨rest, t, s.core.node.undo⟩ b
        (revertIndexes I (rest.length + 1) (undoneViews keys s.core.node) s.indexes) = s.indexes := by
  obtain ⟨t, undo, hundo, hrest, hext, hback, hviews, hground, hagain⟩ :=
    hi.grounded.disconnect hmax hmature hg hzc keys Z hchain
  have hgov : (revertedByCall P M keys Z s.core.node).foldl (applyRevert s.core.node.chain.length)
      s.core.governance = governanceOf P M rest := by
    rw [hi.governance, hchain]
    exact revert_governanceOf (mem_revertedByCall hmax hmature hg hzc hchain hrest hext hundo)
  refine ⟨t, undo, hundo, hext, hviews, ?_, ⟨hground, rfl⟩, hagain⟩
  rw [disconnectCall]
  split
  · rename_i hnil
    rw [hchain] at hnil
    cases hnil
  · rename_i b' rest' hcons
    rw [hchain] at hcons
    obtain ⟨rfl, rfl⟩ := List.cons.inj hcons
    rw [hundo, hback, hgov]

/-- **The indexes and the governance database are those of the active chain**, after
every sequence of calls that meet the condition. -/
theorem run_indexed {es : List GovernanceEvent}
    (h : run (safeIndexedStep P M keys I) (.genesis P M g) es = some s) : IndexedInv P M I g s := by
  have hinit : IndexedInv P M I g (.genesis P M g) := by
    refine ⟨⟨⟨.genesis, fun entry u hu => by cases hu⟩, List.nodup_nil, fun b rest hsuf => ?_,
      fun _ => rfl, fun _ => ⟨fun b rest hsuf => ?_, fun k _ hk => absurd rfl hk⟩,
      fun _ e he => by cases he⟩, rfl⟩
    · cases List.suffix_nil.mp hsuf
    · cases List.suffix_nil.mp hsuf
  refine run_invariant (fun s e s' hi hstep => ?_) hinit h
  obtain ⟨hsafe, hstep⟩ := guarded_eq_some.mp hstep
  cases hstep
  cases e with
  | connect N C b => exact hi.connect hmax hmature hg hsafe
  | check N C b => exact hi.attempt hsafe
  | disconnect Z =>
    rw [indexedStep]
    cases hchain : s.core.node.chain with
    | nil =>
      -- at the genesis block the call fails
      have hfail : disconnectCall P M keys I Z s = (.failed, s) := by
        rw [disconnectCall]
        split
        · rfl
        · rename_i hcons
          rw [hchain] at hcons
          cases hcons
      rw [hfail]
      rw [← hchain]
      exact hi
    | cons b rest =>
      obtain ⟨t, undo, -, -, -, hcall, hnext, -⟩ :=
        hi.disconnect keys hmax hmature hzc hg Z hchain
      rw [hcall]
      exact hnext

end

end Rapids.Chain
