import Rapids.Chain.StakingSound
import Rapids.Chain.VerifyDBSound

/-!
# Rapids.Chain.IndexesUndone

**Connecting a block and disconnecting it again**: what is left in the indexes of a
node whose indexes are those of its chain.

The unspent index is as before. In the address index the activity of inputs that spend
from a bare public key stays behind, because `DisconnectBlock` looks for it under
the key of an output; in the spent index everything the block spent stays behind. So
the indexes are restored exactly if there is none of either (`indexes_restored_iff`).
-/

namespace Rapids.Chain

open Rapids.Lib

section
variable (P : ChainParams) (I : IndexParams)

/-- The indexes of a node that connected the blocks of a chain, one after another. -/
def indexesOf : List CBlock → Indexes
  | [] => ⟨fun _ => none, fun _ => none, fun _ => none⟩
  | b :: rest => writeIndexes I (rest.length + 1) (blockViews P rest b) (indexesOf rest)

/-- **A consistent database state**: coins, undo records and indexes are those of the
active chain, whose transactions have pairwise different hashes. -/
structure Consistent (g : Int) (s : IndexedNode) : Prop where
  chain : ChainInv P g s.core.node
  hashes : (chainHashes s.core.node.chain).Nodup
  undo : ∀ b rest, b :: rest <:+ s.core.node.chain → s.core.node.undo (b :: rest) ≠ none
  indexes : s.indexes = indexesOf P I s.core.node.chain

/-- **The condition on a block**: no input spends from a bare public key if addresses
are indexed, and nothing is spent if spent outputs are. -/
structure RestoresIndexes (rest : List CBlock) (b : CBlock) : Prop where
  bareKeys : I.fAddressIndex = true → ∀ w ∈ blockViews P rest b, ∀ e ∈ w.inputs,
    isPayToPublicKey e.1.2.out.scriptPubKey = false
  spends : I.fSpentIndex = true → ∀ w ∈ blockViews P rest b, w.inputs ≠ [] → w.tx.hash = 0

end

/-! ### The indexes of a chain -/

section
variable {P : ChainParams} {I : IndexParams} {rest chain : List CBlock} {b : CBlock}

theorem unspent_indexesOf (hon : I.fAddressIndex = true) :
    (indexesOf P I chain).unspent = unspentOf P I chain := by
  induction chain with
  | nil => rfl
  | cons b rest ih =>
    rw [indexesOf, writeIndexes_unspent hon, ih]
    rfl

theorem address_indexesOf (hon : I.fAddressIndex = true) :
    AddressRecords P I chain (indexesOf P I chain).address := by
  induction chain with
  | nil =>
    refine ⟨fun b rest hsuf => ?_, fun k _ hk => absurd rfl hk⟩
    cases List.suffix_nil.mp hsuf
  | cons b rest ih =>
    rw [indexesOf, writeIndexes_address hon]
    exact ih.connect

theorem address_above {k : AddressIndexKey} (hk : chain.length < k.blockHeight) :
    (indexesOf P I chain).address k = none := by
  induction chain with
  | nil => rfl
  | cons b rest ih =>
    rw [List.length_cons] at hk
    rw [indexesOf, writeIndexes]
    dsimp only
    split_ifs
    · rw [writeBatch_of_not_mem fun e he heq => ?_]
      · exact ih (by omega)
      · have hheight : e.1.blockHeight = rest.length + 1 := addressRecords_height he
        rw [heq] at hheight
        omega
    · exact ih (by omega)

theorem spent_indexesOf (hon : I.fSpentIndex = true) :
    (indexesOf P I chain).spent = writeBatch (spentOf P I chain) fun _ => none := by
  induction chain with
  | nil => rfl
  | cons b rest ih =>
    rw [indexesOf, writeIndexes_spent hon, ih, spentOf, writeBatch_append]
    rfl

end

/-! ### What a block spends was not spent before -/

section
variable {P : ChainParams} {I : IndexParams} {nHeight i : Nat} {hashes : List Nat} {t t' : Tally}
  {txs : List Transaction} {undos : List (List Coin)}

/-- The induction is over the transactions; what those before spent is gone when the
next one spends. -/
theorem SpentInv.fresh {m : OutPoint → Option SpentIndexValue}
    {done : List (OutPoint × Option SpentIndexValue)} (hi : SpentInv hashes t.coins done m)
    (hfresh : NewHashes hashes txs) (hu : Undoable nHeight txs)
    (h : Chain.connectTxs P nHeight txs t = some (undos, t')) :
    ∀ e ∈ (connectViews P nHeight txs i t).flatMap (TxView.connectSpent I nHeight), ∀ d ∈ done,
      d.1 ≠ e.1 := by
  induction txs generalizing i hashes t undos m done with
  | nil =>
    intro e he
    cases he
  | cons tx rest ih =>
    obtain ⟨undo, t₁, undos', h1, h2, rfl⟩ := connectTxs_cons h
    intro e he d hd heq
    rw [connectViews_cons h1, List.flatMap_cons] at he
    rcases List.mem_append.mp he with hself | hlater
    · obtain ⟨o, x⟩ := e
      obtain ⟨e', he', rfl, -⟩ := mem_connectSpent.mp hself
      have hhave := (input_have h1 he').2.2
      dsimp only at heq
      rw [← heq, (hi.gone d hd).1] at hhave
      cases hhave
    · have hstep := hi.connect (I := I) (i := i) (hfresh.fresh tx (.head _))
        (hu.nodup tx (.head _)) h1
      exact ih hstep hfresh.tail hu.tail h2 e hlater d (List.mem_append_left _ hd) heq

end

/-! ### One block, forth and back -/

section
variable {P : ChainParams} {I : IndexParams} {rest : List CBlock} {b : CBlock}

/-- The key of an input's activity is erased exactly if its coin has no bare key. -/
theorem inputKey_mem_addressKeys {w : TxView} {e : (TxIn × Coin) × Nat} {a : Address}
    (hw : w ∈ blockViews P rest b) (he : e ∈ w.inputs)
    (ha : addressOf I e.1.2.out.scriptPubKey = some a) :
    w.activityKey (rest.length + 1) a e.2 true ∈ addressKeys P I rest b ↔
      isPayToPublicKey e.1.2.out.scriptPubKey = false := by
  constructor
  · intro hmem
    obtain ⟨w', hw', ⟨e', -, -, hkey⟩ | ⟨e', he', -, hkey⟩⟩ := mem_addressKeys.mp hmem
    · exact absurd (congrArg AddressIndexKey.spending hkey) Bool.noConfusion
    · have hview : w.i = w'.i := congrArg AddressIndexKey.txindex hkey
      have hplace : e.2 = e'.2 := congrArg AddressIndexKey.index hkey
      have hflag : true = !isPayToPublicKey e'.1.2.out.scriptPubKey :=
        congrArg AddressIndexKey.spending hkey
      obtain rfl := connectViews_inj hw hw' hview
      have hsame := (List.mk_mem_zipIdx_iff_getElem?.mp he).symm.trans
        (hplace ▸ List.mk_mem_zipIdx_iff_getElem?.mp he')
      rw [Option.some.inj hsame]
      simpa using hflag.symm
  · intro hbare
    refine mem_addressKeys.mpr ⟨w, hw, .inr ⟨e, he, ha, ?_⟩⟩
    rw [hbare]
    rfl

theorem addressOf_of_bare {s : Script} (h : isPayToPublicKey s = true) : ∃ a, addressOf I s = some a := by
  rw [addressOf]
  split_ifs <;> exact ⟨_, rfl⟩

theorem address_restored_iff {m : AddressIndexKey → Option Int}
    (habove : ∀ k : AddressIndexKey, rest.length < k.blockHeight → m k = none) :
    eraseAddress P I rest b (writeBatch (addressRecords P I rest b) m) = m ↔
      ∀ w ∈ blockViews P rest b, ∀ e ∈ w.inputs, isPayToPublicKey e.1.2.out.scriptPubKey = false := by
  constructor
  · intro heq w hw e he
    by_contra hbare
    rw [Bool.not_eq_false] at hbare
    obtain ⟨a, ha⟩ := addressOf_of_bare hbare
    have hno : w.activityKey (rest.length + 1) a e.2 true ∉ addressKeys P I rest b := fun hmem => by
      rw [(inputKey_mem_addressKeys hw he ha).mp hmem] at hbare
      cases hbare
    have hrec : (w.activityKey (rest.length + 1) a e.2 true, some (-e.1.2.out.nValue)) ∈
        addressRecords P I rest b :=
      List.mem_flatMap.mpr ⟨w, hw, mem_connectAddress.mpr (.inl ⟨e, he, ha, rfl, rfl⟩)⟩
    -- the activity stays, and was not there before
    have hstays := congrFun heq (w.activityKey (rest.length + 1) a e.2 true)
    rw [eraseAddress_apply, if_neg hno, writeBatch_of_mem hrec fun x hx => addressRecords_unique hx hrec,
      habove _ (Nat.lt_succ_self rest.length)] at hstays
    cases hstays
  · intro hbare
    funext k
    rw [eraseAddress_apply]
    split_ifs with hmem
    · exact (habove k (by rw [addressKeys_height hmem]; exact Nat.lt_succ_self _)).symm
    rcases writeBatch_cases (addressRecords P I rest b) m k with ⟨-, hsame⟩ | ⟨x, hx, -⟩
    · exact hsame
    · -- every key that was recorded is erased
      obtain ⟨w, hw, hk⟩ := List.mem_flatMap.mp hx
      rcases mem_connectAddress.mp hk with ⟨e, he, ha, hkey, -⟩ | ⟨e, -, -, hkey, -⟩
      · rw [hkey] at hmem
        exact absurd ((inputKey_mem_addressKeys hw he ha).mpr (hbare w hw e he)) hmem
      · exact absurd (mem_addressKeys_of_received hx (by rw [hkey]; rfl)) hmem

theorem spent_restored_iff {m : OutPoint → Option SpentIndexValue}
    (hnone : ∀ e ∈ spentRecords P I rest b, m e.1 = none)
    (hrec : ∀ e ∈ spentRecords P I rest b, writeBatch (spentRecords P I rest b) m e.1 = e.2) :
    writeBatch (spentRecords P I rest b) m = m ↔
      ∀ w ∈ blockViews P rest b, w.inputs ≠ [] → w.tx.hash = 0 := by
  constructor
  · intro heq w hw hne
    obtain ⟨e, he⟩ := List.exists_mem_of_ne_nil _ hne
    have hmem : (e.1.1.prevout, spentValue I w.tx.hash e.2 (rest.length + 1) e.1.2.out) ∈
        spentRecords P I rest b :=
      List.mem_flatMap.mpr ⟨w, hw, mem_connectSpent.mpr ⟨e, he, rfl, rfl⟩⟩
    have hvalue := hrec _ hmem
    rw [heq, hnone _ hmem] at hvalue
    by_contra hhash
    rw [spentValue, if_neg hhash] at hvalue
    cases hvalue
  · intro hnull
    refine writeBatch_eq_self fun x hx => ?_
    obtain ⟨w, hw, hmem⟩ := List.mem_flatMap.mp hx
    obtain ⟨o, v⟩ := x
    obtain ⟨e, he, -, rfl⟩ := mem_connectSpent.mp hmem
    rw [hnone _ hx, spentValue, if_pos (hnull w hw (List.ne_nil_of_mem he))]

end

/-! ### Nodes -/

section
variable {P : ChainParams} {M : GovernanceParams} {keys : PubKeys} {I : IndexParams} {g : Int}
  {N : NodeState} {C : LeftOutChecks} {b : CBlock} {s s' : IndexedNode}
  (hmax : P.nMaxMoneyOut ≤ i64Max) (hmature : 0 < P.nCoinbaseMaturity) (hg : InI64 g)

theorem connectCall_connected (hi : ChainInv P g s.core.node)
    (h : connectCall P M keys I N C b s = (true, s')) :
    chainStep P keys s.core.node (.connect N b) = some s'.core.node ∧
      s'.indexes = writeIndexes I (s.core.node.chain.length + 1) (blockViews P s.core.node.chain b)
        s.indexes := by
  rw [connectCall] at h
  cases hc : connects P keys N C s.core.node b with
  | none =>
    rw [hc] at h
    cases h
  | some node =>
    rw [hc] at h
    obtain ⟨-, rfl⟩ := Prod.mk.inj h
    exact ⟨(calledActions_connected (M := M) hi hc).1, connectedIndexes_eq hi⟩

include hmax hmature hg

theorem spent_grounded {chain : List CBlock} {tip : ChainTip} (h : Replay P g chain tip)
    (hnd : (chainHashes chain).Nodup) (hon : I.fSpentIndex = true) :
    SpentInv (chainHashes chain) tip.coins (spentOf P I chain) (indexesOf P I chain).spent := by
  rw [spent_indexesOf hon]
  exact h.spent hmax hmature hg hnd

theorem Consistent.grounded (hi : Consistent P I g s) : Grounded P I g s.core.node s.indexes := by
  refine ⟨hi.chain, hi.hashes, hi.undo, fun hon => ?_, fun hon => ?_, fun hon => ?_⟩ <;> rw [hi.indexes]
  · exact unspent_indexesOf hon
  · exact address_indexesOf hon
  · exact (spent_grounded hmax hmature hg hi.chain.replay hi.hashes hon).recorded

theorem Consistent.connect (hi : Consistent P I g s)
    (hfits : connectFits s.core.node (.connect N b) = true)
    (hnew : (chainHashes (b :: s.core.node.chain)).Nodup)
    (h : connectCall P M keys I N C b s = (true, s')) :
    s'.core.node.chain = b :: s.core.node.chain ∧ Consistent P I g s' := by
  obtain ⟨hstep, hindexes⟩ := connectCall_connected hi.chain h
  obtain ⟨hchain, hground⟩ := (hi.grounded hmax hmature hg).connect hmax hmature hg hfits hnew hstep
  refine ⟨hchain, hground.chain, hground.hashes, hground.undo, ?_⟩
  rw [hindexes, hi.indexes, hchain]
  rfl

theorem Consistent.unrecorded {u : ChainTip} {undo : BlockUndo} {tip : ChainTip} (hi : Consistent P I g s)
    (hrest : Replay P g s.core.node.chain u) (hext : Extends P s.core.node.chain u b undo tip)
    (hnew : (chainHashes (b :: s.core.node.chain)).Nodup) (hon : I.fSpentIndex = true) :
    (∀ e ∈ spentRecords P I s.core.node.chain b, s.indexes.spent e.1 = none) ∧
      ∀ e ∈ spentRecords P I s.core.node.chain b,
        writeBatch (spentRecords P I s.core.node.chain b) s.indexes.spent e.1 = e.2 := by
  obtain ⟨undos, t, htxs, -, -, -⟩ := hext.connectTxs hrest
  have hu := (hrest.undoable hmax hmature hg hext).2
  obtain ⟨hnewtxs, hnd⟩ := newHashes_of_nodup hnew
  have hinv := spent_grounded hmax hmature hg hrest hnd hon
  rw [hrest.coins] at hinv
  rw [hi.indexes]
  refine ⟨fun e he => ?_, fun e he => ?_⟩
  · have hfresh := hinv.fresh hnewtxs hu htxs e he
    rw [spent_indexesOf hon, writeBatch_of_not_mem hfresh]
  · exact (hinv.connectTxs hnewtxs hu
      htxs).recorded e (List.mem_append_right _ he)

/-- **Connecting a block and disconnecting it again restores the indexes exactly if** it
spends nothing (with the spent index) and spends from no bare public key (with
the address index): for every consistent database state and every block that connects. -/
theorem indexes_restored_iff (hzc : ∀ n < 1073741824, networkUpgradeActive P.upgradeZC n = false)
    (hi : Consistent P I g s) (hfits : connectFits s.core.node (.connect N b) = true)
    (hnew : (chainHashes (b :: s.core.node.chain)).Nodup)
    (h : connectCall P M keys I N C b s = (true, s')) (Z : Zerocoins) :
    ∃ s'', disconnectCall P M keys I Z s' = (.ok, s'') ∧ s''.core.node.chain = s.core.node.chain ∧
      s''.indexes.unspent = s.indexes.unspent ∧
      (s''.indexes = s.indexes ↔ RestoresIndexes P I s.core.node.chain b) := by
  obtain ⟨hchain, hnext⟩ := hi.connect hmax hmature hg hfits hnew h
  have hground := hnext.grounded hmax hmature hg
  obtain ⟨t, undo, hundo, hrest, hext, hback, hviews, hlast, -⟩ :=
    hground.disconnect hmax hmature hg hzc keys Z hchain
  obtain ⟨-, hindexes⟩ := connectCall_connected hi.chain h
  have hcall : (disconnectCall P M keys I Z s').1 = .ok ∧
      (disconnectCall P M keys I Z s').2.core.node.chain = s.core.node.chain ∧
      (disconnectCall P M keys I Z s').2.indexes = revertIndexes I (s.core.node.chain.length + 1)
        (undoneViews keys s'.core.node) s'.indexes := by
    rw [disconnectCall]
    split
    · rename_i hnil
      rw [hchain] at hnil
      cases hnil
    · rename_i b' rest' hcons
      rw [hchain] at hcons
      obtain ⟨rfl, rfl⟩ := List.cons.inj hcons
      rw [hundo, hback]
      exact ⟨rfl, rfl, rfl⟩
  have hunspent : (disconnectCall P M keys I Z s').2.indexes.unspent = s.indexes.unspent := by
    rw [hcall.2.2]
    by_cases hon : I.fAddressIndex = true
    · rw [hlast.unspent hon, hi.indexes, unspent_indexesOf hon]
    · rw [hindexes, revertIndexes, writeIndexes]
      dsimp only
      rw [if_neg hon, if_neg hon]
  have haddress : (disconnectCall P M keys I Z s').2.indexes.address = s.indexes.address ↔
      (I.fAddressIndex = true → ∀ w ∈ blockViews P s.core.node.chain b, ∀ e ∈ w.inputs,
        isPayToPublicKey e.1.2.out.scriptPubKey = false) := by
    rw [hcall.2.2, hindexes, hviews]
    by_cases hon : I.fAddressIndex = true
    · rw [revertIndexes_address hon, writeIndexes_address hon]
      refine (address_restored_iff fun k hk => ?_).trans ⟨fun hbare _ => hbare, fun hbare => hbare hon⟩
      rw [hi.indexes]
      exact address_above hk
    · rw [revertIndexes, writeIndexes]
      dsimp only
      rw [if_neg hon, if_neg hon]
      exact ⟨fun _ honly => absurd honly hon, fun _ => rfl⟩
  have hspent : (disconnectCall P M keys I Z s').2.indexes.spent = s.indexes.spent ↔
      (I.fSpentIndex = true → ∀ w ∈ blockViews P s.core.node.chain b, w.inputs ≠ [] → w.tx.hash = 0) := by
    rw [hcall.2.2, hindexes, revertIndexes]
    dsimp only
    by_cases hon : I.fSpentIndex = true
    · obtain ⟨hnone, hrec⟩ := hi.unrecorded hmax hmature hg hrest hext hnew hon
      rw [writeIndexes_spent hon]
      exact (spent_restored_iff hnone hrec).trans ⟨fun hnull _ => hnull, fun hnull => hnull hon⟩
    · rw [writeIndexes]
      dsimp only
      rw [if_neg hon]
      exact ⟨fun _ honly => absurd honly hon, fun _ => rfl⟩
  refine ⟨(disconnectCall P M keys I Z s').2, Prod.ext hcall.1 rfl, hcall.2.1, hunspent, ?_⟩
  constructor
  · intro heq
    rw [heq] at haddress hspent
    exact ⟨haddress.mp rfl, hspent.mp rfl⟩
  · intro hkeeps
    have h₁ := haddress.mpr hkeeps.bareKeys
    have h₂ := hspent.mpr hkeeps.spends
    revert h₁ hunspent h₂
    obtain ⟨address, unspent, spent⟩ := (disconnectCall P M keys I Z s').2.indexes
    intro hunspent h₁ h₂
    dsimp only at hunspent h₁ h₂
    rw [hunspent, h₁, h₂]

end

/-! ### Nodes that only connected blocks -/

section
variable (P : ChainParams) (M : GovernanceParams) (keys : PubKeys) (I : IndexParams)

/-- Connect a block with new hashes. -/
def extendStep (s : IndexedNode) (e : NodeState × LeftOutChecks × CBlock) : Option IndexedNode :=
  if connectFits s.core.node (.connect e.1 e.2.2) && (chainHashes (e.2.2 :: s.core.node.chain)).Nodup &&
      (connectCall P M keys I e.1 e.2.1 e.2.2 s).1 then
    some (connectCall P M keys I e.1 e.2.1 e.2.2 s).2
  else none

variable {P M keys I} {g : Int} {s : IndexedNode} (hmax : P.nMaxMoneyOut ≤ i64Max)
  (hmature : 0 < P.nCoinbaseMaturity) (hg : InI64 g)

theorem Consistent.genesis : Consistent P I g (.genesis P M g) := by
  refine ⟨⟨.genesis, fun entry u hu => by cases hu⟩, List.nodup_nil, fun b rest hsuf => ?_, rfl⟩
  cases List.suffix_nil.mp hsuf

include hmax hmature hg

theorem run_consistent {es : List (NodeState × LeftOutChecks × CBlock)}
    (h : run (extendStep P M keys I) (.genesis P M g) es = some s) : Consistent P I g s := by
  refine run_invariant (fun s e s' hi hstep => ?_) .genesis h
  rw [extendStep] at hstep
  split_ifs at hstep with hok
  simp only [Bool.and_eq_true, decide_eq_true_eq] at hok
  cases hstep
  exact (hi.connect hmax hmature hg hok.1.1 hok.1.2 (Prod.ext hok.2 rfl)).2

end

/-! ### A coin of a bare key -/

/-- Ten blocks, the first of which pays a bare key. -/
def bareKeyChain : List (NodeState × LeftOutChecks × CBlock) :=
  (syncedNode, allPass, ⟨1, [⟨101, [⟨⟨0, 4294967295⟩, [1, 1]⟩], [⟨1000, keyScript⟩]⟩]⟩) ::
    (List.range 9).map fun k => (syncedNode, allPass, ⟨k + 2, [coinbaseOf (102 + k) 1000]⟩)

/-- Block 11 spends the coin. -/
def spendingBlock : CBlock :=
  ⟨11, [coinbaseOf 111 1000, ⟨200, [⟨⟨101, 0⟩, []⟩], [⟨900, keyHashScript⟩]⟩]⟩

/-- The key of that input's activity. -/
def spendingKey : AddressIndexKey := ⟨⟨1, 2 :: List.replicate 19 7⟩, 11, 1, 200, 0, true⟩

theorem mainParams_noZerocoin : ∀ n < 1073741824, networkUpgradeActive mainParams.upgradeZC n = false := by
  intro n hn
  simp only [networkUpgradeActive, mainParams, decide_eq_false_iff_not]
  omega

/-- A block with a coinbase only. -/
theorem indexes_restored_coinbase :
    ∃ s s' s'', run (extendStep mainParams testGovernance noKeys bothIndexes)
        (.genesis mainParams testGovernance 0) bareKeyChain = some s ∧
      connectCall mainParams testGovernance noKeys bothIndexes syncedNode allPass
        ⟨11, [coinbaseOf 111 1000]⟩ s = (true, s') ∧
      disconnectCall mainParams testGovernance noKeys bothIndexes noZerocoins s' = (.ok, s'') ∧
      s''.indexes = s.indexes := by
  have hrun : (run (extendStep mainParams testGovernance noKeys bothIndexes)
      (.genesis mainParams testGovernance 0) bareKeyChain).map (fun s =>
        ((connectCall mainParams testGovernance noKeys bothIndexes syncedNode allPass
            ⟨11, [coinbaseOf 111 1000]⟩ s).1,
          connectFits s.core.node (.connect syncedNode ⟨11, [coinbaseOf 111 1000]⟩),
          decide (chainHashes (⟨11, [coinbaseOf 111 1000]⟩ :: s.core.node.chain)).Nodup,
          (blockViews mainParams s.core.node.chain ⟨11, [coinbaseOf 111 1000]⟩).all fun w =>
            w.inputs.isEmpty)) =
      some (true, true, true, true) := by
    decide +kernel
  obtain ⟨s, hs, hvalue⟩ := Option.map_eq_some_iff.mp hrun
  obtain ⟨hcall, hvalue⟩ := Prod.mk.inj hvalue
  obtain ⟨hfits, hvalue⟩ := Prod.mk.inj hvalue
  obtain ⟨hnew, hviews⟩ := Prod.mk.inj hvalue
  have hempty : ∀ w ∈ blockViews mainParams s.core.node.chain ⟨11, [coinbaseOf 111 1000]⟩,
      w.inputs = [] := fun w hw => List.isEmpty_iff.mp (List.all_eq_true.mp hviews w hw)
  obtain ⟨s'', hdisconnect, -, -, hiff⟩ := indexes_restored_iff (by decide) (by decide)
    ⟨by decide, by decide⟩ mainParams_noZerocoin
    (run_consistent (by decide) (by decide) ⟨by decide, by decide⟩ hs) hfits (of_decide_eq_true hnew)
    (Prod.ext hcall rfl) noZerocoins
  refine ⟨s, _, s'', hs, Prod.ext hcall rfl, hdisconnect, hiff.mpr ⟨fun _ w hw e he => ?_,
    fun _ w hw hne => absurd (hempty w hw) hne⟩⟩
  rw [hempty w hw] at he
  cases he

/-- Block 11 is connected and disconnected: its activity stays in the address index, and
what it spent in the spent index. -/
theorem indexes_not_restored :
    ¬ ∀ (P : ChainParams) (M : GovernanceParams) (keys : PubKeys) (I : IndexParams) (g : Int)
      (N : NodeState) (C : LeftOutChecks) (Z : Zerocoins) (b : CBlock) (s s' s'' : IndexedNode),
      I.fAddressIndex = true → I.fSpentIndex = true → Consistent P I g s →
      connectCall P M keys I N C b s = (true, s') → disconnectCall P M keys I Z s' = (.ok, s'') →
      s''.indexes.address = s.indexes.address ∧ s''.indexes.spent = s.indexes.spent := by
  intro hall
  have hrun : (run (extendStep mainParams testGovernance noKeys bothIndexes)
      (.genesis mainParams testGovernance 0) bareKeyChain).map (fun s =>
        ((connectCall mainParams testGovernance noKeys bothIndexes syncedNode allPass
            spendingBlock s).1,
          (disconnectCall mainParams testGovernance noKeys bothIndexes noZerocoins
            (connectCall mainParams testGovernance noKeys bothIndexes syncedNode allPass
              spendingBlock s).2).1,
          (disconnectCall mainParams testGovernance noKeys bothIndexes noZerocoins
            (connectCall mainParams testGovernance noKeys bothIndexes syncedNode allPass
              spendingBlock s).2).2.indexes.address spendingKey,
          s.indexes.address spendingKey)) =
      some (true, .ok, some (-1000), none) := by
    decide +kernel
  obtain ⟨s, hs, hvalue⟩ := Option.map_eq_some_iff.mp hrun
  obtain ⟨hcall, hvalue⟩ := Prod.mk.inj hvalue
  obtain ⟨hdisconnect, hvalue⟩ := Prod.mk.inj hvalue
  obtain ⟨hafter, hbefore⟩ := Prod.mk.inj hvalue
  have hsame := hall mainParams testGovernance noKeys bothIndexes 0 syncedNode allPass noZerocoins
    spendingBlock s _ _ rfl rfl (run_consistent (by decide) (by decide) ⟨by decide, by decide⟩ hs)
    (Prod.ext hcall rfl) (Prod.ext hdisconnect rfl)
  rw [hsame.1, hbefore] at hafter
  cases hafter

end Rapids.Chain
