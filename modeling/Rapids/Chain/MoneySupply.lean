import Mathlib.Algebra.Order.BigOperators.Group.List
import Rapids.Chain.Supply

/-!
# Rapids.Chain.MoneySupply

**The supply over whole runs** of connecting and disconnecting blocks.

An index entry is the list of blocks from it down to the genesis block, so undo
records are kept by that list and connecting a block a second time finds the
records of the first time. Since disconnecting undoes connecting, the state is
at any time the one that replaying the active chain leads to (`Replay`), whatever
was connected and disconnected before. The supply of a replayed chain is an
induction over the chain (`Replay.balanced`).
-/

namespace Rapids.Chain

open Rapids.Lib

variable {b : CBlock}

/-! ### Runs -/

/-- The chain state database. -/
structure ChainState where
  /-- The active chain above the genesis block, the tip first. -/
  chain : List CBlock
  tip : ChainTip
  /-- The undo records of an index entry. -/
  undo : List CBlock → Option BlockUndo

/-- The hash of an index entry. -/
def tipHash (P : ChainParams) : List CBlock → Nat
  | [] => P.hashGenesisBlock
  | b :: _ => b.hash

/-- The state after the genesis block. -/
def ChainState.genesis (P : ChainParams) (supply : Int) : ChainState :=
  ⟨[], ⟨∅, P.hashGenesisBlock, supply⟩, fun _ => none⟩

/-- `ConnectBlock` writes undo records only where the index entry has none. -/
def storeUndo (store : List CBlock → Option BlockUndo) (entry : List CBlock)
    (undo : Option BlockUndo) : List CBlock → Option BlockUndo :=
  fun e => if e = entry ∧ store e = none then undo else store e

/-- A call that connects or disconnects the tip. -/
inductive ChainEvent
  | connect (N : NodeState) (b : CBlock)
  | disconnect (Z : Zerocoins)

/-- A successful call. The index entry with the hash of the genesis block is the
genesis block, so no other block has it. -/
def chainStep (P : ChainParams) (keys : PubKeys) (s : ChainState) : ChainEvent → Option ChainState
  | .connect N b =>
    if b.hash = P.hashGenesisBlock then none
    else
      (connectBlock P N (s.chain.length + 1) (tipHash P s.chain) b s.tip).map fun r =>
        ⟨b :: s.chain, r.2, storeUndo s.undo (b :: s.chain) r.1⟩
  | .disconnect Z =>
    match s.chain with
    | [] => none
    | b :: rest =>
      match disconnectBlock P keys Z (rest.length + 1) (tipHash P rest) (s.undo (b :: rest)) b
        s.tip with
      | (.ok, tip) => some ⟨rest, tip, s.undo⟩
      | _ => none

/-- The condition on a block: what its coinbase and its coinstakes pay out fits
64 bits, and its height fits the undo records. -/
def connectFits (s : ChainState) : ChainEvent → Bool
  | .connect _ b =>
    generated b.vtx < 9223372036854775808 && s.chain.length + 1 < 1073741824
  | .disconnect _ => true

/-- The sum of `GetBlockValue(height - 1)` over a chain. -/
def rewardLimit : List CBlock → Int
  | [] => 0
  | _ :: rest => getBlockValue rest.length + rewardLimit rest

/-- The unspendable outputs of a chain. -/
def unspendableChain (chain : List CBlock) : Int := (chain.map fun b => unspendableIn b.vtx).sum

/-! ### Replaying a chain -/

/-- A block, checked by some node and meeting the condition, extends a chain. -/
structure Extends (P : ChainParams) (rest : List CBlock) (s : ChainTip) (b : CBlock)
    (undo : BlockUndo) (s' : ChainTip) : Prop where
  checked : ∃ N, checkBlock P N (rest.length + 1) b = true
  fits : generated b.vtx < 9223372036854775808
  height : rest.length + 1 < 1073741824
  core : connectCore P (rest.length + 1) (tipHash P rest) b s = some (some undo, s')

/-- The tip that connecting the blocks of a chain one by one leads to. -/
inductive Replay (P : ChainParams) (g : Int) : List CBlock → ChainTip → Prop
  | genesis : Replay P g [] ⟨∅, P.hashGenesisBlock, g⟩
  | connect {rest : List CBlock} {s s' : ChainTip} {b : CBlock} {undo : BlockUndo}
      (hrest : Replay P g rest s) (hext : Extends P rest s b undo s') : Replay P g (b :: rest) s'

theorem Replay.unique {P : ChainParams} {g : Int} {chain : List CBlock} {s s' : ChainTip}
    (h : Replay P g chain s) (h' : Replay P g chain s') : s = s' := by
  induction h generalizing s' with
  | genesis =>
    cases h'
    rfl
  | connect hrest hext ih =>
    cases h' with
    | connect hrest' hext' =>
      obtain rfl := ih hrest'
      have hcore := hext.core.symm.trans hext'.core
      exact (Prod.mk.inj (Option.some.inj hcore)).2

/-- What holds of a replayed chain. -/
structure Balanced (g : Int) (chain : List CBlock) (s : ChainTip) : Prop where
  stored : Coins.Stored s.coins
  limit : Coins.totalValue s.coins ≤ rewardLimit chain
  supply : s.nMoneySupply = toI64 (g + (Coins.totalValue s.coins + unspendableChain chain))

theorem rewardLimit_le (chain : List CBlock) :
    rewardLimit chain ≤ 17835000 * chain.length + if 2 ≤ chain.length then 1000000000000000 else 0 := by
  induction chain with
  | nil => simp [rewardLimit]
  | cons b rest ih =>
    simp only [rewardLimit, getBlockValue, coin, List.length_cons] at ih ⊢
    split_ifs at ih ⊢ <;> omega

section
variable {P : ChainParams} {g : Int}

theorem checkOutputs_le {cold : Bool} {tx : Transaction} {outs : List TxOut} {acc : Int}
    (h : checkOutputs P cold tx outs acc = true) : ∀ o ∈ outs, o.nValue ≤ P.nMaxMoneyOut := by
  induction outs generalizing acc with
  | nil => simp
  | cons o rest ih =>
    simp only [checkOutputs, Bool.and_eq_true, decide_eq_true_eq] at h
    obtain ⟨⟨⟨⟨-, hle⟩, -⟩, -⟩, hrest⟩ := h
    intro x hx
    rcases List.mem_cons.mp hx with rfl | hx
    · exact hle
    · exact ih hrest x hx

theorem checkBlock_checked (hmax : P.nMaxMoneyOut ≤ i64Max) {N : NodeState} {nHeight : Nat} (h : checkBlock P N nHeight b = true) : ∀ tx ∈ b.vtx, Checked tx := by
  obtain ⟨cold, htxs⟩ := checkBlock_transactions h
  intro tx htx
  have hle := htxs tx htx
  simp only [checkTransaction, Bool.and_eq_true] at hle
  exact ⟨checkTransaction_nonneg (htxs tx htx),
    fun o ho => (checkOutputs_le hle.1.1.2 o ho).trans hmax, checkTransaction_nodup (htxs tx htx)⟩

theorem le_totalOut {outs : List TxOut} (h : ∀ o ∈ outs, 0 ≤ o.nValue) {o : TxOut} (ho : o ∈ outs) :
    o.nValue ≤ totalOut outs := by
  induction outs with
  | nil => simp at ho
  | cons o' rest ih =>
    have hrest := fun x hx => h x (List.mem_cons_of_mem o' hx)
    rw [totalOut_cons]
    rcases List.mem_cons.mp ho with rfl | hmem
    · have := totalOut_nonneg hrest
      omega
    · have h' := h o' (.head _)
      have := ih hrest hmem
      omega

theorem generated_bounds {txs : List Transaction} (h : ∀ tx ∈ txs, Checked tx) :
    0 ≤ generated txs ∧ ∀ tx ∈ txs, tx.generates = true → totalOut tx.vout ≤ generated txs := by
  induction txs with
  | nil => simp [generated]
  | cons tx rest ih =>
    obtain ⟨hnn, hle⟩ := ih fun x hx => h x (List.mem_cons_of_mem tx hx)
    have htx := totalOut_nonneg (h tx (.head _)).nonneg
    have hcons : generated (tx :: rest) =
        (if tx.generates then totalOut tx.vout else 0) + generated rest := by
      simp [generated]
    rw [hcons]
    refine ⟨by split_ifs <;> omega, fun x hx hgen => ?_⟩
    rcases List.mem_cons.mp hx with rfl | hx
    · rw [if_pos hgen]
      omega
    · have := hle x hx hgen
      split_ifs <;> omega

variable (hmax : P.nMaxMoneyOut ≤ i64Max) (hmature : 0 < P.nCoinbaseMaturity)
include hmax hmature

/-- A block that extends a balanced chain can be undone, and the chain stays
balanced. -/
theorem Balanced.extend {rest : List CBlock} {s s' : ChainTip} {undo : BlockUndo}
    (hb : Balanced g rest s) (he : Extends P rest s b undo s') :
    Undoable (rest.length + 1) b.vtx ∧ Balanced g (b :: rest) s' := by
  obtain ⟨N, hcheck⟩ := he.checked
  have hc := checkBlock_checked hmax hcheck
  obtain ⟨-, ⟨-, hnone, -⟩ | ⟨-, -, undos, t, htxs, hreward, -, rfl⟩⟩ := connectCore_cases he.core
  · cases hnone
  have hproper := hb.stored.proper
  obtain ⟨staked, fees, m⟩ := connectTxs_moves hmax hmature hproper hc htxs
  obtain ⟨hgen, hgenLe⟩ := generated_bounds hc
  have hsmall := rewardLimit_le rest
  have hlimit := hb.limit
  have hheight := he.height
  obtain ⟨hmint, hbound⟩ :=
    checkReward_limits hproper m (by omega) he.fits hgen hreward
  have hvalue : getBlockValue (rest.length + 1 - 1) ≤ 1000000000000000 := by
    rw [getBlockValue]
    split_ifs <;> decide
  have hundo : Undoable (rest.length + 1) b.vtx := by
    refine ⟨fun tx htx => ⟨by omega, hheight, (hc tx htx).nonneg, fun o ho => ?_⟩,
      fun tx htx => (hc tx htx).nodup⟩
    have ho' := le_totalOut (hc tx htx).nonneg ho
    cases hg : tx.generates with
    | true =>
      have := hgenLe tx htx hg
      have := m.fees_nonneg
      omega
    | false =>
      have := m.outputs tx htx hg
      have hripe := hproper.ripe_le_total (rest.length + 1)
      dsimp only at this
      omega
  refine ⟨hundo, (connectTxs_stored hb.stored hundo htxs).1, ?_, ?_⟩
  · have hunsp : 0 ≤ unspendableIn b.vtx := by
      rw [unspendableIn]
      refine List.sum_nonneg fun x hx => ?_
      obtain ⟨tx, htx, rfl⟩ := List.mem_map.mp hx
      exact unspendableOut_nonneg (hc tx htx).nonneg
    have := m.total
    simp only [rewardLimit, Nat.add_sub_cancel] at hmint ⊢
    dsimp only at this ⊢
    omega
  · have := m.total
    rw [m.mint, hb.supply, toI64_add_toI64, toI64_toI64_add]
    simp only [unspendableChain, List.map_cons, List.sum_cons] at this ⊢
    congr 1
    omega

theorem Replay.balanced {chain : List CBlock} {s : ChainTip} (hg : InI64 g)
    (h : Replay P g chain s) : Balanced g chain s := by
  induction h with
  | genesis =>
    refine ⟨fun o c hc => by simp at hc, by simp [Coins.totalValue, Coins.sumCoins, rewardLimit], ?_⟩
    simp only [Coins.totalValue, Coins.sumCoins, unspendableChain, OrdMap.sumBy_empty, List.map_nil,
      List.sum_nil, Int.add_zero]
    exact (toI64_of_inI64 hg).symm
  | connect hrest hext ih => exact (ih.extend hmax hmature hext).2

/-! ### Runs replay their chain -/

/-- The state is the replayed active chain, and undo records are those that
replaying the chain of their entry writes. -/
structure ChainInv (P : ChainParams) (g : Int) (s : ChainState) : Prop where
  replay : Replay P g s.chain s.tip
  records : ∀ entry u, s.undo entry = some u →
    ∃ b rest t t', entry = b :: rest ∧ Replay P g rest t ∧ Extends P rest t b u t'

variable {keys : PubKeys} {s s' : ChainState}

omit hmax hmature in
theorem connect_inv {N : NodeState} (h : ChainInv P g s)
    (hfits : connectFits s (.connect N b) = true)
    (hstep : chainStep P keys s (.connect N b) = some s') : ChainInv P g s' := by
  simp only [connectFits, Bool.and_eq_true, decide_eq_true_eq] at hfits
  simp only [chainStep] at hstep
  split_ifs at hstep with hgen
  rw [Option.map_eq_some_iff] at hstep
  obtain ⟨⟨undo, tip⟩, hconnect, rfl⟩ := hstep
  unfold connectBlock at hconnect
  split_ifs at hconnect with hcheck
  obtain ⟨-, ⟨hgen', -⟩ | ⟨-, -, undos, t, -, -, rfl, -⟩⟩ := connectCore_cases hconnect
  · exact absurd hgen' hgen
  have hext : Extends P s.chain s.tip b undos.tail tip := ⟨⟨N, hcheck⟩, hfits.1, hfits.2, hconnect⟩
  refine ⟨h.replay.connect hext, fun entry u hu => ?_⟩
  simp only [storeUndo] at hu
  split_ifs at hu with hnew
  · cases hu
    exact ⟨b, s.chain, s.tip, tip, hnew.1, h.replay, hext⟩
  · exact h.records entry u hu

omit hmax hmature in
theorem ChainInv.top {rest : List CBlock} {n : ChainState} (hi : ChainInv P g n)
    (hchain : n.chain = b :: rest) :
    ∃ t undo, Replay P g rest t ∧ Extends P rest t b undo n.tip ∧
      ∀ u, n.undo (b :: rest) = some u → u = undo := by
  have hreplay := hi.replay
  rw [hchain] at hreplay
  cases hreplay with
  | @connect _ t _ _ undo hrest hext =>
    refine ⟨t, undo, hrest, hext, fun u hu => ?_⟩
    obtain ⟨b', rest', t', _, hentry, hrest', hext'⟩ := hi.records _ u hu
    obtain ⟨rfl, rfl⟩ := List.cons.inj hentry
    obtain rfl := hrest.unique hrest'
    have hcore := hext'.core.symm.trans hext.core
    exact Option.some.inj (Prod.mk.inj (Option.some.inj hcore)).1

section
variable (hg : InI64 g) (hzc : ∀ n < 1073741824, networkUpgradeActive P.upgradeZC n = false)
include hg hzc

theorem ChainInv.back
    (keys : PubKeys) (Z : Zerocoins) {rest : List CBlock} {undo : BlockUndo} (hi : ChainInv P g s)
    (hchain : s.chain = b :: rest) (hundo : s.undo (b :: rest) = some undo) :
    ∃ t, Replay P g rest t ∧ Extends P rest t b undo s.tip ∧
      disconnectBlock P keys Z (rest.length + 1) (tipHash P rest) (some undo) b s.tip = (.ok, t) := by
  obtain ⟨t, u, hrest, hext, hrecord⟩ := hi.top hchain
  obtain rfl := hrecord undo hundo
  have hbal := hrest.balanced hmax hmature hg
  obtain ⟨N, hcheck⟩ := hext.checked
  obtain ⟨cb, txs, hvtx, hcb, -⟩ := checkBlock_vtx hcheck
  exact ⟨t, hrest, hext, disconnectBlock_connectCore keys Z hvtx hcb (hbal.extend hmax hmature hext).1
    hbal.stored (hbal.supply ▸ inI64_toI64 _) (hzc _ hext.height) hext.core⟩

theorem disconnect_inv
    {Z : Zerocoins}
    (h : ChainInv P g s) (hstep : chainStep P keys s (.disconnect Z) = some s') :
    ChainInv P g s' := by
  simp only [chainStep] at hstep
  cases hchain : s.chain with
  | nil =>
    rw [hchain] at hstep
    cases hstep
  | cons b rest =>
    rw [hchain] at hstep
    cases hundo : s.undo (b :: rest) with
    | none => simp [hundo, disconnectBlock] at hstep
    | some undo =>
      obtain ⟨t, hrest, -, hback⟩ := h.back hmax hmature hg hzc keys Z hchain hundo
      simp only [hundo, hback, Option.some.injEq] at hstep
      subst hstep
      exact ⟨hrest, h.records⟩

theorem run_replays
    {es : List ChainEvent}
    (h : run (guarded connectFits (chainStep P keys)) (ChainState.genesis P g) es = some s) :
    ChainInv P g s := by
  have hinit : ChainInv P g (ChainState.genesis P g) :=
    ⟨.genesis, fun entry u hu => by simp [ChainState.genesis] at hu⟩
  refine run_invariant (fun s e s' hs hstep => ?_) hinit h
  obtain ⟨hfits, hstep⟩ := guarded_eq_some.mp hstep
  cases e with
  | connect N b => exact connect_inv hs hfits hstep
  | disconnect Z => exact disconnect_inv hmax hmature hg hzc hs hstep

end

end

/-- The supply invariant on mainnet: in every run of connections and disconnections
whose blocks generate an amount below `2^63` at heights below `2^30`, the unspent
coins are worth at most the rewards of the active chain, and the money supply
counts them and the unspendable outputs. -/
theorem supply_limited {keys : PubKeys} {g : Int} (hg : InI64 g) {es : List ChainEvent}
    {s : ChainState}
    (h : run (guarded connectFits (chainStep mainParams keys)) (ChainState.genesis mainParams g) es =
      some s) :
    Coins.totalValue s.tip.coins ≤ rewardLimit s.chain ∧
      toI64 (s.tip.nMoneySupply - g) =
        toI64 (Coins.totalValue s.tip.coins + unspendableChain s.chain) := by
  have hzc : ∀ n < 1073741824, networkUpgradeActive mainParams.upgradeZC n = false := by
    intro n hn
    simp only [networkUpgradeActive, mainParams, decide_eq_false_iff_not]
    omega
  have hbal := (run_replays (by decide) (by decide) hg hzc h).replay.balanced (by decide) (by decide) hg
  refine ⟨hbal.limit, ?_⟩
  rw [hbal.supply, toI64_toI64_sub]
  congr 1
  omega

/-! ### A run within the limit, and one beyond it -/

/-- A coinbase with a hash and one output. -/
def coinbaseOf (hash : Nat) (value : Int) : Transaction :=
  ⟨hash, [⟨⟨0, 4294967295⟩, [1, 1]⟩], [⟨value, [0x51]⟩]⟩

/-- A coinstake that spends an output and pays out a value. -/
def coinstakeOf (hash : Nat) (prevout : OutPoint) (value : Int) : Transaction :=
  ⟨hash, [⟨prevout, []⟩], [⟨0, []⟩, ⟨value, [0x51]⟩]⟩

/-- Block `k` with a coinbase only, transaction `100 + k`. -/
def minedBlock (k : Nat) : ChainEvent := .connect syncedNode ⟨k, [coinbaseOf (100 + k) 1000]⟩

/-- Two blocks are mined, one is disconnected and another one mined. -/
theorem supply_limited_remined :
    ∃ s, run (guarded connectFits (chainStep mainParams noKeys)) (ChainState.genesis mainParams 0)
        [minedBlock 1, minedBlock 2, .disconnect noZerocoins, minedBlock 3] = some s ∧
      Coins.totalValue s.tip.coins = 2000 ∧
      Coins.totalValue s.tip.coins ≤ rewardLimit s.chain ∧
      toI64 (s.tip.nMoneySupply - 0) =
        toI64 (Coins.totalValue s.tip.coins + unspendableChain s.chain) := by
  have hrun : (run (guarded connectFits (chainStep mainParams noKeys))
      (ChainState.genesis mainParams 0)
      [minedBlock 1, minedBlock 2, .disconnect noZerocoins, minedBlock 3]).map
        (fun s => Coins.totalValue s.tip.coins) = some 2000 := by
    decide +kernel
  obtain ⟨s, hs, htotal⟩ := Option.map_eq_some_iff.mp hrun
  exact ⟨s, hs, htotal, supply_limited ⟨by decide, by decide⟩ hs⟩

/-- **The active chain decides the chain state.** Two nodes on the same chain have the
same coins, best block and money supply, whatever each of them connected and disconnected. -/
theorem tip_of_chain {keys : PubKeys} {g : Int} (hg : InI64 g) {es es' : List ChainEvent}
    {s s' : ChainState}
    (h : run (guarded connectFits (chainStep mainParams keys)) (ChainState.genesis mainParams g) es = some s)
    (h' : run (guarded connectFits (chainStep mainParams keys)) (ChainState.genesis mainParams g) es' =
      some s') (hchain : s.chain = s'.chain) : s.tip = s'.tip := by
  have hzc : ∀ n < 1073741824, networkUpgradeActive mainParams.upgradeZC n = false := by
    intro n hn
    simp only [networkUpgradeActive, mainParams, decide_eq_false_iff_not]
    omega
  have hr := (run_replays (by decide) (by decide) hg hzc h).replay
  rw [hchain] at hr
  exact hr.unique (run_replays (by decide) (by decide) hg hzc h').replay

/-- One node left another branch for its chain, the other did not. -/
theorem tip_of_chain_remined :
    ∃ s s', run (guarded connectFits (chainStep mainParams noKeys)) (ChainState.genesis mainParams 0)
        [minedBlock 1, minedBlock 2, .disconnect noZerocoins, minedBlock 3] = some s ∧
      run (guarded connectFits (chainStep mainParams noKeys)) (ChainState.genesis mainParams 0)
        [minedBlock 1, minedBlock 3] = some s' ∧ s.tip = s'.tip := by
  have hruns : ((run (guarded connectFits (chainStep mainParams noKeys)) (ChainState.genesis mainParams 0)
      [minedBlock 1, minedBlock 2, .disconnect noZerocoins, minedBlock 3]).bind fun s =>
        (run (guarded connectFits (chainStep mainParams noKeys)) (ChainState.genesis mainParams 0)
          [minedBlock 1, minedBlock 3]).map fun s' => decide (s.chain = s'.chain)) = some true := by
    decide +kernel
  obtain ⟨s, hs, hrest⟩ := Option.bind_eq_some_iff.mp hruns
  obtain ⟨s', hs', hchain⟩ := Option.map_eq_some_iff.mp hrest
  exact ⟨s, s', hs, hs', tip_of_chain ⟨by decide, by decide⟩ hs hs' (of_decide_eq_true hchain)⟩

/-- The coins of the first coinbase, in five parts. -/
def splitTx : Transaction :=
  ⟨201, [⟨⟨101, 0⟩, []⟩], List.replicate 5 ⟨200, [0x51]⟩⟩

/-- A proof-of-work block: a coinbase, an ordinary transaction and two coinstakes,
which all pay out the largest amount. -/
def manyStakes (hash : Nat) (first : Transaction) (prev : Nat) : ChainEvent :=
  .connect syncedNode
    ⟨hash, [coinbaseOf (hash + 1) 3500000000000000000, first,
      coinstakeOf (hash + 2) ⟨201, prev⟩ 3500000000000000000,
      coinstakeOf (hash + 3) ⟨201, prev + 1⟩ 3500000000000000000]⟩

/-- The reward check passes when what a block generates exceeds 63 bits. After two
such blocks the coins are worth more than all rewards, also as a 64-bit sum. -/
theorem supply_not_limited :
    ∃ s, run (chainStep mainParams noKeys) (ChainState.genesis mainParams 0)
        ((List.range 10).map (fun k => minedBlock (k + 1)) ++
          [manyStakes 1000 splitTx 0,
            manyStakes 2000 ⟨301, [⟨⟨201, 4⟩, []⟩], [⟨200, [0x51]⟩]⟩ 2]) = some s ∧
      rewardLimit s.chain < Coins.totalValue s.tip.coins ∧
      rewardLimit s.chain < toI64 (Coins.totalValue s.tip.coins) := by
  have hrun : (run (chainStep mainParams noKeys) (ChainState.genesis mainParams 0)
      ((List.range 10).map (fun k => minedBlock (k + 1)) ++
        [manyStakes 1000 splitTx 0,
          manyStakes 2000 ⟨301, [⟨⟨201, 4⟩, []⟩], [⟨200, [0x51]⟩]⟩ 2])).map
        (fun s => decide (rewardLimit s.chain < Coins.totalValue s.tip.coins ∧
          rewardLimit s.chain < toI64 (Coins.totalValue s.tip.coins))) = some true := by
    decide +kernel
  obtain ⟨s, hs, hbeyond⟩ := Option.map_eq_some_iff.mp hrun
  exact ⟨s, hs, of_decide_eq_true hbeyond⟩

end Rapids.Chain
