import Rapids.Chain.StakeInputs

/-!
# Rapids.Chain.StakeInputsSound

Which stored blocks have an unspent stake.

On the tip it is all of them: a coin of the active chain is unspent there, which is an
induction over its blocks and their transactions. On a fork the walk back shows that no
block above the split spends an input; then an input is unspent exactly if it was so at
the split, or if the fork creates it.
-/

namespace Rapids.Chain

open Rapids.Lib

/-! ### The coins of the active chain -/

section
variable {P : ChainParams} {nHeight : Nat} {tx : Transaction} {t t' : Tally} {undo : List Coin} {o : OutPoint}

theorem creates_of_mem_outKeys (h : o ∈ Coins.outKeys tx.hash 0 tx.vout) : tx.creates o = true := by
  obtain ⟨hhash, out, -, hout, hsp⟩ := Coins.mem_outKeys h
  rw [Nat.sub_zero] at hout
  rw [Transaction.creates, hhash, decide_eq_true rfl, Bool.true_and, hout, Option.any_some, hsp]
  rfl

/-- A coin after a transaction is created by it, or was there and is not spent by it. -/
theorem connectTx_haveCoin (h : connectTx P nHeight t tx = some (undo, t'))
    (ho : Coins.haveCoin t'.coins o = true) :
    tx.creates o = true ∨ (Coins.haveCoin t.coins o = true ∧ (tx.isCoinBase || !tx.hasInput o) = true) := by
  obtain ⟨-, -, hupdate, -, -⟩ := connectTx_cases h
  by_cases hkey : o ∈ Coins.outKeys tx.hash 0 tx.vout
  · exact .inl (creates_of_mem_outKeys hkey)
  right
  rw [Coins.haveCoin, Coins.accessCoin] at ho ⊢
  rcases updateCoins_eq_some hupdate with ⟨hcb, -, hadd⟩ | ⟨hcb, -, hadd⟩
  · rw [Coins.addCoinsFrom_find_ne hadd hkey] at ho
    exact ⟨ho, by rw [hcb, Bool.true_or]⟩
  · rw [Coins.addCoinsFrom_find_ne hadd hkey, spendInputs_find] at ho
    by_cases hspent : o ∈ tx.vin.map TxIn.prevout
    · rw [if_pos hspent] at ho
      cases ho
    · rw [if_neg hspent] at ho
      refine ⟨ho, ?_⟩
      have hnone : tx.hasInput o = false := by
        rw [Transaction.hasInput, List.any_eq_false]
        intro i hi hsame
        exact hspent (of_decide_eq_true hsame ▸ List.mem_map_of_mem hi)
      rw [hnone, Bool.not_false, Bool.or_true]

theorem connectTxs_haveCoin {txs : List Transaction} {undos : List (List Coin)} {v : Bool}
    (hv : Coins.haveCoin t.coins o = true → v = true) (h : connectTxs P nHeight txs t = some (undos, t'))
    (ho : Coins.haveCoin t'.coins o = true) : unspentAfter o txs v = true := by
  induction txs generalizing t undos v with
  | nil =>
    obtain ⟨-, rfl⟩ := Prod.mk.inj (Option.some.inj h)
    exact hv ho
  | cons tx rest ih =>
    obtain ⟨undo, t₁, undos', h1, h2, -⟩ := connectTxs_cons h
    refine ih (fun ho1 => ?_) h2
    show (tx.creates o || (v && (tx.isCoinBase || !tx.hasInput o))) = true
    rcases connectTx_haveCoin h1 ho1 with hcreates | ⟨hbefore, hkeeps⟩
    · rw [hcreates, Bool.true_or]
    · rw [hv hbefore, hkeeps, Bool.and_true, Bool.or_true]

/-- **A coin of the active chain is unspent at its tip.** -/
theorem unspentAt_of_haveCoin {chain : List CBlock} {s : ChainTip} (h : connectChain P chain = some s)
    (ho : Coins.haveCoin s.coins o = true) : unspentAt chain o = true := by
  induction chain generalizing s with
  | nil =>
    cases h
    cases ho
  | cons b rest ih =>
    obtain ⟨s₀, undo, hs0, hgen, hcore⟩ := connectChain_cons h
    obtain ⟨-, ⟨hgen', -⟩ | ⟨-, -, undos, t, htxs, -, -, rfl⟩⟩ := connectCore_cases hcore
    · exact absurd hgen' hgen
    · exact connectTxs_haveCoin (ih hs0) htxs ho

end

/-! ### Forks -/

theorem unspentAfter_of_no_input {o : OutPoint} {txs : List Transaction}
    (h : ∀ tx ∈ txs, tx.hasInput o = false) (v : Bool) :
    unspentAfter o txs v = (txs.any (fun tx => tx.creates o) || v) := by
  induction txs generalizing v with
  | nil => rfl
  | cons tx rest ih =>
    show unspentAfter o rest (tx.creates o || (v && (tx.isCoinBase || !tx.hasInput o))) = _
    rw [ih (fun x hx => h x (List.mem_cons_of_mem tx hx)), h tx List.mem_cons_self, Bool.not_false, Bool.or_true,
      Bool.and_true, List.any_cons]
    cases tx.creates o <;> cases rest.any (fun tx => tx.creates o) <;> rfl

namespace StakeNode

variable {P : ChainParams} {n : StakeNode P} {A : AcceptWorld} {parent : List CBlock} {b : CBlock}

theorem not_spendsAny {ins : List TxIn} (h : spendsAny ins b = false) {i : TxIn} (hi : i ∈ ins) :
    ∀ tx ∈ b.vtx, tx.hasInput i.prevout = false := by
  intro tx htx
  rw [spendsAny, List.any_eq_false] at h
  have hnone := h tx htx
  rw [Bool.not_eq_true, List.any_eq_false] at hnone
  exact Bool.not_eq_true _ ▸ hnone i hi

/-- **After the walk back** an input is unspent exactly if it was so at the split, or is
created above. -/
theorem forkWalk_unspent {ins : List TxIn} {readBlock : Nat} (h : n.forkWalk A ins readBlock parent = true)
    {i : TxIn} (hi : i ∈ ins) : unspentAt parent i.prevout = foundedAt n.chain parent i.prevout := by
  induction parent generalizing readBlock with
  | nil => rfl
  | cons b rest ih =>
    rw [foundedAt]
    by_cases hsplit : b :: rest <:+ n.chain
    · rw [if_pos hsplit]
    · have hoff : n.contains (b :: rest) = false := decide_eq_false hsplit
      rw [forkWalk, hoff, if_neg Bool.false_ne_true] at h
      rw [if_neg hsplit]
      split_ifs at h with hmax hspends hread
      rw [Bool.not_eq_true] at hspends
      rw [unspentAt, unspentAfter_of_no_input (not_spendsAny hspends hi), ih h]

theorem acceptContents_cases (n : StakeNode P) (A : AcceptWorld) (parent : List CBlock) (b : CBlock) :
    ((n.acceptContents A parent b).1 = false ∧ (n.acceptContents A parent b).2.haveData = n.haveData) ∨
      ((n.acceptContents A parent b).1 = true ∧
        (b.isProofOfStake = true → n.checkStakeInputs A parent b = true) ∧
        (n.acceptContents A parent b).2.haveData = fun e => e = b :: parent || n.haveData e) := by
  rw [acceptContents]
  by_cases hdata : n.haveData (b :: parent) = true
  · rw [if_pos hdata]
    exact .inl ⟨rfl, rfl⟩
  rw [if_neg hdata]
  by_cases hcheck : (!(checkBlock P A.node (parent.length + 1) b && A.contents (b :: parent))) = true
  · rw [if_pos hcheck]
    refine .inl ⟨rfl, ?_⟩
    split_ifs
    · rfl
    · rfl
  rw [if_neg hcheck]
  by_cases hstake : (b.isProofOfStake && !n.checkStakeInputs A parent b) = true
  · rw [if_pos hstake]
    exact .inl ⟨rfl, rfl⟩
  rw [if_neg hstake]
  by_cases hdisk : (!A.disk) = true
  · rw [if_pos hdisk]
    exact .inl ⟨rfl, rfl⟩
  rw [if_neg hdisk]
  refine .inr ⟨rfl, fun hpos => ?_, rfl⟩
  by_contra hfails
  rw [Bool.not_eq_true] at hfails
  rw [hpos, hfails] at hstake
  exact hstake rfl

theorem forkWalk_addEntry (entry : List CBlock) (ins : List TxIn) (readBlock : Nat) :
    (n.addEntry entry).forkWalk A ins readBlock parent = n.forkWalk A ins readBlock parent := by
  induction parent generalizing readBlock with
  | nil => rfl
  | cons b rest ih =>
    rw [forkWalk, forkWalk, ih]
    rfl

theorem checkStakeInputs_addEntry (entry : List CBlock) :
    (n.addEntry entry).checkStakeInputs A parent b = n.checkStakeInputs A parent b := by
  rw [checkStakeInputs, checkStakeInputs, forkWalk_addEntry]
  rfl

theorem acceptBlock_cases (n : StakeNode P) (A : AcceptWorld) (parent : List CBlock) (b : CBlock) :
    ((n.acceptBlock A parent b).1 = false ∧ (n.acceptBlock A parent b).2.haveData = n.haveData) ∨
      ((n.acceptBlock A parent b).1 = true ∧
        (b.isProofOfStake = true → n.checkStakeInputs A parent b = true) ∧
        (n.acceptBlock A parent b).2.haveData = fun e => e = b :: parent || n.haveData e) := by
  rw [acceptBlock]
  split_ifs
  · exact .inl ⟨rfl, rfl⟩
  · exact .inl ⟨rfl, rfl⟩
  · exact .inl ⟨rfl, rfl⟩
  · exact .inl ⟨rfl, rfl⟩
  · exact acceptContents_cases n A parent b
  · exact .inl ⟨rfl, rfl⟩
  · have hcases := acceptContents_cases (n.addEntry (b :: parent)) A parent b
    rw [checkStakeInputs_addEntry] at hcases
    exact hcases

/-- **The stake of a block that passes its checks is unspent exactly if it is founded.** -/
theorem checkStakeInputs_iff (h : n.checkStakeInputs A parent b = true) :
    StakeUnspent parent b ↔ n.founded parent b = true := by
  rw [checkStakeInputs, Bool.and_eq_true, Bool.and_eq_true, List.all_eq_true] at h
  obtain ⟨⟨-, hwalk⟩, hcoins⟩ := h
  by_cases htip : n.chain = parent
  · -- on the tip the coins say so
    refine ⟨fun _ => ?_, fun _ i hi => ?_⟩
    · rw [founded, decide_eq_true htip, Bool.true_or]
    · have hcoin := hcoins i hi
      rw [decide_eq_false (not_not_intro htip), Bool.not_false, Bool.and_true] at hcoin
      rw [← htip]
      exact unspentAt_of_haveCoin n.connected hcoin
  · rw [decide_eq_true htip, Bool.not_true, Bool.false_or, Bool.and_eq_true] at hwalk
    rw [founded, decide_eq_false htip, Bool.false_or, List.all_eq_true]
    refine forall₂_congr fun i hi => ?_
    rw [forkWalk_unspent hwalk.2 hi]

/-! ### Runs -/

/-- A call of `AcceptBlock`, or another active chain: `ActivateBestChain` and its like may
lead to any that connects, and set any marks. -/
inductive Event (P : ChainParams)
  | accept (A : AcceptWorld) (parent : List CBlock) (b : CBlock)
  | activate (chain : List CBlock) (tip : ChainTip) (connected : connectChain P chain = some tip)
      (failed : List CBlock → Bool)

def step (n : StakeNode P) : Event P → StakeNode P
  | .accept A parent b => (n.acceptBlock A parent b).2
  | .activate chain tip connected failed =>
    { n with chain := chain, tip := tip, connected := connected, failed := failed }

/-- After the first start: the genesis block only. -/
def genesis (P : ChainParams) : StakeNode P where
  chain := []
  tip := ⟨∅, P.hashGenesisBlock, 0⟩
  connected := rfl
  known := fun e => e = []
  haveData := fun e => e = []
  failed := fun _ => false

/-- A proof-of-stake block that the call stores is founded. -/
def storesFounded (n : StakeNode P) : Event P → Prop
  | .accept A parent b =>
    (n.acceptBlock A parent b).1 = true → b.isProofOfStake = true → n.founded parent b = true
  | .activate _ _ _ _ => True

/-- Every stored proof-of-stake block has an unspent stake. -/
def AllUnspent (n : StakeNode P) : Prop :=
  ∀ parent b, n.haveData (b :: parent) = true → b.isProofOfStake = true → StakeUnspent parent b

theorem AllUnspent.step (hn : n.AllUnspent) {e : Event P} (he : n.storesFounded e) : (n.step e).AllUnspent := by
  cases e with
  | activate chain tip connected failed => exact hn
  | accept A parent b =>
    intro parent' b' hdata hpos
    rcases acceptBlock_cases n A parent b with ⟨-, hkept⟩ | ⟨hstored, hchecked, hkept⟩
    · exact hn parent' b' (hkept ▸ hdata) hpos
    · replace hdata : (decide (b' :: parent' = b :: parent) || n.haveData (b' :: parent')) = true :=
        (congrFun hkept (b' :: parent')).symm.trans hdata
      rcases Bool.or_eq_true_iff.mp hdata with hnew | hold
      · obtain ⟨rfl, rfl⟩ := List.cons.inj (of_decide_eq_true hnew)
        exact (checkStakeInputs_iff (hchecked hpos)).mpr (he hstored hpos)
      · exact hn parent' b' hold hpos

theorem run_allUnspent (hn : n.AllUnspent) {es : List (Event P)} (h : Along StakeNode.step storesFounded n es) :
    (es.foldl StakeNode.step n).AllUnspent := by
  induction es generalizing n with
  | nil => exact hn
  | cons e rest ih => exact ih (hn.step h.1) h.2

end StakeNode

/-- **The stake of stored blocks.** A proof-of-stake block that `AcceptBlock` stores has an
unspent stake exactly if that is founded, which on the tip it is; and in a run that stores
none but founded ones every stored one has an unspent stake. -/
theorem stored_stake_unspent (P : ChainParams) :
    (∀ (n : StakeNode P) A parent b, b.isProofOfStake = true → (n.acceptBlock A parent b).1 = true →
        (StakeUnspent parent b ↔ n.founded parent b = true)) ∧
      ∀ es, Along StakeNode.step StakeNode.storesFounded (StakeNode.genesis P) es →
        (es.foldl StakeNode.step (StakeNode.genesis P)).AllUnspent := by
  refine ⟨fun n A parent b hpos hstored => ?_, fun es hes => StakeNode.run_allUnspent ?_ hes⟩
  · rcases StakeNode.acceptBlock_cases n A parent b with ⟨hnot, -⟩ | ⟨-, hchecked, -⟩
    · rw [hstored] at hnot
      cases hnot
    · exact StakeNode.checkStakeInputs_iff (hchecked hpos)
  · intro parent b hdata
    have hnil : b :: parent = [] := of_decide_eq_true (show decide (b :: parent = []) = true from hdata)
    cases hnil

/-! ### Examples -/

/-- Ten blocks that pay to the miner, and one that spends what the first paid. -/
def spentChain : List CBlock :=
  ⟨11, [coinbaseOf 111 1000, ⟨211, [⟨⟨101, 0⟩, []⟩], [⟨900, [0x51]⟩]⟩]⟩ ::
    ((List.range 10).map fun k => ⟨k + 1, [coinbaseOf (101 + k) 1000]⟩).reverse

/-- A node with one block more. -/
def spentNode : StakeNode mainParams where
  chain := ⟨12, [coinbaseOf 112 1000]⟩ :: spentChain
  tip := (connectChain mainParams (⟨12, [coinbaseOf 112 1000]⟩ :: spentChain)).get (by decide +kernel)
  connected := (Option.some_get _).symm
  known := fun e => e <:+ ⟨12, [coinbaseOf 112 1000]⟩ :: spentChain
  haveData := fun e => e <:+ ⟨12, [coinbaseOf 112 1000]⟩ :: spentChain
  failed := fun _ => false

/-- A block that stakes an output. -/
def stakingBlock (o : OutPoint) : CBlock :=
  ⟨1000, [⟨500, [⟨⟨0, 4294967295⟩, [1, 1]⟩], [⟨0, []⟩]⟩, ⟨501, [⟨o, []⟩], [⟨0, []⟩, ⟨1000, [0x51]⟩]⟩]⟩

/-- Every transaction is a coinbase, of the block that spends the first one. -/
def plainAccept : AcceptWorld where
  node := syncedNode
  work := fun _ => true
  getTransaction := fun hash => some (coinbaseOf hash 1000, some spentChain)
  kernel := fun _ _ => true
  header := fun _ => true
  contents := fun _ => true
  corruption := fun _ => false
  readable := fun _ => true
  maxReorg := 100
  disk := true

/-- A fork whose block stakes a coin of the common chain. -/
theorem stored_stake_unspent_fork : StakeUnspent spentChain (stakingBlock ⟨102, 0⟩) :=
  ((stored_stake_unspent mainParams).1 spentNode plainAccept spentChain (stakingBlock ⟨102, 0⟩)
    (by decide +kernel) (by decide +kernel)).mpr (by decide +kernel)

/-- A fork whose block stakes a coin that the common chain has spent. -/
theorem spent_stake_stored :
    ¬ ∀ (P : ChainParams) (n : StakeNode P) A parent b, b.isProofOfStake = true →
      (n.acceptBlock A parent b).1 = true → StakeUnspent parent b := by
  intro hall
  have hunspent := hall mainParams spentNode plainAccept spentChain (stakingBlock ⟨101, 0⟩) (by decide +kernel)
    (by decide +kernel) ⟨⟨101, 0⟩, []⟩ (by decide +kernel)
  revert hunspent
  decide +kernel

/-- A fork whose block stakes a coin of the other branch only. -/
example : (spentNode.acceptBlock plainAccept spentChain (stakingBlock ⟨112, 0⟩)).1 = true ∧
    unspentAt spentChain ⟨112, 0⟩ = false := by
  decide +kernel

end Rapids.Chain
