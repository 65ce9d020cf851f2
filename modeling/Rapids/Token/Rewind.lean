import Rapids.Token.Reload

/-!
# Rapids.Token.Rewind

**Features across reorganisations.** When blocks are disconnected the token
layer only notes it (`mastercore_handler_disc_begin`); the next block that is
connected makes it rewind (`RewindDBsAndState`). Either everything is cleared,
parameters included, or the state saved after some block of the common chain is
restored, and then the blocks after it are scanned again.

The saved state does not hold the parameters and restoring does not reset them.
A node stays with the features of its chain (`features_follow_chain`) if every
restored block leaves no accepted feature packet behind it; and if packets are
handed over under their own height, which the last block of a round is only.
-/

namespace Rapids.Token

open Rapids.Lib

variable {w height h : Nat} {bs : List TokenBlock}

/-! ### Blocks -/

/-- What the token layer finds in a block. -/
inductive BlockTx
  | packet (tx : CMPTransaction) (env : TxEnv)
  | payment (sender : Address) (outputs : List (Address × Int))

/-- A feature packet names no property. -/
def BlockTx.isParsed : BlockTx → Bool
  | .packet tx _ => !tx.isFeaturePacket || tx.property == 0
  | .payment _ _ => true

def BlockTx.isFeaturePacket : BlockTx → Bool
  | .packet tx _ => tx.isFeaturePacket
  | .payment _ _ => false

/-- A block, as the token layer sees it. -/
structure TokenBlock where
  hash : Hash
  time : Nat
  vtx : List BlockTx
  parsed : ∀ t ∈ vtx, t.isParsed = true

/-- The call for a transaction, under the height it is handed over with. -/
def BlockTx.event (height : Nat) : BlockTx → Event
  | .packet tx env => .packet { tx with block := height } env
  | .payment sender outputs => .payment height sender outputs

/-- The calls for transactions; below the waterline they are ignored. -/
def txEvents (waterline height : Nat) (vtx : List BlockTx) : List Event :=
  if height < waterline then [] else vtx.map (BlockTx.event height)

/-- The calls of `msc_initial_scan` for one block. -/
def scanEvents (waterline height : Nat) (b : TokenBlock) : List Event :=
  .blockBegin height b.time b.hash :: txEvents waterline height b.vtx ++ [.blockEnd height b.time]

/-- The calls for blocks that follow height `height`, each under its own. -/
def scanChain (waterline : Nat) : Nat → List TokenBlock → List Event
  | _, [] => []
  | height, b :: rest =>
    scanEvents waterline (height + 1) b ++ scanChain waterline (height + 1) rest

/-- The calls for blocks that follow height `height` and are connected in one
round: every block begins, and then all transactions come under the last one. -/
def connectEvents (waterline height : Nat) (bs : List TokenBlock) : List Event :=
  (bs.mapIdx fun i b => Event.blockBegin (height + 1 + i) b.time b.hash) ++
    txEvents waterline (height + bs.length) (bs.flatMap TokenBlock.vtx) ++
    [.blockEnd (height + bs.length) ((bs.getLast?.map TokenBlock.time).getD 0)]

/-! ### Rewinding -/

/-- Process calls, while no assertion fails. -/
def handleAll (s : State) (es : List Event) : Option State := es.foldlM handle s

/-- `clear_all_state`; the thresholds of the fee cache are no part of it. -/
def clearAllState (s : State) : State :=
  { State.initial s.cfg with distributionThresholds := s.distributionThresholds }

/-- `RestoreInMemoryState`: `saved` is what the files and the databases rolled
back hold. Parameters, activations, alerts and frozen addresses stay. -/
def restoreState (s saved : State) : State :=
  { saved with
    cfg := s.cfg
    params := s.params
    distributionThresholds := s.distributionThresholds
    freezingEnabled := s.freezingEnabled
    frozen := s.frozen
    pendingActivations := s.pendingActivations
    completedActivations := s.completedActivations
    alerts := s.alerts }

/-- How a rewind ends: with a clear state (a freeze was rolled back, or no saved
state is left), or with the state saved after a block. -/
inductive Outcome
  | clear
  | restore (height : Nat) (saved : State)

/-- A node: its state, its active chain above the genesis block, and the two
variables of a rewind. `processed` is the chain its state is of. -/
structure ChainNode where
  state : State
  chain : List TokenBlock
  processed : List TokenBlock
  waterline : Nat
  reorgRecoveryMode : Bool

def ChainNode.initial (cfg : Config) : ChainNode where
  state := State.initial cfg
  chain := []
  processed := []
  waterline := (consensusParams cfg.network).genesisBlock
  reorgRecoveryMode := false

/-- `GENESIS_BLOCK` -/
def ChainNode.genesis (n : ChainNode) : Nat := (consensusParams n.state.cfg.network).genesisBlock

/-- `RewindDBsAndState` -/
def rewindDBsAndState (n : ChainNode) : Outcome → Option ChainNode
  | .clear => do
    let waterline := n.genesis - 1
    let s ← handleAll (clearAllState n.state)
      (scanChain waterline waterline (n.chain.drop waterline))
    return ⟨s, n.chain, n.chain, waterline, false⟩
  | .restore height saved =>
    if n.genesis ≤ height ∧ height ≤ n.chain.length then do
      let s ← handleAll (restoreState n.state saved) (scanChain height height (n.chain.drop height))
      return ⟨s, n.chain, n.chain, height, false⟩
    else none

/-- What happens to a chain. -/
inductive Change
  | disconnect
  | connect (bs : List TokenBlock) (outcome : Outcome)

/-- The first block that begins in recovery mode makes the node rewind. -/
def rewindIfNeeded (n : ChainNode) (outcome : Outcome) : Option ChainNode :=
  if n.reorgRecoveryMode then rewindDBsAndState n outcome else some n

def changeStep (n : ChainNode) : Change → Option ChainNode
  | .disconnect =>
    if n.chain = [] then none
    else some { n with chain := n.chain.dropLast, reorgRecoveryMode := true }
  | .connect bs outcome =>
    if bs = [] then none
    else do
      let n ← rewindIfNeeded n outcome
      let s ← handleAll n.state (connectEvents n.waterline n.chain.length bs)
      return { n with state := s, chain := n.chain ++ bs, processed := n.chain ++ bs }

/-- A node that only ever processed the blocks of a chain. -/
def freshState (cfg : Config) (chain : List TokenBlock) : Option State :=
  handleAll (State.initial cfg) (scanChain (consensusParams cfg.network).genesisBlock 0 chain)

/-! ### Packets of calls -/

@[simp] theorem packets_append (es es' : List Event) : packets (es ++ es') = packets es ++ packets es' := by
  induction es with
  | nil => rfl
  | cons e rest ih => cases e <;> simp [packets, ih]

theorem scanChain_append (w h : Nat) (bs cs : List TokenBlock) :
    scanChain w h (bs ++ cs) = scanChain w h bs ++ scanChain w (h + bs.length) cs := by
  induction bs generalizing h with
  | nil => rfl
  | cons b rest ih =>
    rw [List.cons_append, scanChain, scanChain, ih, List.append_assoc, List.length_cons]
    congr 3
    omega

theorem packets_scanChain_waterline {g : Nat} (hw : w ≤ h + 1) (hg : g ≤ h + 1) (bs : List TokenBlock) :
    packets (scanChain w h bs) = packets (scanChain g h bs) := by
  induction bs generalizing h with
  | nil => rfl
  | cons b rest ih =>
    rw [scanChain, scanChain, packets_append, packets_append, ih (by omega) (by omega)]
    simp [scanEvents, txEvents, if_neg (Nat.not_lt.mpr hw), if_neg (Nat.not_lt.mpr hg)]

theorem packets_scanChain_below {g : Nat} (hg : h + bs.length < g) :
    packets (scanChain g h bs) = [] := by
  induction bs generalizing h with
  | nil => rfl
  | cons b rest ih =>
    rw [List.length_cons] at hg
    rw [scanChain, packets_append, ih (by omega)]
    simp [scanEvents, txEvents, if_pos (show h + 1 < g by omega), packets]

/-- The feature packets among the calls. -/
def featurePackets (es : List Event) : List CMPTransaction :=
  (packets es).filter CMPTransaction.isFeaturePacket

@[simp] theorem featurePackets_append (es es' : List Event) :
    featurePackets (es ++ es') = featurePackets es ++ featurePackets es' := by
  rw [featurePackets, packets_append, List.filter_append]
  rfl

/-- Do the blocks hold a feature packet? -/
def hasFeatures (bs : List TokenBlock) : Bool := bs.any fun b => b.vtx.any BlockTx.isFeaturePacket

theorem featurePackets_event_nil {vtx : List BlockTx}
    (h : vtx.any BlockTx.isFeaturePacket = false) : featurePackets (vtx.map (BlockTx.event height)) = [] := by
  induction vtx with
  | nil => rfl
  | cons t rest ih =>
    rw [List.any_cons, Bool.or_eq_false_iff] at h
    have ih' := ih h.2
    cases t with
    | packet tx env =>
      have htx : CMPTransaction.isFeaturePacket { tx with block := height } = false := h.1
      simp only [featurePackets, List.map_cons, BlockTx.event, packets] at ih' ⊢
      rw [List.filter_cons_of_neg (by rw [htx]; simp)]
      exact ih'
    | payment sender outputs => exact ih'

theorem featurePackets_txEvents_nil {vtx : List BlockTx}
    (h : vtx.any BlockTx.isFeaturePacket = false) : featurePackets (txEvents w height vtx) = [] := by
  unfold txEvents
  split
  · rfl
  · exact featurePackets_event_nil h

theorem featurePackets_scanEvents (w height : Nat) (b : TokenBlock) :
    featurePackets (scanEvents w height b) = featurePackets (txEvents w height b.vtx) := by
  simp [featurePackets, scanEvents, packets]

theorem featurePackets_scanChain_nil (hf : hasFeatures bs = false) :
    featurePackets (scanChain w h bs) = [] := by
  induction bs generalizing h with
  | nil => rfl
  | cons b rest ih =>
    rw [hasFeatures, List.any_cons, Bool.or_eq_false_iff] at hf
    rw [scanChain, featurePackets_append, featurePackets_scanEvents, featurePackets_txEvents_nil hf.1,
      ih hf.2]
    rfl

theorem packets_blockBegins (bs : List TokenBlock) (f : Nat → TokenBlock → Event)
    (hf : ∀ i b, ∃ height time hash, f i b = .blockBegin height time hash) :
    packets (bs.mapIdx f) = [] := by
  induction bs generalizing f with
  | nil => rfl
  | cons b rest ih =>
    obtain ⟨height, time, hash, hb⟩ := hf 0 b
    rw [List.mapIdx_cons, hb]
    exact ih (fun i => f (i + 1)) fun i b => hf (i + 1) b

theorem featurePackets_connectEvents (w h : Nat) (bs : List TokenBlock) :
    featurePackets (connectEvents w h bs) =
      featurePackets (txEvents w (h + bs.length) (bs.flatMap TokenBlock.vtx)) := by
  have hbegin : featurePackets (bs.mapIdx fun i b => Event.blockBegin (h + 1 + i) b.time b.hash) = [] := by
    rw [featurePackets, packets_blockBegins bs _ fun i b => ⟨_, _, _, rfl⟩]
    rfl
  rw [connectEvents, featurePackets_append, featurePackets_append, hbegin]
  simp [featurePackets, packets]

theorem any_flatMap_vtx (h : hasFeatures bs = false) :
    (bs.flatMap TokenBlock.vtx).any BlockTx.isFeaturePacket = false := by
  rw [List.any_flatMap]
  exact h

/-- A round whose feature packets are all in its last block hands them over as a
scan would. -/
theorem featurePackets_connectEvents_eq {g : Nat} (hne : bs ≠ [])
    (hearly : hasFeatures bs.dropLast = false)
    (hlast : (w ≤ h + bs.length ↔ g ≤ h + bs.length) ∨ hasFeatures bs = false) :
    featurePackets (connectEvents w h bs) = featurePackets (scanChain g h bs) := by
  rcases hlast with hlast | hnone
  · obtain ⟨early, last, rfl⟩ : ∃ early last, bs = early ++ [last] :=
      ⟨bs.dropLast, bs.getLast hne, (List.dropLast_append_getLast hne).symm⟩
    rw [List.dropLast_concat] at hearly
    rw [featurePackets_connectEvents, scanChain_append, featurePackets_append,
      featurePackets_scanChain_nil hearly, List.nil_append, scanChain, scanChain, List.append_nil,
      featurePackets_scanEvents, List.flatMap_append]
    have hlen : h + (early ++ [last]).length = h + early.length + 1 := by simp; omega
    rw [hlen] at hlast ⊢
    unfold txEvents
    by_cases hw : h + early.length + 1 < w
    · have hg : h + early.length + 1 < g := by omega
      rw [if_pos hw, if_pos hg]
    · have hg : ¬ h + early.length + 1 < g := by omega
      rw [if_neg hw, if_neg hg, List.map_append, featurePackets_append,
        featurePackets_event_nil (any_flatMap_vtx hearly), List.nil_append]
      simp
  · rw [featurePackets_connectEvents, featurePackets_txEvents_nil (any_flatMap_vtx hnone),
      featurePackets_scanChain_nil hnone]

theorem rulePackets_filter (cfg : Config) (p : CConsensusParams) (txs : List CMPTransaction) :
    rulePackets cfg p (txs.filter CMPTransaction.isFeaturePacket) = rulePackets cfg p txs := by
  induction txs generalizing p with
  | nil => rfl
  | cons tx rest ih =>
    cases ht : tx.isFeaturePacket with
    | true =>
      rw [List.filter_cons_of_pos ht]
      exact ih _
    | false =>
      rw [List.filter_cons_of_neg (by simp [ht]), ih]
      unfold rulePackets
      rw [List.foldl_cons, rulePacket_of_not_feature cfg p ht]

theorem rulePackets_append (cfg : Config) (p : CConsensusParams) (txs txs' : List CMPTransaction) :
    rulePackets cfg p (txs ++ txs') = rulePackets cfg (rulePackets cfg p txs) txs' :=
  List.foldl_append

theorem rulePackets_of_none_accepted {cfg : Config} {p : CConsensusParams} {txs : List CMPTransaction}
    (h : acceptedPackets cfg p txs = []) : rulePackets cfg p txs = p := by
  induction txs with
  | nil => rfl
  | cons tx rest ih =>
    unfold acceptedPackets at h
    split at h
    · cases h
    · rename_i hacc
      have hp := rulePacket_refused (by simpa using hacc)
      rw [hp] at h
      unfold rulePackets
      rw [List.foldl_cons, hp]
      exact ih h

/-! ### Processing -/

theorem event_isParsed {t : BlockTx} (h : t.isParsed = true) :
    (t.event height).isParsed = true := by
  cases t with
  | packet tx env => exact h
  | payment sender outputs => rfl

theorem txEvents_isParsed {vtx : List BlockTx} (h : ∀ t ∈ vtx, t.isParsed = true) :
    ∀ e ∈ txEvents w height vtx, e.isParsed = true := by
  intro e he
  unfold txEvents at he
  split at he
  · cases he
  · obtain ⟨t, ht, rfl⟩ := List.mem_map.mp he
    exact event_isParsed (h t ht)

theorem scanChain_isParsed (w h : Nat) (bs : List TokenBlock) :
    ∀ e ∈ scanChain w h bs, e.isParsed = true := by
  induction bs generalizing h with
  | nil => exact fun _ he => absurd he List.not_mem_nil
  | cons b rest ih =>
    intro e he
    rcases List.mem_append.mp he with he | he
    · simp only [scanEvents, List.cons_append, List.mem_cons, List.mem_append, List.not_mem_nil,
        or_false] at he
      rcases he with rfl | he | rfl
      · rfl
      · exact txEvents_isParsed b.parsed e he
      · rfl
    · exact ih (h + 1) e he

theorem connectEvents_isParsed (w h : Nat) (bs : List TokenBlock) :
    ∀ e ∈ connectEvents w h bs, e.isParsed = true := by
  intro e he
  simp only [connectEvents, List.mem_append, List.mem_mapIdx, List.mem_singleton] at he
  rcases he with (⟨i, hi, rfl⟩ | he) | rfl
  · rfl
  · refine txEvents_isParsed (fun t ht => ?_) e he
    obtain ⟨b, -, hb⟩ := List.mem_flatMap.mp ht
    exact b.parsed t hb
  · rfl

theorem handleAll_rules {s s' : State} {es : List Event} (hz : NoneFrozen s)
    (hp : ∀ e ∈ es, e.isParsed = true) (h : handleAll s es = some s') :
    s'.cfg = s.cfg ∧ s'.params = rulePackets s.cfg s.params (featurePackets es) ∧ NoneFrozen s' := by
  have hfold : s'.cfg = s.cfg ∧ s'.params = es.foldl (ruleEvent s.cfg) s.params ∧ NoneFrozen s' := by
    induction es generalizing s with
    | nil =>
      cases h
      exact ⟨rfl, rfl, hz⟩
    | cons e rest ih =>
      unfold handleAll at h
      rw [List.foldlM_cons, do_eq_some] at h
      obtain ⟨s₁, h1, h2⟩ := h
      obtain ⟨hc, hpar, hz1⟩ := handle_rules hz (hp e (.head _)) h1
      obtain ⟨hc', hpar', hz'⟩ := ih hz1 (fun e he => hp e (.tail _ he)) h2
      rw [hc] at hc' hpar'
      exact ⟨hc', by rw [hpar', hpar]; rfl, hz'⟩
  rw [foldl_ruleEvent] at hfold
  rwa [featurePackets, rulePackets_filter]

/-! ### The parameters of a chain -/

section
variable (cfg : Config)

/-- The parameters a chain leads to. -/
def chainParams (chain : List TokenBlock) : CConsensusParams :=
  rulePackets cfg (consensusParams cfg.network)
    (featurePackets (scanChain (consensusParams cfg.network).genesisBlock 0 chain))

theorem chainParams_append (chain bs : List TokenBlock) :
    chainParams cfg (chain ++ bs) = rulePackets cfg (chainParams cfg chain)
      (featurePackets (scanChain (consensusParams cfg.network).genesisBlock chain.length bs)) := by
  unfold chainParams
  rw [scanChain_append, featurePackets_append, rulePackets_append, Nat.zero_add]

theorem chainParams_below {chain : List TokenBlock}
    (h : chain.length < (consensusParams cfg.network).genesisBlock) :
    chainParams cfg chain = consensusParams cfg.network := by
  unfold chainParams featurePackets
  rw [packets_scanChain_below (by omega)]
  rfl

theorem chainParams_drop {chain : List TokenBlock}
    (hw : (consensusParams cfg.network).genesisBlock ≤ w + 1) (hle : w ≤ chain.length) :
    rulePackets cfg (chainParams cfg (chain.take w)) (featurePackets (scanChain w w (chain.drop w))) =
      chainParams cfg chain := by
  conv_rhs => rw [← List.take_append_drop w chain]
  rw [chainParams_append, List.length_take, Nat.min_eq_left hle, featurePackets,
    packets_scanChain_waterline (Nat.le_succ w) hw]
  rfl

theorem freshState_params {chain : List TokenBlock} {s : State} (h : freshState cfg chain = some s) :
    s.params = chainParams cfg chain := by
  obtain ⟨-, hpar, -⟩ := handleAll_rules (initial_noneFrozen cfg) (scanChain_isParsed _ _ _) h
  exact hpar

end

/-! ### Nodes -/

/-- Changes that keep clear of what the rewind and the hooks do not handle: a
round has its feature packets in its last block, none at the height before
`GENESIS_BLOCK`; and a restored block is followed by no accepted one. -/
def okChange (n : ChainNode) : Change → Bool
  | .disconnect => true
  | .connect bs outcome =>
    !hasFeatures bs.dropLast &&
    (n.chain.length + bs.length + 1 != n.genesis || !hasFeatures bs) &&
    (!n.reorgRecoveryMode ||
      match outcome with
      | .clear => true
      | .restore height _ =>
        (acceptedPackets n.state.cfg (chainParams n.state.cfg (n.processed.take height))
          (featurePackets (scanChain height height (n.processed.drop height)))).isEmpty)

/-- What holds of a node along a run. -/
structure ChainNode.Inv (cfg : Config) (n : ChainNode) : Prop where
  config : n.state.cfg = cfg
  noneFrozen : NoneFrozen n.state
  params : n.state.params = chainParams cfg n.processed
  common : n.chain <+: n.processed
  synced : n.reorgRecoveryMode = false → n.processed = n.chain
  /-- Where the waterline is not `GENESIS_BLOCK`, it differs from it only below
  the tip or for the height before `GENESIS_BLOCK`. -/
  waterline : n.reorgRecoveryMode = false → n.waterline ≤ n.genesis ∧ n.genesis ≤ n.waterline + 1 ∨
    n.genesis ≤ n.waterline ∧ n.waterline ≤ n.chain.length

theorem genesisBlock_pos (network : Network) : 0 < (consensusParams network).genesisBlock := by
  cases network <;> decide

theorem ChainNode.initial_inv (cfg : Config) : (ChainNode.initial cfg).Inv cfg := by
  refine ⟨rfl, fun _ => rfl, ?_, List.prefix_rfl, fun _ => rfl, fun _ => .inl ⟨le_rfl, Nat.le_succ _⟩⟩
  have hnil : ([] : List TokenBlock).length < (consensusParams cfg.network).genesisBlock :=
    genesisBlock_pos cfg.network
  exact (chainParams_below cfg hnil).symm

section
variable {cfg : Config} {n n' : ChainNode}

theorem rewind_clear_inv (hi : n.Inv cfg) (h : rewindDBsAndState n .clear = some n') :
    n'.Inv cfg ∧ n'.chain = n.chain ∧ n'.reorgRecoveryMode = false := by
  simp only [rewindDBsAndState, do_eq_some, pure_eq_some] at h
  obtain ⟨s, hs, rfl⟩ := h
  have hcfg := hi.config
  obtain ⟨hc, hpar, hz⟩ := handleAll_rules (fun _ => rfl)
    (scanChain_isParsed _ _ _) hs
  have hpos := genesisBlock_pos cfg.network
  have hgen : n.genesis = (consensusParams cfg.network).genesisBlock := by rw [ChainNode.genesis, hcfg]
  have hc' : s.cfg = cfg := hc.trans hcfg
  have hparams : s.params = chainParams cfg n.chain := by
    rw [hpar, hgen]
    simp only [clearAllState, State.initial, hcfg]
    by_cases hle : (consensusParams cfg.network).genesisBlock - 1 ≤ n.chain.length
    · have hlen : (n.chain.take ((consensusParams cfg.network).genesisBlock - 1)).length <
          (consensusParams cfg.network).genesisBlock := by
        rw [List.length_take]
        omega
      rw [← chainParams_drop cfg (by omega) hle, chainParams_below cfg hlen]
    · rw [List.drop_eq_nil_of_le (by omega), chainParams_below cfg (by omega)]
      rfl
  refine ⟨⟨hc', hz, hparams, List.prefix_rfl, fun _ => rfl, fun _ => .inl ?_⟩, rfl, rfl⟩
  have hgen' : ChainNode.genesis ⟨s, n.chain, n.chain, n.genesis - 1, false⟩ = n.genesis := by
    rw [ChainNode.genesis, hc', hgen]
  rw [hgen']
  dsimp only
  omega

theorem rewind_restore_inv {saved : State} (hi : n.Inv cfg)
    (hok : acceptedPackets n.state.cfg (chainParams n.state.cfg (n.processed.take height))
      (featurePackets (scanChain height height (n.processed.drop height))) = [])
    (h : rewindDBsAndState n (.restore height saved) = some n') :
    n'.Inv cfg ∧ n'.chain = n.chain ∧ n'.reorgRecoveryMode = false := by
  simp only [rewindDBsAndState] at h
  split at h
  · rename_i hrange
    simp only [do_eq_some, pure_eq_some] at h
    obtain ⟨s, hs, rfl⟩ := h
    have hcfg := hi.config
    have hgen : n.genesis = (consensusParams cfg.network).genesisBlock := by rw [ChainNode.genesis, hcfg]
    obtain ⟨hc, hpar, hz⟩ := handleAll_rules (s := restoreState n.state saved) hi.noneFrozen
      (scanChain_isParsed _ _ _) hs
    have hc' : s.cfg = cfg := hc.trans hcfg
    have hlen := hi.common.length_le
    -- the parameters held are those of the restored block
    have hheld : n.state.params = chainParams cfg (n.chain.take height) := by
      rw [hcfg] at hok
      have hrest : rulePackets cfg (chainParams cfg (n.processed.take height))
          (featurePackets (scanChain height height (n.processed.drop height))) =
          chainParams cfg n.processed := chainParams_drop cfg (by omega) (by omega)
      rw [rulePackets_of_none_accepted hok] at hrest
      rw [hi.params, ← hrest, List.prefix_iff_eq_take.mp hi.common, List.take_take,
        Nat.min_eq_left hrange.2]
    have hparams : s.params = chainParams cfg n.chain := by
      rw [hpar]
      simp only [restoreState, hcfg, hheld]
      exact chainParams_drop cfg (by omega) hrange.2
    refine ⟨⟨hc', hz, hparams, List.prefix_rfl, fun _ => rfl, fun _ => .inr ?_⟩, rfl, rfl⟩
    have hgen' : ChainNode.genesis ⟨s, n.chain, n.chain, height, false⟩ = n.genesis := by
      rw [ChainNode.genesis, hc', hgen]
    rw [hgen']
    exact hrange
  · cases h

theorem changeStep_inv {c : Change} (hi : n.Inv cfg) (hok : okChange n c = true)
    (h : changeStep n c = some n') : n'.Inv cfg := by
  cases c with
  | disconnect =>
    simp only [changeStep] at h
    split at h
    · cases h
    · cases h
      refine ⟨hi.config, hi.noneFrozen, hi.params, ?_, (fun hc => nomatch hc),
        (fun hc => nomatch hc)⟩
      exact (List.dropLast_prefix _).trans hi.common
  | connect bs outcome =>
    simp only [changeStep] at h
    split at h
    · cases h
    rename_i hne
    simp only [do_eq_some, pure_eq_some] at h
    obtain ⟨n₁, h1, s, hs, rfl⟩ := h
    simp only [okChange, Bool.and_eq_true, Bool.or_eq_true, Bool.not_eq_true', bne_iff_ne] at hok
    obtain ⟨⟨hearly, hheight⟩, hrew⟩ := hok
    have hn1 : n₁.Inv cfg ∧ n₁.chain = n.chain ∧ n₁.reorgRecoveryMode = false := by
      unfold rewindIfNeeded at h1
      cases hmode : n.reorgRecoveryMode with
      | false =>
        rw [hmode] at h1
        cases h1
        exact ⟨hi, rfl, hmode⟩
      | true =>
        rw [hmode, if_pos rfl] at h1
        rcases hrew with hc | hrew
        · rw [hmode] at hc
          cases hc
        · cases outcome with
          | clear => exact rewind_clear_inv hi h1
          | restore height saved =>
            exact rewind_restore_inv hi (List.isEmpty_iff.mp hrew) h1
    obtain ⟨hi1, hchain, hmode⟩ := hn1
    have hcfg := hi1.config
    obtain ⟨hc, hpar, hz⟩ := handleAll_rules hi1.noneFrozen (connectEvents_isParsed _ _ _) hs
    have hgen : n₁.genesis = n.genesis := by rw [ChainNode.genesis, ChainNode.genesis, hcfg, hi.config]
    have hgen' : n₁.genesis = (consensusParams cfg.network).genesisBlock := by
      rw [ChainNode.genesis, hcfg]
    have hlen : 0 < bs.length := List.length_pos_iff.mpr hne
    have hw := hi1.waterline hmode
    rw [← hchain, ← hgen] at hheight
    have hfeat := featurePackets_connectEvents_eq (w := n₁.waterline)
      (g := (consensusParams cfg.network).genesisBlock) (h := n₁.chain.length) hne hearly (by
        rcases hheight with hh | hh
        · left
          rw [← hgen']
          omega
        · exact .inr hh)
    refine ⟨hc.trans hcfg, hz, ?_, List.prefix_rfl, fun _ => rfl, fun _ => ?_⟩
    · rw [hpar, hfeat, hcfg, hi1.params, hi1.synced hmode]
      exact (chainParams_append cfg n₁.chain bs).symm
    · have hgen2 : ChainNode.genesis { n₁ with
          state := s, chain := n₁.chain ++ bs, processed := n₁.chain ++ bs } = n₁.genesis := by
        rw [ChainNode.genesis, ChainNode.genesis]
        rw [hc]
      rw [hgen2, List.length_append]
      dsimp only
      omega

/-- **Reorganisations.** After any run of disconnected and connected blocks,
whose steps keep clear of the two defects, a node that has caught up has the
features of a node that only ever processed its chain. -/
theorem features_follow_chain {cs : List Change} {s : State}
    (hrun : run (guarded okChange changeStep) (ChainNode.initial cfg) cs = some n)
    (hdone : n.reorgRecoveryMode = false) (hfresh : freshState cfg n.chain = some s) (featureId b : Nat) :
    isFeatureActivated n.state.params featureId b = isFeatureActivated s.params featureId b := by
  have hi : n.Inv cfg := by
    refine run_invariant (fun n c n' hi h => ?_) (ChainNode.initial_inv cfg) hrun
    obtain ⟨hok, hstep⟩ := guarded_eq_some.mp h
    exact changeStep_inv hi hok hstep
  rw [hi.params, hi.synced hdone, freshState_params cfg hfresh]

end

/-- A block without token transactions. -/
def emptyBlock (hash : Hash) : TokenBlock where
  hash := hash
  time := 0
  vtx := []
  parsed := by simp

/-- A block that deactivates a feature. -/
def deactivationBlock (hash : Hash) : TokenBlock where
  hash := hash
  time := 0
  vtx := [.packet deactivationPacket { blockHash := none }]
  parsed := by decide

/-- On a chain of two blocks, the second, with a deactivation, is replaced by an
empty one. -/
def replacement (outcome : Outcome) : List Change :=
  [ .connect [emptyBlock 1] .clear,
    .connect [deactivationBlock 2] .clear,
    .disconnect,
    .connect [emptyBlock 3] outcome ]

/-- Where the rewind clears everything, the deactivation is undone. -/
theorem features_follow_chain_cleared :
    ∃ n s, run (guarded okChange changeStep) (ChainNode.initial (plainConfig .regtest)) (replacement .clear) =
        some n ∧ freshState (plainConfig .regtest) n.chain = some s ∧
      isFeatureActivated n.state.params 4 3 = isFeatureActivated s.params 4 3 := by
  have hrun : ((run (guarded okChange changeStep) (ChainNode.initial (plainConfig .regtest))
      (replacement .clear)).bind fun n => (freshState (plainConfig .regtest) n.chain).map fun _ =>
        n.reorgRecoveryMode) = some false := by decide +kernel
  obtain ⟨n, hn, hrun⟩ := Option.bind_eq_some_iff.mp hrun
  obtain ⟨s, hs, hdone⟩ := Option.map_eq_some_iff.mp hrun
  exact ⟨n, s, hn, hs, features_follow_chain hn hdone hs 4 3⟩

/-- Where the state saved after the first block is restored, the feature stays
off, although no block of the chain deactivates it. -/
theorem disconnected_deactivation_stays :
    ¬ ∀ (cfg : Config) (cs : List Change) (n : ChainNode) (s : State),
      run changeStep (ChainNode.initial cfg) cs = some n → n.reorgRecoveryMode = false →
      freshState cfg n.chain = some s → ∀ featureId b, n.chain.length < b →
      isFeatureActivated n.state.params featureId b = isFeatureActivated s.params featureId b := by
  intro hall
  have hrun : ((run changeStep (ChainNode.initial (plainConfig .regtest))
      (replacement (.restore 1 (plainState .regtest)))).bind fun n =>
        (freshState (plainConfig .regtest) n.chain).map fun s =>
          (n.reorgRecoveryMode, decide (n.chain.length < 3), isFeatureActivated n.state.params 4 3,
            isFeatureActivated s.params 4 3)) = some (false, true, false, true) := by decide +kernel
  obtain ⟨n, hn, hrun⟩ := Option.bind_eq_some_iff.mp hrun
  obtain ⟨s, hs, hvals⟩ := Option.map_eq_some_iff.mp hrun
  simp only [Prod.mk.injEq, decide_eq_true_eq] at hvals
  obtain ⟨hdone, hlen, hnode, hfresh⟩ := hvals
  have hsame := hall _ _ n s hn hdone hs 4 3 hlen
  rw [hnode, hfresh] at hsame
  cases hsame

end Rapids.Token
