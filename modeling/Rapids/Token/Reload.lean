import Rapids.Token.RulesSound

/-!
# Rapids.Token.Reload

**Features after a restart.** The consensus parameters are not persisted. A
node that starts again resets them and lets `LoadActivations` (`dbtxlist.cpp`)
replay the activations it finds in the list of transactions, in the order of
height and transaction identifier.

Deactivations are not replayed, and within a block the order is not that of the
chain. The features come back as they were if neither matters
(`features_survive_restart`): no deactivation below height 999999, where it
would switch something off, and no two activations of one feature in one block
against the order of their identifiers.
-/

namespace Rapids.Token

open Rapids.Lib OrdMap

variable {tx : CMPTransaction} {p q : CConsensusParams} {cfg : Config} {txs : List CMPTransaction}
  {db : OrdMap Hash TxRecord} {h : Nat}

/-! ### The list of transactions -/

/-- `TOKENCORE_MESSAGE_TYPE_ACTIVATION` -/
def messageTypeActivation : Nat := 65534

/-- An entry of the list of transactions (`CMPTxList`): valid, block, type. -/
structure TxRecord where
  valid : Bool
  block : Nat
  type : Nat
  deriving DecidableEq

/-- `recordTX`, for all but structurally invalid packets. -/
def recordTX (db : OrdMap Hash TxRecord) (tx : CMPTransaction) (rc : Int) : OrdMap Hash TxRecord :=
  if rc = pktError - 2 then db else db.insert tx.txid ⟨decide (0 ≤ rc), tx.block, tx.type⟩

/-- A node with its list of transactions. -/
structure Indexed where
  node : Node
  txList : OrdMap Hash TxRecord

def Indexed.initial (cfg : Config) : Indexed := ⟨Node.initial cfg, ∅⟩

/-- One call, with the record `mastercore_handler_tx` makes of a packet. -/
def indexedStep (n : Indexed) (e : Event) : Option Indexed :=
  match e with
  | .packet tx env =>
    if e.isNext n.node.clock then
      (interpretPacket n.node.state tx env).map fun r =>
        ⟨⟨r.2, e.tick n.node.clock⟩, recordTX n.txList tx r.1⟩
    else none
  | e => (step n.node e).map fun node => ⟨node, n.txList⟩

/-! ### Loading -/

/-- The valid activations, by height and identifier. -/
def loadOrder (db : OrdMap Hash TxRecord) : List (Nat ×ₗ Hash) :=
  ((db.entries.filter fun e => e.2.type == messageTypeActivation && e.2.valid).map fun e =>
    toLex (e.2.block, e.1)).insertionSort (· ≤ ·)

/-- A packet as `ParseTransaction` finds it again: without position and time,
and unlocked. -/
def CMPTransaction.reparsed (tx : CMPTransaction) : CMPTransaction :=
  { tx with txIdx := 0, blockTime := 0, rpcOnly := false }

/-- Replay one activation. `chain` holds the packets of the active chain,
`classC` says which of them are encoded as null data; these are not recognised
below the height of that feature. -/
def loadActivation (chain : List CMPTransaction) (classC : Hash → Bool) (blockHeight : Nat) (s : State)
    (entry : Nat ×ₗ Hash) : Option State :=
  match chain.find? fun tx => tx.txid == (ofLex entry).2 with
  | none => some s
  | some tx =>
    if blockHeight < tx.block then some s
    else if classC tx.txid && decide (tx.block < s.params.nulldataBlock) then some s
    else if !tx.interpreted then some s
    else if tx.type ≠ messageTypeActivation then some s
    else (interpretPacket s tx.reparsed { blockHash := none }).map Prod.snd

/-- `LoadActivations` -/
def loadActivations (chain : List CMPTransaction) (classC : Hash → Bool) (db : OrdMap Hash TxRecord)
    (blockHeight : Nat) (s : State) : Option State := do
  let s ← (loadOrder db).foldlM (loadActivation chain classC blockHeight) s
  let s := checkLiveActivations s blockHeight
  return if s.cfg.activationAllowSender ≠ [] ∨ s.cfg.activationIgnoreSender ≠ [] then
    addAlert s "tokencore" alertClientVersionExpiry 4294967295
      ("Authorization for feature activation has been modified.  " ++
        "Data provided by this client should not be trusted.")
  else s

/-! ### Packets of a run -/

/-- The packets among the events. -/
def packets : List Event → List CMPTransaction
  | [] => []
  | .packet tx _ :: rest => tx :: packets rest
  | _ :: rest => packets rest

/-- The feature packets a node accepts, in order. -/
def acceptedPackets (cfg : Config) : CConsensusParams → List CMPTransaction → List CMPTransaction
  | _, [] => []
  | p, tx :: rest =>
    if (rulePacket cfg p tx).1 then tx :: acceptedPackets cfg (rulePacket cfg p tx).2 rest
    else acceptedPackets cfg (rulePacket cfg p tx).2 rest

/-- Is the packet an activation? -/
def CMPTransaction.isActivation (tx : CMPTransaction) : Bool := TxType.ofId tx.type == some .activation

/-- No deactivation takes effect, and activations of one feature in one block
are in the order of their identifiers. -/
structure Reloadable (accepted : List CMPTransaction) : Prop where
  deactivation : ∀ tx ∈ accepted, tx.isActivation = false → 999999 ≤ tx.block
  ordered : accepted.Pairwise fun a b => a.isActivation = true → b.isActivation = true →
    a.featureId = b.featureId → a.block = b.block → a.txid < b.txid

theorem isActivation_iff :
    tx.isActivation = true ↔ tx.type = messageTypeActivation := by
  simp only [CMPTransaction.isActivation, beq_iff_eq]
  constructor
  · intro h
    unfold TxType.ofId at h
    split at h <;> cases h
    rename_i ht
    exact ht
  · intro h
    rw [h]
    rfl

theorem isFeaturePacket_of_activation (h : tx.isActivation = true) :
    tx.isFeaturePacket = true := by
  rw [CMPTransaction.isFeaturePacket, Bool.or_eq_true]
  exact .inl h

/-! ### One feature

The parameters that decide about a feature packet beside the feature's height
never change. -/

/-- Two sets of parameters that differ in heights of features only. -/
structure SameRules (p q : CConsensusParams) : Prop where
  alertBlock : p.tokenAlertBlock = q.tokenAlertBlock
  minBlocks : p.minActivationBlocks = q.minActivationBlocks
  maxBlocks : p.maxActivationBlocks = q.maxActivationBlocks

theorem SameRules.schedule (h : SameRules p q) (i height : Nat) :
    SameRules (p.schedule i height) q := by
  refine ⟨?_, ?_, ?_⟩
  · rw [← h.alertBlock]
    unfold CConsensusParams.schedule
    cases Feature.ofId i with
    | none => rfl
    | some f => cases f <;> rfl
  · rw [schedule_minActivationBlocks, h.minBlocks]
  · rw [schedule_maxActivationBlocks, h.maxBlocks]

/-- What is checked of a feature packet apart from the feature's height. -/
def isPermitted (cfg : Config) (p : CConsensusParams) (tx : CMPTransaction) : Bool :=
  !(tx.rpcOnly || !tx.interpreted) &&
    (match TxType.ofId tx.type with
    | some .activation =>
      isTransactionTypeAllowed p tx.block tx.property .activation tx.version &&
        checkActivationAuthorization cfg tx.sender &&
        decide (tx.block + p.minActivationBlocks ≤ tx.activationBlock) &&
        decide (tx.activationBlock ≤ tx.block + p.maxActivationBlocks)
    | some .deactivation =>
      isTransactionTypeAllowed p tx.block tx.property .deactivation tx.version &&
        checkDeactivationAuthorization cfg tx.sender
    | _ => false)

theorem isTransactionTypeAllowed_feature (p : CConsensusParams) (block : Nat) (property : PropertyId)
    (version : Nat) {txType : TxType} (ht : txType = .activation ∨ txType = .deactivation) :
    isTransactionTypeAllowed p block property txType version =
      (0xFFFF == version && (isTestEcosystemProperty property || decide (p.tokenAlertBlock ≤ block))) := by
  have hrow : isTransactionTypeAllowed p block property txType version =
      ((0xFFFF == version && !(property == propertyRPD && !true) &&
        (isTestEcosystemProperty property || decide (p.tokenAlertBlock ≤ block))) || false) := by
    rcases ht with rfl | rfl <;> rfl
  rw [hrow]
  simp

theorem SameRules.isPermitted (h : SameRules p q) (cfg : Config)
    (tx : CMPTransaction) : isPermitted cfg p tx = isPermitted cfg q tx := by
  unfold Token.isPermitted
  rw [isTransactionTypeAllowed_feature p _ _ _ (.inl rfl),
    isTransactionTypeAllowed_feature p _ _ _ (.inr rfl),
    isTransactionTypeAllowed_feature q _ _ _ (.inl rfl),
    isTransactionTypeAllowed_feature q _ _ _ (.inr rfl), h.alertBlock, h.minBlocks, h.maxBlocks]

/-- Does the packet find the feature in the state it wants to change? -/
def isTimely (tx : CMPTransaction) (v : Nat) : Bool :=
  if tx.isActivation then decide (tx.block < v) else decide (v ≤ tx.block)

theorem isFeatureActivated_id (p : CConsensusParams) (f : Feature) (block : Nat) :
    isFeatureActivated p f.id block = decide (f.block p ≤ block) := by
  simp [isFeatureActivated]

theorem Feature.block_schedule (p : CConsensusParams) (f g : Feature) (height : Nat) :
    f.block (p.schedule g.id height) = if f = g then height else f.block p := by
  simp [CConsensusParams.schedule, Feature.block_setBlock]

/-- What a packet does to the height `v` of one feature. -/
def newHeight (cfg : Config) (p : CConsensusParams) (f : Feature) (v : Nat) (tx : CMPTransaction) : Nat :=
  if tx.featureId = f.id ∧ isPermitted cfg p tx = true ∧ isTimely tx v = true then
    if tx.isActivation then tx.activationBlock else 999999
  else v

theorem rulePacket_eq {f : Feature}
    (hf : tx.featureId = f.id) (ht : tx.isFeaturePacket = true) :
    rulePacket cfg p tx =
      if isPermitted cfg p tx && isTimely tx (f.block p) then
        (true, p.schedule f.id (if tx.isActivation then tx.activationBlock else 999999))
      else (false, p) := by
  unfold rulePacket Token.isPermitted isTimely
  cases hr : (tx.rpcOnly || !tx.interpreted) with
  | true => simp
  | false =>
    simp only [CMPTransaction.isFeaturePacket, Bool.or_eq_true, beq_iff_eq] at ht
    rcases ht with ht | ht
    · have ha : tx.isActivation = true := by simp [CMPTransaction.isActivation, ht]
      simp [ht, ha, hf, canActivate, isFeatureActivated_id, Bool.and_assoc, ← decide_not]
    · have ha : tx.isActivation = false := by simp [CMPTransaction.isActivation, ht]
      simp [ht, ha, hf, isFeatureActivated_id, Bool.and_assoc]

theorem isPermitted_of_not_feature (h : tx.isFeaturePacket = false) : isPermitted cfg p tx = false := by
  simp only [CMPTransaction.isFeaturePacket, Bool.or_eq_false_iff, beq_eq_false_iff_ne] at h
  unfold Token.isPermitted
  split
  · exact absurd ‹_› h.1
  · exact absurd ‹_› h.2
  · exact Bool.and_false _

theorem rulePacket_refused (h : (rulePacket cfg p tx).1 = false) : (rulePacket cfg p tx).2 = p := by
  unfold rulePacket at h ⊢
  split at h
  · rw [if_pos ‹_›]
  · rw [if_neg ‹_›]
    split at h
    · split at h
      · cases h
      · rw [if_neg ‹_›]
    · split at h
      · cases h
      · rw [if_neg ‹_›]
    · rfl

theorem rulePacket_sameRules (h : SameRules p q) (cfg : Config)
    (tx : CMPTransaction) : SameRules (rulePacket cfg p tx).2 q := by
  unfold rulePacket
  split
  · exact h
  · split
    · split
      · exact h.schedule _ _
      · exact h
    · split
      · exact h.schedule _ _
      · exact h
    · exact h

theorem block_rulePacket (h : SameRules p q) (cfg : Config) (f : Feature)
    (tx : CMPTransaction) : f.block (rulePacket cfg p tx).2 = newHeight cfg q f (f.block p) tx := by
  unfold newHeight
  rw [← h.isPermitted]
  cases ht : tx.isFeaturePacket with
  | false =>
    rw [rulePacket_of_not_feature cfg p ht, isPermitted_of_not_feature ht, if_neg (by simp)]
  | true =>
    cases hf : Feature.ofId tx.featureId with
    | none =>
      -- an unknown feature has no height
      have hne : tx.featureId ≠ f.id := by
        intro he
        rw [he, Feature.ofId_id] at hf
        cases hf
      have hp : (rulePacket cfg p tx).2 = p := by
        simp only [rulePacket, CConsensusParams.schedule, hf]
        split
        · rfl
        · split <;> first | rfl | (split <;> rfl)
      rw [hp, if_neg fun hc => hne hc.1]
    | some g =>
      have hg := Feature.ofId_eq_some.mp hf
      rw [rulePacket_eq hg ht, hg]
      by_cases hfg : f = g
      · subst hfg
        simp only [Bool.and_eq_true, true_and]
        by_cases hok : isPermitted cfg p tx = true ∧ isTimely tx (f.block p) = true
        · simp [if_pos hok, Feature.block_schedule]
        · simp [if_neg hok]
      · have hne : ¬ (g.id = f.id ∧ isPermitted cfg p tx = true ∧
            isTimely tx (f.block p) = true) := by
          intro hc
          have hgf := congrArg Feature.ofId hc.1
          simp only [Feature.ofId_id, Option.some.injEq] at hgf
          exact hfg hgf.symm
        simp only [if_neg hne]
        by_cases hok : (isPermitted cfg p tx && isTimely tx (g.block p)) = true
        · simp only [if_pos hok, Feature.block_schedule, if_neg hfg]
        · simp only [if_neg hok]

/-- The parameters after a list of packets. -/
def rulePackets (cfg : Config) (p : CConsensusParams) (txs : List CMPTransaction) : CConsensusParams :=
  txs.foldl (fun p tx => (rulePacket cfg p tx).2) p

theorem block_rulePackets (h : SameRules p q) (cfg : Config) (f : Feature)
    (txs : List CMPTransaction) :
    f.block (rulePackets cfg p txs) = txs.foldl (newHeight cfg q f) (f.block p) := by
  induction txs generalizing p with
  | nil => rfl
  | cons tx rest ih =>
    rw [List.foldl_cons, ← block_rulePacket h]
    exact ih (rulePacket_sameRules h cfg tx)

theorem foldl_newHeight_filter (cfg : Config) (q : CConsensusParams) (f : Feature) (v : Nat)
    (txs : List CMPTransaction) :
    txs.foldl (newHeight cfg q f) v =
      (txs.filter fun tx => tx.featureId == f.id).foldl (newHeight cfg q f) v := by
  induction txs generalizing v with
  | nil => rfl
  | cons tx rest ih =>
    rw [List.foldl_cons, ih]
    by_cases hf : tx.featureId = f.id
    · rw [List.filter_cons_of_pos (by simpa using hf), List.foldl_cons]
    · rw [List.filter_cons_of_neg (by simpa using hf), newHeight, if_neg fun hc => hf hc.1]

/-! ### The chain and the replay, side by side -/

/-- The heights of a feature in the node and in the replay, after a block: the
same, or both reached. -/
def Agree (block v w : Nat) : Prop := v = w ∨ (v ≤ block ∧ w ≤ block)

theorem Agree.mono {b b' v w : Nat} (h : Agree b v w) (hb : b ≤ b') : Agree b' v w := by
  rcases h with h | ⟨hv, hw⟩
  · exact .inl h
  · exact .inr ⟨hv.trans hb, hw.trans hb⟩

/-- The replay of the activations alone, in the order of the chain, keeps up
with the node. -/
theorem agree_rulePackets {f : Feature} {block last : Nat} {w : Nat} (hq : SameRules p q)
    (hord : txs.Pairwise fun a b => a.block ≤ b.block)
    (hblock : ∀ tx ∈ txs, block ≤ tx.block ∧ tx.block ≤ last) (hle : block ≤ last)
    (hoff : ∀ tx ∈ acceptedPackets cfg p txs, tx.isActivation = false → 999999 ≤ tx.block)
    (hagree : Agree block (f.block p) w) :
    Agree last (f.block (rulePackets cfg p txs))
      (((acceptedPackets cfg p txs).filter CMPTransaction.isActivation).foldl (newHeight cfg q f) w) := by
  induction txs generalizing p w block with
  | nil => exact hagree.mono hle
  | cons tx rest ih =>
    obtain ⟨hb, hlast⟩ := hblock tx (.head _)
    obtain ⟨htx, hrest⟩ := List.pairwise_cons.mp hord
    have hblock' : ∀ t ∈ rest, tx.block ≤ t.block ∧ t.block ≤ last := fun t ht =>
      ⟨htx t ht, (hblock t (.tail _ ht)).2⟩
    have hagree' := hagree.mono hb
    have hnew := block_rulePacket hq cfg f tx
    have hperm := hq.isPermitted cfg tx
    cases hacc : (rulePacket cfg p tx).1 with
    | false =>
      simp only [acceptedPackets, hacc, Bool.false_eq_true, if_false] at hoff ⊢
      rw [rulePacket_refused hacc] at hoff ⊢
      have hgo : rulePackets cfg p (tx :: rest) = rulePackets cfg p rest := by
        rw [rulePackets, List.foldl_cons, rulePacket_refused hacc]
        rfl
      rw [hgo]
      exact ih hq hrest hblock' hlast hoff hagree'
    | true =>
      simp only [acceptedPackets, hacc, if_true] at hoff ⊢
      have hoff' := fun t ht => hoff t (.tail _ ht)
      have hq' := rulePacket_sameRules hq cfg tx
      -- an accepted packet about the feature was permitted and timely
      have hvalid : tx.featureId = f.id → isPermitted cfg q tx = true ∧ isTimely tx (f.block p) = true := by
        intro hf
        have ht : tx.isFeaturePacket = true := by
          by_contra hno
          rw [rulePacket_of_not_feature cfg p (by simpa using hno)] at hacc
          cases hacc
        rw [rulePacket_eq hf ht] at hacc
        split at hacc
        · rename_i hok
          rw [Bool.and_eq_true, hperm] at hok
          exact hok
        · cases hacc
      cases hact : tx.isActivation with
      | true =>
        rw [List.filter_cons_of_pos hact, List.foldl_cons]
        refine ih hq' hrest hblock' hlast hoff' ?_
        rw [hnew]
        by_cases hf : tx.featureId = f.id
        · obtain ⟨hok, htime⟩ := hvalid hf
          have hlt : tx.block < f.block p := by simpa [isTimely, hact] using htime
          have hw : w = f.block p := by
            rcases hagree' with h | ⟨h, -⟩
            · exact h.symm
            · omega
          rw [hw]
          exact .inl rfl
        · rw [newHeight, newHeight, if_neg fun hc => hf hc.1, if_neg fun hc => hf hc.1]
          exact hagree'
      | false =>
        rw [List.filter_cons_of_neg (by simp [hact])]
        refine ih hq' hrest hblock' hlast hoff' ?_
        rw [hnew]
        by_cases hf : tx.featureId = f.id
        · -- the deactivation comes too late to switch anything off
          obtain ⟨hok, htime⟩ := hvalid hf
          have hle' : f.block p ≤ tx.block := by simpa [isTimely, hact] using htime
          have hlate := hoff tx (.head _) hact
          rw [newHeight, if_pos ⟨hf, hok, htime⟩, hact]
          refine .inr ⟨by simpa using hlate, ?_⟩
          rcases hagree' with h | ⟨-, h⟩
          · omega
          · exact h
        · rw [newHeight, if_neg fun hc => hf hc.1]
          exact hagree'

/-! ### What the list of transactions holds -/

/-- Does the list hold a valid activation with this identifier and height? -/
def Lists (db : OrdMap Hash TxRecord) (id : Hash) (block : Nat) : Prop :=
  db.find? id = some ⟨true, block, messageTypeActivation⟩

theorem lists_recordTX {rc : Int}
    (hnew : db.find? tx.txid = none) (k : Hash) (block : Nat) :
    Lists (recordTX db tx rc) k block ↔
      Lists db k block ∨ (tx.isActivation = true ∧ 0 ≤ rc ∧ tx.txid = k ∧ tx.block = block) := by
  unfold Lists recordTX
  by_cases hrc : rc = pktError - 2
  · have hneg : ¬ 0 ≤ rc := by
      rw [hrc]
      decide
    rw [if_pos hrc]
    exact ⟨.inl, fun h => h.elim id fun h => absurd h.2.1 hneg⟩
  · rw [if_neg hrc, find?_insert]
    by_cases hid : k = tx.txid
    · subst hid
      simp only [if_true, hnew, Option.some.injEq, TxRecord.mk.injEq, decide_eq_true_eq, isActivation_iff]
      constructor
      · rintro ⟨h1, h2, h3⟩
        exact .inr ⟨h3, h1, trivial, h2⟩
      · rintro (h | ⟨h3, h1, -, h2⟩)
        · cases h
        · exact ⟨h1, h2, h3⟩
    · rw [if_neg hid]
      exact ⟨.inl, fun h => h.elim id fun h => absurd h.2.2.1.symm hid⟩

theorem find?_recordTX {rc : Int} {id : Hash}
    (hid : id ≠ tx.txid) : (recordTX db tx rc).find? id = db.find? id := by
  unfold recordTX
  split_ifs
  · rfl
  · exact find?_insert_ne _ _ hid

variable {es : List Event} {chain : List CMPTransaction}

/-- An indexed run is a run, and its list of transactions holds the accepted
activations. -/
theorem run_indexed {n n' : Indexed} (hz : NoneFrozen n.node.state)
    (hp : ∀ e ∈ es, e.isParsed = true) (hids : ((packets es).map CMPTransaction.txid).Nodup)
    (hnew : ∀ tx ∈ packets es, n.txList.find? tx.txid = none) (h : run indexedStep n es = some n') :
    run step n.node es = some n'.node ∧ ∀ id block, Lists n'.txList id block ↔ Lists n.txList id block ∨
      ∃ tx ∈ acceptedPackets n.node.state.cfg n.node.state.params (packets es),
        tx.isActivation = true ∧ tx.txid = id ∧ tx.block = block := by
  induction es generalizing n with
  | nil =>
    cases h
    exact ⟨rfl, fun id block => by simp [packets, acceptedPackets]⟩
  | cons e rest ih =>
    rw [run_cons, Option.bind_eq_some_iff] at h
    obtain ⟨n₁, h1, h2⟩ := h
    have hp' := fun e he => hp e (.tail _ he)
    have hstep : step n.node e = some n₁.node := by
      cases e with
      | packet tx env =>
        simp only [indexedStep] at h1
        split_ifs at h1 with hnext
        simp only [Option.map_eq_some_iff] at h1
        obtain ⟨r, hr, rfl⟩ := h1
        exact step_eq_some.mpr ⟨hnext, by simp [handle, hr], rfl⟩
      | _ =>
        simp only [indexedStep, Option.map_eq_some_iff] at h1
        obtain ⟨node, hnode, rfl⟩ := h1
        exact hnode
    obtain ⟨-, hh, -⟩ := step_eq_some.mp hstep
    obtain ⟨hc, hpar, hz1⟩ := handle_rules hz (hp e (.head _)) hh
    rw [run_cons, hstep, Option.bind_some]
    cases e with
    | packet tx env =>
      simp only [indexedStep] at h1
      split_ifs at h1 with hnext
      simp only [Option.map_eq_some_iff, Prod.exists] at h1
      obtain ⟨rc, s₁, hr, rfl⟩ := h1
      simp only [packets, List.map_cons, List.nodup_cons, List.mem_cons, forall_eq_or_imp] at hids hnew
      have hnew' : ∀ t ∈ packets rest, (recordTX n.txList tx rc).find? t.txid = none := by
        intro t ht
        rw [find?_recordTX fun he => hids.1 (he ▸ List.mem_map_of_mem ht)]
        exact hnew.2 t ht
      obtain ⟨hrun, hlist⟩ := ih hz1 hp' hids.2 hnew' h2
      refine ⟨hrun, fun id block => ?_⟩
      have hprop : tx.isFeaturePacket = true → tx.property = 0 := fun hf => by
        simpa [Event.isParsed, hf] using hp _ (.head _)
      obtain ⟨-, -, -, hacc⟩ := interpretPacket_rules hz hprop hr
      simp only [ruleEvent] at hpar
      rw [hlist, lists_recordTX hnew.1, hc, hpar]
      simp only [packets, acceptedPackets]
      -- the record is valid exactly if the packet was accepted
      by_cases hok : (rulePacket n.node.state.cfg n.node.state.params tx).1 = true
      · rw [if_pos hok]
        simp only [List.mem_cons, exists_eq_or_imp, or_assoc]
        have hrc : tx.isActivation = true → 0 ≤ rc := fun ha =>
          (hacc (isFeaturePacket_of_activation ha)).mpr hok
        refine or_congr_right (or_congr_left ?_)
        exact ⟨fun h => ⟨h.1, h.2.2⟩, fun h => ⟨h.1, hrc h.1, h.2⟩⟩
      · rw [if_neg hok]
        have hrc : ¬ (tx.isActivation = true ∧ 0 ≤ rc ∧ tx.txid = id ∧ tx.block = block) := fun hc =>
          hok ((hacc (isFeaturePacket_of_activation hc.1)).mp hc.2.1)
        rw [or_iff_left hrc]
    | _ =>
      simp only [indexedStep, Option.map_eq_some_iff] at h1
      obtain ⟨node, hnode, rfl⟩ := h1
      obtain ⟨hrun, hlist⟩ := ih hz1 hp' hids hnew h2
      refine ⟨hrun, fun id block => ?_⟩
      rw [hlist, hc, hpar]
      rfl

/-! ### The order of the replay -/

/-- The key activations are sorted by. -/
def CMPTransaction.loadKey (tx : CMPTransaction) : Nat ×ₗ Hash := toLex (tx.block, tx.txid)

/-- The activations in the order they are replayed. -/
def replayed (txs : List CMPTransaction) : List CMPTransaction :=
  txs.insertionSort fun a b => a.loadKey ≤ b.loadKey

section
variable (hids : (txs.map CMPTransaction.txid).Nodup)
include hids

theorem loadKey_injOn
    {a b : CMPTransaction} (ha : a ∈ txs) (hb : b ∈ txs) (h : a.loadKey = b.loadKey) : a = b :=
  List.inj_on_of_nodup_map hids ha hb (Prod.mk.inj (toLex.injective h)).2

theorem loadOrder_eq
    (hdb : ∀ k block, Lists db k block ↔ ∃ tx ∈ txs, tx.txid = k ∧ tx.block = block) :
    loadOrder db = (replayed txs).map CMPTransaction.loadKey := by
  have hmap : (replayed txs).map CMPTransaction.loadKey =
      (txs.map CMPTransaction.loadKey).insertionSort (· ≤ ·) :=
    List.map_insertionSort _ _ _ _ fun _ _ _ _ => Iff.rfl
  have hnodup : (txs.map CMPTransaction.loadKey).Nodup := by
    refine List.Nodup.map_on (fun a ha b hb h => loadKey_injOn hids ha hb h) (List.Nodup.of_map _ hids)
  have hnodup' : ((db.entries.filter fun e => e.2.type == messageTypeActivation && e.2.valid).map
      fun e => (toLex (e.2.block, e.1) : Nat ×ₗ Hash)).Nodup := by
    refine List.Nodup.map_on (fun a ha b hb h => ?_) (db.sorted.nodup.filter _)
    have hk : a.1 = b.1 := (Prod.mk.inj (toLex.injective h)).2
    have ha' := mem_entries_iff.mp (List.mem_of_mem_filter ha)
    have hb' := mem_entries_iff.mp (List.mem_of_mem_filter hb)
    rw [hk, hb', Option.some.injEq] at ha'
    exact Prod.ext hk ha'.symm
  rw [hmap, loadOrder]
  refine List.Perm.eq_of_pairwise' (List.pairwise_insertionSort _ _) (List.pairwise_insertionSort _ _) ?_
  refine (List.perm_insertionSort _ _).trans (List.Perm.trans ?_ (List.perm_insertionSort _ _).symm)
  refine (List.perm_ext_iff_of_nodup hnodup' hnodup).mpr fun x => ?_
  constructor
  · intro hx
    obtain ⟨e, he, rfl⟩ := List.mem_map.mp hx
    obtain ⟨hmem, hok⟩ := List.mem_filter.mp he
    simp only [Bool.and_eq_true, beq_iff_eq] at hok
    have hl : Lists db e.1 e.2.block := by
      rw [Lists, mem_entries_iff.mp hmem, ← hok.1, ← hok.2]
    obtain ⟨tx, htx, hid, hb⟩ := (hdb _ _).mp hl
    refine List.mem_map.mpr ⟨tx, htx, ?_⟩
    rw [CMPTransaction.loadKey, hid, hb]
  · intro hx
    obtain ⟨tx, htx, rfl⟩ := List.mem_map.mp hx
    have hl : Lists db tx.txid tx.block := (hdb _ _).mpr ⟨tx, htx, rfl, rfl⟩
    exact List.mem_map.mpr ⟨(tx.txid, ⟨true, tx.block, messageTypeActivation⟩),
      List.mem_filter.mpr ⟨mem_entries_iff.mpr hl, by simp⟩, rfl⟩

theorem replayed_filter {i : Nat}
    (hord : txs.Pairwise fun a b => a.block ≤ b.block)
    (hsame : txs.Pairwise fun a b => a.featureId = b.featureId → a.block = b.block → a.txid < b.txid) :
    (replayed txs).filter (fun tx => tx.featureId == i) = txs.filter fun tx => tx.featureId == i := by
  have hsorted : (replayed txs).Pairwise fun a b => a.loadKey ≤ b.loadKey :=
    haveI : IsTrans CMPTransaction fun a b => a.loadKey ≤ b.loadKey := ⟨fun _ _ _ => le_trans⟩
    haveI : Std.Total fun a b : CMPTransaction => a.loadKey ≤ b.loadKey := ⟨fun _ _ => le_total _ _⟩
    List.pairwise_insertionSort _ _
  have hperm := (List.perm_insertionSort (fun a b => a.loadKey ≤ b.loadKey) txs).filter
    fun tx => tx.featureId == i
  refine List.Perm.eq_of_pairwise (fun a b ha hb hab hba => ?_) (hsorted.filter _) ?_ hperm
  · have ha' := List.mem_of_mem_filter (hperm.mem_iff.mp ha)
    exact loadKey_injOn hids ha' (List.mem_of_mem_filter hb) (le_antisymm hab hba)
  · have hboth := (hord.and hsame).filter fun tx => tx.featureId == i
    refine hboth.imp_of_mem fun {a b} ha hb hab => ?_
    have hia := (List.mem_filter.mp ha).2
    have hib := (List.mem_filter.mp hb).2
    rw [beq_iff_eq] at hia hib
    rcases Nat.lt_or_eq_of_le hab.1 with hlt | heq
    · exact Prod.Lex.le_iff.mpr (.inl hlt)
    · exact Prod.Lex.le_iff.mpr (.inr ⟨heq, (hab.2 (hia.trans hib.symm) heq).le⟩)

end

/-! ### The replay -/

theorem interpretPacket_activation_isSome (s : State) (env : TxEnv)
    (ht : tx.isActivation = true) : ∃ r, interpretPacket s tx env = some r := by
  simp only [CMPTransaction.isActivation, beq_iff_eq] at ht
  unfold interpretPacket reject
  split
  · exact ⟨_, rfl⟩
  · rw [ht]
    simp only [logicMath, logicMathActivation, reject]
    split
    · exact ⟨_, rfl⟩
    · split <;> exact ⟨_, rfl⟩

/-- A state the activations can be replayed on. -/
structure Loading (cfg : Config) (q : CConsensusParams) (s : State) : Prop where
  cfg : s.cfg = cfg
  rules : SameRules s.params q
  noneFrozen : NoneFrozen s
  /-- Null data is recognised in every block. -/
  classC : Feature.classC.block s.params = 0

theorem loadActivation_spec
    (classC : Hash → Bool) {s : State} (hs : Loading cfg q s)
    (hids : (chain.map CMPTransaction.txid).Nodup) (hmem : tx ∈ chain) (hh : tx.block ≤ h)
    (ha : tx.isActivation = true) (hi : tx.interpreted = true) (hr : tx.rpcOnly = false)
    (hp : tx.property = 0) :
    ∃ s', loadActivation chain classC h s tx.loadKey = some s' ∧ Loading cfg q s' ∧
      s'.params = (rulePacket cfg s.params tx).2 := by
  have hfind : chain.find? (fun t => t.txid == (ofLex tx.loadKey).2) = some tx := by
    cases hc : chain.find? fun t => t.txid == (ofLex tx.loadKey).2 with
    | none => exact absurd (List.find?_eq_none.mp hc tx hmem) (by simp [CMPTransaction.loadKey])
    | some t =>
      have hid := List.find?_some hc
      rw [beq_iff_eq] at hid
      rw [List.inj_on_of_nodup_map hids (List.mem_of_find?_eq_some hc) hmem hid]
  have hnull : (classC tx.txid && decide (tx.block < s.params.nulldataBlock)) = false := by
    have h0 : s.params.nulldataBlock = 0 := hs.classC
    simp [h0]
  have ha' : tx.reparsed.isActivation = true := ha
  obtain ⟨⟨rc, s'⟩, hrun⟩ := interpretPacket_activation_isSome s { blockHash := none } ha'
  have hload : loadActivation chain classC h s tx.loadKey = some s' := by
    unfold loadActivation
    rw [hfind]
    simp [if_neg (Nat.not_lt.mpr hh), hnull, hi, isActivation_iff.mp ha, hrun]
  have hp' : tx.reparsed.property = 0 := hp
  obtain ⟨hc, hpar, hz, -⟩ := interpretPacket_rules hs.noneFrozen (fun _ => hp') hrun
  have hrule : rulePacket s.cfg s.params tx.reparsed = rulePacket s.cfg s.params tx := by
    unfold rulePacket
    rw [hr]
    rfl
  rw [hrule, hs.cfg] at hpar
  refine ⟨s', hload, ⟨hc.trans hs.cfg, ?_, hz, ?_⟩, hpar⟩
  · rw [hpar]
    exact rulePacket_sameRules hs.rules cfg tx
  · have hblock := block_rulePacket hs.rules cfg .classC tx
    have hlate : isTimely tx 0 = false := by simp [isTimely, ha]
    rw [hpar, hblock, hs.classC, newHeight, hlate, if_neg (by simp)]

theorem foldlM_loadActivation
    (classC : Hash → Bool) (hids : (chain.map CMPTransaction.txid).Nodup) (htxs : ∀ tx ∈ txs, tx ∈ chain ∧ tx.block ≤ h ∧ tx.isActivation = true ∧
      tx.interpreted = true ∧ tx.rpcOnly = false ∧ tx.property = 0) {s : State} (hs : Loading cfg q s) :
    ∃ s', (txs.map CMPTransaction.loadKey).foldlM (loadActivation chain classC h) s = some s' ∧
      s'.params = rulePackets cfg s.params txs := by
  induction txs generalizing s with
  | nil => exact ⟨s, rfl, rfl⟩
  | cons tx rest ih =>
    obtain ⟨hmem, hh, ha, hi, hr, hp⟩ := htxs tx (.head _)
    obtain ⟨s₁, h1, hs1, hpar⟩ := loadActivation_spec classC hs hids hmem hh ha hi hr hp
    obtain ⟨s', h', hpar'⟩ := ih (fun t ht => htxs t (.tail _ ht)) hs1
    refine ⟨s', ?_, ?_⟩
    · rw [List.map_cons, List.foldlM_cons, h1]
      exact h'
    · rw [hpar', hpar]
      rfl

/-! ### Restarts -/

theorem acceptedPackets_sublist (cfg : Config) (p : CConsensusParams) (txs : List CMPTransaction) :
    (acceptedPackets cfg p txs).Sublist txs := by
  induction txs generalizing p with
  | nil => exact List.Sublist.slnil
  | cons tx rest ih =>
    unfold acceptedPackets
    split
    · exact (ih _).cons_cons tx
    · exact (ih _).cons tx

theorem acceptedPackets_parsed (h : tx ∈ acceptedPackets cfg p txs) :
    tx.isFeaturePacket = true ∧ tx.interpreted = true ∧ tx.rpcOnly = false := by
  induction txs generalizing p with
  | nil => cases h
  | cons t rest ih =>
    unfold acceptedPackets at h
    split at h
    · rename_i hacc
      rcases List.mem_cons.mp h with rfl | h
      · have hr : (tx.rpcOnly || !tx.interpreted) = false := by
          cases hc : (tx.rpcOnly || !tx.interpreted) with
          | false => rfl
          | true =>
            rw [rulePacket, if_pos hc] at hacc
            cases hacc
        rw [Bool.or_eq_false_iff, Bool.not_eq_false'] at hr
        refine ⟨?_, hr.2, hr.1⟩
        by_contra hno
        rw [rulePacket_of_not_feature cfg p (by simpa using hno)] at hacc
        cases hacc
      · exact ih h
    · exact ih h

theorem mem_packets (h : tx ∈ packets es) :
    ∃ env, Event.packet tx env ∈ es := by
  induction es with
  | nil => cases h
  | cons e rest ih =>
    cases e with
    | packet t env =>
      rcases List.mem_cons.mp h with rfl | h
      · exact ⟨env, .head _⟩
      · obtain ⟨env', h'⟩ := ih h
        exact ⟨env', .tail _ h'⟩
    | _ =>
      obtain ⟨env', h'⟩ := ih h
      exact ⟨env', .tail _ h'⟩

theorem foldl_ruleEvent (cfg : Config) (p : CConsensusParams) (es : List Event) :
    es.foldl (ruleEvent cfg) p = rulePackets cfg p (packets es) := by
  induction es generalizing p with
  | nil => rfl
  | cons e rest ih => cases e <;> exact ih _

theorem run_blocks {n n' : Node} (h : run step n es = some n') :
    (∀ tx ∈ packets es, (ofLex n.clock).1 ≤ tx.block) ∧
      (packets es).Pairwise fun a b => a.block ≤ b.block := by
  induction es generalizing n with
  | nil => exact ⟨fun _ h => absurd h List.not_mem_nil, List.Pairwise.nil⟩
  | cons e rest ih =>
    rw [run_cons, Option.bind_eq_some_iff] at h
    obtain ⟨n₁, h1, h2⟩ := h
    obtain ⟨hnext, -, hclock⟩ := step_eq_some.mp h1
    have hle := e.isNext_block hnext
    have htick := e.tick_block hnext
    obtain ⟨hfrom, hord⟩ := ih h2
    rw [hclock, htick] at hfrom
    have hfrom' : ∀ tx ∈ packets rest, (ofLex n.clock).1 ≤ tx.block := fun tx ht =>
      hle.trans (hfrom tx ht)
    cases e with
    | packet t env =>
      refine ⟨fun tx ht => ?_, List.pairwise_cons.mpr ⟨hfrom, hord⟩⟩
      rcases List.mem_cons.mp ht with rfl | ht
      · exact hle
      · exact hfrom' tx ht
    | _ => exact ⟨hfrom', hord⟩

theorem checkLiveActivations_params (s : State) (height : Nat) :
    (checkLiveActivations s height).params = s.params := by
  rw [checkLiveActivations_frame]

theorem loadActivations_params {classC : Hash → Bool} {r r₁ : State}
    (hfold : (loadOrder db).foldlM (loadActivation chain classC h) r = some r₁) :
    ∃ r', loadActivations chain classC db h r = some r' ∧ r'.params = r₁.params := by
  unfold loadActivations
  rw [hfold]
  refine ⟨_, rfl, ?_⟩
  split
  · rw [addAlert_frame]
    exact checkLiveActivations_params r₁ h
  · exact checkLiveActivations_params r₁ h

/-- The replay of the accepted activations leaves every feature live in the
same blocks after `h`. -/
theorem replayed_agrees {b : Nat}
    (hids : (txs.map CMPTransaction.txid).Nodup) (hord : txs.Pairwise fun a b => a.block ≤ b.block)
    (hh : ∀ tx ∈ txs, tx.block ≤ h) (hok : Reloadable (acceptedPackets cfg p txs)) (hb : h < b)
    (featureId : Nat) :
    isFeatureActivated (rulePackets cfg p
        (replayed ((acceptedPackets cfg p txs).filter CMPTransaction.isActivation))) featureId b =
      isFeatureActivated (rulePackets cfg p txs) featureId b := by
  cases hf : Feature.ofId featureId with
  | none => simp [isFeatureActivated, hf]
  | some f =>
    obtain rfl := Feature.ofId_eq_some.mp hf
    have hrules : SameRules p p := ⟨rfl, rfl, rfl⟩
    have hsub : ((acceptedPackets cfg p txs).filter CMPTransaction.isActivation).Sublist txs :=
      List.filter_sublist.trans (acceptedPackets_sublist cfg p txs)
    have hagree := agree_rulePackets (f := f) (w := f.block p) hrules hord
      (fun tx ht => ⟨Nat.zero_le _, hh tx ht⟩) (Nat.zero_le h) hok.deactivation (.inl rfl)
    have hsame : ((acceptedPackets cfg p txs).filter CMPTransaction.isActivation).Pairwise fun a b =>
        a.featureId = b.featureId → a.block = b.block → a.txid < b.txid :=
      (hok.ordered.filter _).imp_of_mem fun {a b} ha hb hab =>
        hab (List.mem_filter.mp ha).2 (List.mem_filter.mp hb).2
    rw [isFeatureActivated_id, isFeatureActivated_id, block_rulePackets hrules, foldl_newHeight_filter,
      replayed_filter (hids.sublist (hsub.map _)) (hord.sublist hsub) hsame, ← foldl_newHeight_filter]
    refine decide_eq_decide.mpr ?_
    rcases hagree with heq | ⟨hv, hw⟩
    · exact heq ▸ Iff.rfl
    · exact ⟨fun _ => hv.trans hb.le, fun _ => hw.trans hb.le⟩

/-- **Restart.** A node that processed a chain up to height `h` resets its
parameters and loads the activations again: the features are live in the same
later blocks, if no deactivation took effect and activations of one feature in
one block are in the order of their identifiers. -/
theorem features_survive_restart {cfg : Config} {es : List Event} {n : Indexed} {classC : Hash → Bool}
    {h : Nat} {r : State} (hrun : run indexedStep (Indexed.initial cfg) es = some n)
    (hparsed : ∀ e ∈ es, e.isParsed = true) (hids : ((packets es).map CMPTransaction.txid).Nodup)
    (hh : ∀ tx ∈ packets es, tx.block ≤ h) (hcfg : r.cfg = cfg)
    (hreset : r.params = consensusParams cfg.network) (hz : NoneFrozen r)
    (hok : Reloadable (acceptedPackets cfg (consensusParams cfg.network) (packets es))) :
    ∃ r', loadActivations (packets es) classC n.txList h r = some r' ∧ ∀ featureId b, h < b →
      isFeatureActivated r'.params featureId b = isFeatureActivated n.node.state.params featureId b := by
  obtain ⟨hrun', hdb⟩ := run_indexed (initial_noneFrozen cfg) hparsed hids (fun _ _ => rfl) hrun
  obtain ⟨-, hpar, -⟩ := run_params (initial_noneFrozen cfg) hparsed hrun'
  rw [foldl_ruleEvent] at hpar
  obtain ⟨-, hord⟩ := run_blocks hrun'
  let acts := (acceptedPackets cfg (consensusParams cfg.network) (packets es)).filter
    CMPTransaction.isActivation
  have hsub : acts.Sublist (packets es) :=
    List.filter_sublist.trans (acceptedPackets_sublist cfg _ (packets es))
  have horder : loadOrder n.txList = (replayed acts).map CMPTransaction.loadKey := by
    refine loadOrder_eq (hids.sublist (hsub.map _)) fun k block => ?_
    rw [hdb]
    constructor
    · rintro (hc | ⟨tx, htx, ha, hk, hb⟩)
      · cases hc
      · exact ⟨tx, List.mem_filter.mpr ⟨htx, ha⟩, hk, hb⟩
    · rintro ⟨tx, htx, hk, hb⟩
      obtain ⟨htx, ha⟩ := List.mem_filter.mp htx
      exact .inr ⟨tx, htx, ha, hk, hb⟩
  have hload : Loading cfg (consensusParams cfg.network) r := by
    refine ⟨hcfg, hreset ▸ ⟨rfl, rfl, rfl⟩, hz, ?_⟩
    rw [hreset]
    cases cfg.network <;> rfl
  have htxs : ∀ tx ∈ replayed acts, tx ∈ packets es ∧ tx.block ≤ h ∧ tx.isActivation = true ∧
      tx.interpreted = true ∧ tx.rpcOnly = false ∧ tx.property = 0 := by
    intro tx ht
    have ht' : tx ∈ acts := (List.perm_insertionSort _ _).mem_iff.mp ht
    obtain ⟨hacc, ha⟩ := List.mem_filter.mp ht'
    have hmem := hsub.subset ht'
    obtain ⟨hfeat, hi, hr⟩ := acceptedPackets_parsed hacc
    obtain ⟨env, he⟩ := mem_packets hmem
    have hprop : tx.property = 0 := by simpa [Event.isParsed, hfeat] using hparsed _ he
    exact ⟨hmem, hh tx hmem, ha, hi, hr, hprop⟩
  obtain ⟨r₁, hr₁, hpar₁⟩ := foldlM_loadActivation classC hids htxs hload
  rw [← horder] at hr₁
  obtain ⟨r', hr', hpar'⟩ := loadActivations_params hr₁
  refine ⟨r', hr', fun featureId b hb => ?_⟩
  rw [hpar', hpar₁, hpar, hreset]
  exact replayed_agrees hids hord hh hok hb featureId

/-- The activation of the fee system at block 500 of the test network, for block
10580. -/
def activationPacket : CMPTransaction where
  txid := 7
  block := 500
  blockTime := 0
  txIdx := 1
  sender := "3Fc5gWzEQh1YGeqVXH6E4GDEGgbZJREJQ3"
  type := 65534
  version := 65535
  featureId := 9
  activationBlock := 10580

/-- The deactivation of a feature that is live from the start, at block 500. -/
def deactivationPacket : CMPTransaction where
  txid := 8
  block := 500
  blockTime := 0
  txIdx := 1
  sender := "34kwkVRSvFVEoUwcQSgpQ4ZUasuZ54DJLD"
  type := 65533
  version := 65535
  featureId := 4

/-- A chain with one packet. -/
def chainOf (tx : CMPTransaction) : List Event := [.packet tx { blockHash := none }]

/-- The activation is loaded again. -/
theorem features_survive_restart_activation :
    ∃ n r', run indexedStep (Indexed.initial (plainConfig .test)) (chainOf activationPacket) = some n ∧
      loadActivations [activationPacket] (fun _ => true) n.txList 500 (plainState .test) = some r' ∧
      isFeatureActivated r'.params 9 10580 = isFeatureActivated n.node.state.params 9 10580 := by
  have hsome : (run indexedStep (Indexed.initial (plainConfig .test)) (chainOf activationPacket)).isSome =
      true := by decide +kernel
  obtain ⟨n, hn⟩ := Option.isSome_iff_exists.mp hsome
  have hok : Reloadable (acceptedPackets (plainConfig .test) (consensusParams .test) [activationPacket]) := by
    have hacc : acceptedPackets (plainConfig .test) (consensusParams .test) [activationPacket] =
        [activationPacket] := by
      rw [acceptedPackets, if_pos (by decide +kernel), acceptedPackets]
    rw [hacc]
    refine ⟨fun tx htx hoff => ?_, List.pairwise_singleton _ _⟩
    rw [List.mem_singleton.mp htx] at hoff
    cases hoff
  obtain ⟨r', hr', hsame⟩ : ∃ r', loadActivations (packets (chainOf activationPacket)) (fun _ => true)
      n.txList 500 (plainState .test) = some r' ∧ _ :=
    features_survive_restart hn (by simp [chainOf, Event.isParsed, activationPacket])
      (by simp [chainOf, packets]) (by simp [chainOf, packets, activationPacket]) rfl rfl (fun _ => rfl) hok
  exact ⟨n, r', hn, hr', hsame 9 10580 (by decide)⟩

/-- The deactivation is forgotten: the feature is off in the node and on again
after a restart. -/
theorem deactivation_forgotten :
    ¬ ∀ (cfg : Config) (es : List Event) (n : Indexed) (classC : Hash → Bool) (h : Nat) (r r' : State),
      run indexedStep (Indexed.initial cfg) es = some n → (∀ e ∈ es, e.isParsed = true) →
      ((packets es).map CMPTransaction.txid).Nodup → (∀ tx ∈ packets es, tx.block ≤ h) →
      r.cfg = cfg → r.params = consensusParams cfg.network → NoneFrozen r →
      loadActivations (packets es) classC n.txList h r = some r' → ∀ featureId b, h < b →
      isFeatureActivated r'.params featureId b = isFeatureActivated n.node.state.params featureId b := by
  intro hall
  have hoff : ((run indexedStep (Indexed.initial (plainConfig .test)) (chainOf deactivationPacket)).map
      fun n => isFeatureActivated n.node.state.params 4 501) = some false := by decide +kernel
  obtain ⟨n, hn, hoff⟩ := Option.map_eq_some_iff.mp hoff
  have hon : (((run indexedStep (Indexed.initial (plainConfig .test)) (chainOf deactivationPacket)).bind
      fun n => loadActivations [deactivationPacket] (fun _ => true) n.txList 500 (plainState .test)).map
      fun r => isFeatureActivated r.params 4 501) = some true := by decide +kernel
  obtain ⟨r', hr', hon⟩ := Option.map_eq_some_iff.mp hon
  rw [hn, Option.bind_some] at hr'
  have hsame := hall _ _ n (fun _ => true) 500 (plainState .test) r' hn
    (by simp [chainOf, Event.isParsed, deactivationPacket]) (by simp [chainOf, packets])
    (by simp [chainOf, packets, deactivationPacket]) rfl rfl (fun _ => rfl) hr' 4 501 (by decide)
  rw [hon, hoff] at hsame
  cases hsame

end Rapids.Token
