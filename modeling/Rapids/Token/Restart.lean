import Rapids.Token.Features
import Rapids.Token.Lockstep

/-!
# Rapids.Token.Restart

**Fee distributions after a restart.** Fees on trades are cached until they reach
the threshold of their property. The thresholds are a map of the process, set
when a supply changes; they are in no file and in no database, and
`mastercore_init` does not set them again. A property without one has threshold
0, so that the first fee in it is distributed at once.

Two nodes, one of them restarted, are compared step by step (`Agrees`): they hold
the same, except for thresholds, and for activations and alerts, which are only
displayed. A threshold that has been set since the restart is the same in both.
The only call that reads a threshold another one left is a trade that charges a
fee. So the nodes make the same distributions
(`distributions_survive_restart`) if every such trade is in a property whose
threshold has been set again.
-/

namespace Rapids.Token

open Rapids.Lib OrdMap

/-! ### States that differ in thresholds -/

/-- The thresholds of a node that was restarted, beside those of a node that was
not: what has been set since is the same, and the rest is as it was. The properties
in `F` have been set since, or were not set before. -/
structure Aligned (θ₀ : OrdMap PropertyId Int) (F : PropertyId → Prop)
    (θ θ' : OrdMap PropertyId Int) : Prop where
  set : ∀ p v, θ'.find? p = some v → θ.find? p = some v
  unset : ∀ p, θ'.find? p = none → θ.find? p = θ₀.find? p
  fresh : ∀ p, F p → θ'.find? p ≠ none ∨ θ₀.find? p = none

/-- The states are the same but for thresholds, and for the activations and alerts
that no rule reads. -/
structure Agrees (θ₀ : OrdMap PropertyId Int) (F : PropertyId → Prop) (s s' : State) : Prop where
  same : s' = { s with
    distributionThresholds := s'.distributionThresholds
    pendingActivations := s'.pendingActivations
    completedActivations := s'.completedActivations
    alerts := s'.alerts }
  thresholds : Aligned θ₀ F s.distributionThresholds s'.distributionThresholds

section Primitive

variable {θ₀ : OrdMap PropertyId Int} {F G : PropertyId → Prop} {s s' : State}

variable {θ θ' : OrdMap PropertyId Int}

theorem Aligned.mono (h : Aligned θ₀ F θ θ') (hFG : ∀ p, G p → F p) :
    Aligned θ₀ G θ θ' :=
  ⟨h.set, h.unset, fun p hp => h.fresh p (hFG p hp)⟩

theorem Aligned.find?_eq (h : Aligned θ₀ F θ θ') {p : PropertyId}
    (hp : F p) : θ'.find? p = θ.find? p := by
  cases hfind : θ'.find? p with
  | some v => exact (h.set p v hfind).symm
  | none =>
    rcases h.fresh p hp with hset | hold
    · exact absurd hfind hset
    · rw [h.unset p hfind, hold]

theorem Aligned.insert (h : Aligned θ₀ F θ θ') (p : PropertyId)
    (v : Int) : Aligned θ₀ (fun q => F q ∨ q = p) (θ.insert p v) (θ'.insert p v) := by
  refine ⟨fun q w hq => ?_, fun q hq => ?_, fun q hq => ?_⟩
  · by_cases hqp : q = p
    · subst hqp
      rw [find?_insert_self] at hq ⊢
      exact hq
    · rw [find?_insert_ne _ _ hqp] at hq ⊢
      exact h.set q w hq
  · by_cases hqp : q = p
    · subst hqp
      rw [find?_insert_self] at hq
      cases hq
    · rw [find?_insert_ne _ _ hqp] at hq ⊢
      exact h.unset q hq
  · by_cases hqp : q = p
    · subst hqp
      exact .inl (by rw [find?_insert_self]; exact Option.some_ne_none v)
    · rw [find?_insert_ne _ _ hqp]
      exact h.fresh q (hq.resolve_right hqp)

theorem Agrees.mono (h : Agrees θ₀ F s s') (hFG : ∀ p, G p → F p) : Agrees θ₀ G s s' :=
  ⟨h.same, h.thresholds.mono hFG⟩

theorem Agrees.exists_eq (h : Agrees θ₀ F s s') :
    ∃ θ pending completed alerts, s' = { s with
      distributionThresholds := θ
      pendingActivations := pending
      completedActivations := completed
      alerts := alerts } :=
  ⟨_, _, _, _, h.same⟩

/-- **The primitive steps** in two nodes. Both know the same frozen addresses, so that
any balance may be debited. -/
theorem agrees_lockstep (θ₀ : OrdMap PropertyId Int) : Lockstep (fun _ _ => True) (Agrees θ₀) where
  same h := by
    obtain ⟨_, _, _, _, rfl⟩ := h.exists_eq
    rfl
  write := by
    intro _ s s' r r' h hr hr'
    have hfrozen : r.frozen = s.frozen := by rw [hr]
    have hset : r.distributionThresholds = s.distributionThresholds := by rw [hr]
    obtain ⟨_, _, _, _, rfl⟩ := h.exists_eq
    subst hr'
    refine ⟨?_, ?_⟩
    · rw [← hfrozen]
    · rw [hset]
      exact h.thresholds
  update := by
    intro _ s s' who p amount tt h _
    obtain ⟨θ, _, _, _, rfl⟩ := h.exists_eq
    unfold updateTallyMap
    exact rel_ite (.some ⟨rfl, h⟩) (rel_ite .none (.some ⟨rfl, rfl, h.thresholds⟩))
  orders _ _ _ _ _ := trivial
  erase := by
    intro _ s s' p price pos h
    obtain ⟨θ, _, _, _, rfl⟩ := h.exists_eq
    exact ⟨rfl, h.thresholds⟩
  put := by
    intro _ s s' o p price pos h _
    obtain ⟨θ, _, _, _, rfl⟩ := h.exists_eq
    exact ⟨rfl, h.thresholds⟩
  threshold h hp := h.thresholds.find?_eq hp
  setThreshold := by
    intro _ s s' p h
    obtain ⟨θ, _, _, _, rfl⟩ := h.exists_eq
    exact ⟨rfl, h.thresholds.insert p _⟩
  mono hFG h := h.mono hFG
  live := by
    intro _ s s' height h
    rw [checkLiveActivations_frame s, checkLiveActivations_frame s']
    obtain ⟨θ, _, _, _, rfl⟩ := h.exists_eq
    exact ⟨rfl, h.thresholds⟩
  pending := by
    intro _ s s' a h
    obtain ⟨θ, _, _, _, rfl⟩ := h.exists_eq
    exact ⟨rfl, h.thresholds⟩
  alerts := by
    intro _ s s' f h
    obtain ⟨θ, _, _, _, rfl⟩ := h.exists_eq
    exact ⟨rfl, h.thresholds⟩

theorem agrees_followsFrozen (θ₀ : OrdMap PropertyId Int) : FollowsFrozen (Agrees θ₀) where
  same h := by rw [h.same]
  freeze := by
    intro _ s s' h a p _
    obtain ⟨θ, _, _, _, rfl⟩ := h.exists_eq
    exact ⟨rfl, h.thresholds⟩
  unfreeze := by
    intro _ s s' h a p
    obtain ⟨θ, _, _, _, rfl⟩ := h.exists_eq
    exact ⟨rfl, h.thresholds⟩

end Primitive

/-! ### Events -/

/-- The property in which a call may charge a fee: what a trade buys. -/
def feeProperty (P : CConsensusParams) : Event → Option PropertyId
  | .packet tx _ =>
    if TxType.ofId tx.type = some .metadexTrade ∧
        mayChargeFee P tx.block tx.property tx.desiredProperty = true then some tx.desiredProperty
    else none
  | _ => none

section Events

variable {θ₀ : OrdMap PropertyId Int} {F : PropertyId → Prop} {s s' : State}

theorem interpretPacket_agrees (h : Agrees θ₀ F s s') (tx : CMPTransaction) (env : TxEnv)
    (hfee : ∀ p, feeProperty s.params (.packet tx env) = some p → F p) :
    Option.Rel (EqualRc (Agrees θ₀ F)) (interpretPacket s tx env) (interpretPacket s' tx env) := by
  have hgo : ∀ txType, TxType.ofId tx.type = some txType →
      Option.Rel (EqualRc (Agrees θ₀ F)) (logicMath s tx env txType) (logicMath s' tx env txType) :=
    fun txType htype => (agrees_lockstep θ₀).walk.logicMath_rel h tx env trivial (fun _ _ _ _ _ _ _ => trivial)
      (fun htrade hmay => hfee _ (if_pos ⟨htrade ▸ htype, hmay⟩)) (fun _ => (agrees_lockstep θ₀).followsParams)
      fun _ => ⟨agrees_followsFrozen θ₀, fun _ => trivial⟩
  obtain ⟨θ, _, _, _, rfl⟩ := h.exists_eq
  refine reject_related h _ fun _ => ?_
  cases htype : TxType.ofId tx.type with
  | none => exact .some ⟨rfl, h⟩
  | some txType => exact hgo txType htype

/-- **One call, in two nodes.** They stay the same but for thresholds, if the
threshold of the fee that the call may charge is the same. -/
theorem handle_agrees (h : Agrees θ₀ F s s') {e : Event}
    (hfee : ∀ p, feeProperty s.params e = some p → F p) :
    Option.Rel (Agrees θ₀ F) (handle s e) (handle s' e) := by
  have W := (agrees_lockstep θ₀).walk
  cases e with
  | blockBegin height time hash => exact W.handlerBlockBegin_rel h height time hash
  | payment block sender outputs => exact W.handleDExPayments_rel h sender outputs block
  | packet tx env => exact rel_map (interpretPacket_agrees h tx env hfee) fun _ _ hxy => hxy.2
  | blockEnd height time => exact W.handlerBlockEnd_rel h height time

end Events

/-! ### Restarts -/

/-- What a restarted node loads from the list of transactions, in place of what it
held: `LoadActivations`, `LoadAlerts` and `LoadFreezeState`. -/
structure Reloaded where
  params : CConsensusParams
  pendingActivations : List FeatureActivation
  completedActivations : List FeatureActivation
  alerts : List AlertData
  freezingEnabled : OrdMap (PropertyId ×ₗ Nat) Unit
  frozen : OrdMap (Address ×ₗ PropertyId) Unit

/-- `mastercore_init`, where the files of the last block are there: balances, offers,
accepts, crowdsales, orders and globals come from them, properties and fees from the
databases. No threshold is set. -/
def mastercoreInit (n : Node) (r : Reloaded) : Node :=
  { n with
    state := { n.state with
      params := r.params
      pendingActivations := r.pendingActivations
      completedActivations := r.completedActivations
      alerts := r.alerts
      freezingEnabled := r.freezingEnabled
      frozen := r.frozen
      distributionThresholds := ∅ } }

/-- The rules and freezes are loaded as they were. -/
structure Reloaded.Restores (r : Reloaded) (s : State) : Prop where
  params : r.params = s.params
  freezingEnabled : r.freezingEnabled = s.freezingEnabled
  frozen : r.frozen = s.frozen

/-- All fee distributions after a run. -/
def distributions (n : Node) (es : List Event) : Option (List FeeDistribution) :=
  (run step n es).map fun n => n.state.feeHistory

/-- Has the threshold of the fee that a call may charge been set again, if it was set
in `θ₀`? -/
def isRefreshed (θ₀ : OrdMap PropertyId Int) (s : State) (e : Event) : Bool :=
  (feeProperty s.params e).all fun p =>
    (s.distributionThresholds.find? p).isSome || (θ₀.find? p).isNone

/-- Is it at every call of a run? -/
def isRefreshedRun (θ₀ : OrdMap PropertyId Int) : Node → List Event → Bool
  | _, [] => true
  | n, e :: rest =>
    isRefreshed θ₀ n.state e && (step n e).all fun n => isRefreshedRun θ₀ n rest

section Restarts

variable {θ₀ : OrdMap PropertyId Int} {F : PropertyId → Prop} {n n' : Node} {e : Event}

/-- Nodes that agree. -/
def AgreesNode (θ₀ : OrdMap PropertyId Int) (n n' : Node) : Prop :=
  n.clock = n'.clock ∧ Agrees θ₀ (fun _ => False) n.state n'.state

theorem mastercoreInit_agrees {r : Reloaded} (h : r.Restores n.state) :
    AgreesNode n.state.distributionThresholds n (mastercoreInit n r) := by
  obtain ⟨hparams, hfreezing, hfrozen⟩ := h
  refine ⟨rfl, ?_, ⟨?_, fun _ _ => rfl, fun _ hp => hp.elim⟩⟩
  · unfold mastercoreInit
    rw [hparams, hfreezing, hfrozen]
  · intro p v hp
    cases hp

theorem Agrees.strengthen {s s' : State} (h : Agrees θ₀ (fun _ => False) s s')
    (hfresh : isRefreshed θ₀ s' e = true) :
    Agrees θ₀ (fun p => feeProperty s.params e = some p) s s' := by
  refine ⟨h.same, h.thresholds.set, h.thresholds.unset, fun p hp => ?_⟩
  have hparams : s'.params = s.params := by rw [h.same]
  simpa [isRefreshed, hparams, hp, Option.isSome_iff_ne_none] using hfresh

theorem step_agrees (h : AgreesNode θ₀ n n') (hfresh : isRefreshed θ₀ n'.state e = true) :
    Option.Rel (AgreesNode θ₀) (step n e) (step n' e) := by
  obtain ⟨hclock, hstate⟩ := h
  unfold step
  rw [hclock]
  refine rel_ite (rel_map (handle_agrees (hstate.strengthen hfresh) fun _ hp => hp) ?_) .none
  exact fun a b hab => ⟨rfl, hab.mono fun _ hp => hp.elim⟩

theorem run_agrees {es : List Event} (h : AgreesNode θ₀ n n') (hfresh : isRefreshedRun θ₀ n' es = true) :
    Option.Rel (AgreesNode θ₀) (run step n es) (run step n' es) := by
  induction es generalizing n n' with
  | nil => exact .some h
  | cons e rest ih =>
    rw [isRefreshedRun, Bool.and_eq_true] at hfresh
    have hrel := step_agrees h hfresh.1
    rw [run_cons, run_cons]
    cases hn : step n e with
    | none =>
      rw [hn] at hrel
      cases hn' : step n' e with
      | none => exact .none
      | some b =>
        rw [hn'] at hrel
        cases hrel
    | some a =>
      rw [hn] at hrel
      cases hn' : step n' e with
      | none =>
        rw [hn'] at hrel
        cases hrel
      | some b =>
        rw [hn'] at hrel hfresh
        cases hrel with
        | some hab => exact ih hab hfresh.2

theorem isRefreshedRun_take {es : List Event} (h : isRefreshedRun θ₀ n es = true) (k : Nat) :
    isRefreshedRun θ₀ n (es.take k) = true := by
  induction es generalizing n k with
  | nil => rwa [List.take_nil]
  | cons e rest ih =>
    cases k with
    | zero => rfl
    | succ k =>
      rw [isRefreshedRun, Bool.and_eq_true] at h
      rw [List.take_succ_cons, isRefreshedRun, h.1]
      cases hstep : step n e with
      | none => rfl
      | some n₁ =>
        rw [hstep] at h
        exact ih h.2 k

/-- **Restart.** A node that is restarted, and its rules and freezes with it, makes
the same fee distributions as one that runs through, at every later call, if no
trade may charge a fee in a property whose threshold is not set again. -/
theorem distributions_survive_restart {r : Reloaded} {later : List Event} (h : r.Restores n.state)
    (hfresh : isRefreshedRun n.state.distributionThresholds (mastercoreInit n r) later = true) (k : Nat) :
    distributions (mastercoreInit n r) (later.take k) = distributions n (later.take k) := by
  have hrel := run_agrees (mastercoreInit_agrees h) (isRefreshedRun_take hfresh k)
  unfold distributions
  generalize run step n (later.take k) = x at hrel ⊢
  generalize run step (mastercoreInit n r) (later.take k) = y at hrel ⊢
  cases hrel with
  | none => rfl
  | some hab =>
    rw [Option.map_some, Option.map_some, hab.2.same]

end Restarts

/-- All that is loaded is as it was. -/
def Reloaded.ofState (s : State) : Reloaded where
  params := s.params
  pendingActivations := s.pendingActivations
  completedActivations := s.completedActivations
  alerts := s.alerts
  freezingEnabled := s.freezingEnabled
  frozen := s.frozen

/-- A test chain one year after the dev tokens began to vest: half of them are the
Exodus address's. -/
def vestedConfig : Config :=
  { plainConfig .regtest with exodusAddress := "exodus", devmsc := fun _ => 2815811788111 }

/-- The time of all its blocks. -/
def vestedTime : Nat := 1409550800

/-- Block 199: fees are activated for block 200, and dev tokens vest. -/
def vestedBlock : List Event :=
  [ .packet
      { txid := 9, block := 199, blockTime := vestedTime, txIdx := 1,
        sender := "3Fc5gWzEQh1YGeqVXH6E4GDEGgbZJREJQ3", type := 65534, version := 65535,
        featureId := 9, activationBlock := 200 }
      { blockHash := none },
    .blockEnd 199 vestedTime ]

/-- A property of a billion tokens, created in block 200; its threshold is 10000. -/
def issuance (idx : Nat) (sender ticker : String) : Event :=
  .packet
    { txid := idx, block := 200, blockTime := vestedTime, txIdx := idx, sender := sender, type := 50,
      nValue := 1000000000, ecosystem := 1, propType := 1, name := ticker, ticker := ticker }
    { blockHash := some 200 }

/-- An order at price one. -/
def orderAtOne (block idx : Nat) (sender : Address) (p desired : PropertyId) (amount : Nat) : Event :=
  .packet
    { txid := idx, block := block, blockTime := vestedTime, txIdx := idx, sender := sender, type := 25,
      property := p, nNewValue := amount, desiredProperty := desired, desiredValue := amount }
    { blockHash := some block }

/-- Block 200: two properties, and an order that sells the first for the second. -/
def marketBlock (amount : Nat) : List Event :=
  [ issuance 1 "alice" "AAA", issuance 2 "bob" "BBB", orderAtOne 200 3 "alice" 3 4 amount,
    .blockEnd 200 vestedTime ]

/-- Block 201 takes the order. -/
def takingOrder (amount : Nat) : Event := orderAtOne 201 0 "bob" 4 3 amount

/-- A node restarted before the properties are created: the fee of 10000 reaches
the threshold, and is distributed as it would have been. -/
theorem distributions_survive_restart_early :
    ∃ n, run step (Node.initial vestedConfig) vestedBlock = some n ∧
      distributions n (marketBlock 20000000 ++ [takingOrder 20000000]) =
        some [⟨3, 201, 10000, [(10000, "exodus")]⟩] ∧
      distributions (mastercoreInit n (.ofState n.state)) (marketBlock 20000000 ++ [takingOrder 20000000]) =
        distributions n (marketBlock 20000000 ++ [takingOrder 20000000]) := by
  have hrun : ((run step (Node.initial vestedConfig) vestedBlock).map fun n =>
      (distributions n (marketBlock 20000000 ++ [takingOrder 20000000]),
        isRefreshedRun n.state.distributionThresholds (mastercoreInit n (.ofState n.state))
          (marketBlock 20000000 ++ [takingOrder 20000000]))) =
      some (some [⟨3, 201, 10000, [(10000, "exodus")]⟩], true) := by decide +kernel
  obtain ⟨n, hn, hvals⟩ := Option.map_eq_some_iff.mp hrun
  rw [Prod.mk.injEq] at hvals
  exact ⟨n, hn, hvals.1, distributions_survive_restart ⟨rfl, rfl, rfl⟩ hvals.2 5⟩

/-- A node restarted after block 200 has lost the thresholds: it distributes a fee of
1000 at once, which a node that runs through keeps. -/
theorem restart_distributes_early :
    ¬ ∀ (cfg : Config) (es later : List Event) (n : Node), run step (Node.initial cfg) es = some n →
      distributions (mastercoreInit n (.ofState n.state)) later = distributions n later := by
  intro hall
  have hrun : ((run step (Node.initial vestedConfig) (vestedBlock ++ marketBlock 2000000)).map fun n =>
      (distributions n [takingOrder 2000000],
        distributions (mastercoreInit n (.ofState n.state)) [takingOrder 2000000])) =
      some (some [], some [⟨3, 201, 1000, [(1000, "exodus")]⟩]) := by decide +kernel
  obtain ⟨n, hn, hvals⟩ := Option.map_eq_some_iff.mp hrun
  rw [Prod.mk.injEq] at hvals
  have hsame := hall _ _ [takingOrder 2000000] n hn
  rw [hvals.1, hvals.2] at hsame
  cases hsame

end Rapids.Token
