import Rapids.Token.Features
import Rapids.Token.Invariant

/-!
# Rapids.Token.RulesSound

**Who writes the consensus parameters.** Of all the calls into the token layer
only activation and deactivation packets do, and what they write depends on
nothing but the parameters, the configuration and the packet. So the parameters
of a node are a fold of `ruleStep` over the packets it processed
(`run_params`), whatever happened to balances, offers and orders.

The frame is `KeepsRules`: configuration and parameters stay, and no address is
frozen for property 0, which is the property of a feature packet. Every handler
but the two for features has it.
-/

namespace Rapids.Token

open Rapids.Lib

/-! ### The frame -/

/-- Is no address frozen for property 0? -/
def NoneFrozen (s : State) : Prop := ∀ a, isAddressFrozen s a 0 = false

/-- A step that leaves configuration and parameters alone, and freezes nobody
for property 0. -/
structure KeepsRules (s s' : State) : Prop where
  cfg : s'.cfg = s.cfg
  params : s'.params = s.params
  noneFrozen : NoneFrozen s → NoneFrozen s'

section
variable {s s' s₁ s₂ s₃ : State} {tx : CMPTransaction} {env : TxEnv} {rc : Int}

theorem KeepsRules.refl (s : State) : KeepsRules s s := ⟨rfl, rfl, id⟩

theorem KeepsRules.trans (h : KeepsRules s₁ s₂) (h' : KeepsRules s₂ s₃) : KeepsRules s₁ s₃ :=
  ⟨h'.cfg.trans h.cfg, h'.params.trans h.params, fun hz => h'.noneFrozen (h.noneFrozen hz)⟩

theorem KeepsRules.of_eq (hcfg : s'.cfg = s.cfg) (hparams : s'.params = s.params)
    (hfrozen : s'.frozen = s.frozen) : KeepsRules s s' := by
  refine ⟨hcfg, hparams, fun hz a => ?_⟩
  rw [isAddressFrozen, hfrozen]
  exact hz a

theorem unfreezeAddress_keepsRules (s : State) (who : Address) (p : PropertyId) :
    KeepsRules s (unfreezeAddress s who p) := by
  refine ⟨rfl, rfl, fun hz a => ?_⟩
  have ha := hz a
  simp only [isAddressFrozen, unfreezeAddress, OrdMap.contains_erase, Bool.and_eq_false_iff] at ha ⊢
  exact .inr ha

theorem freezeAddress_keepsRules (s : State) (who : Address) {p : PropertyId} (hp : p ≠ 0) :
    KeepsRules s (freezeAddress s who p) := by
  refine ⟨rfl, rfl, fun hz a => ?_⟩
  have ha := hz a
  have hne : toLex (a, 0) ≠ toLex (who, p) := by
    intro h
    exact hp (Prod.mk.inj (toLex.injective h)).2.symm
  simp only [isAddressFrozen, freezeAddress, OrdMap.contains_insert, Bool.or_eq_false_iff] at ha ⊢
  exact ⟨by simpa using hne, ha⟩

/-- **The primitive steps** keep the rules; only whom they freeze matters. -/
theorem keepsRules_invariant (s₀ : State) : Invariant (fun _ => True) (KeepsRules s₀) where
  ne_zero _ := trivial
  balance _ _ := trivial
  offers _ _ _ := trivial
  accepts _ _ _ := trivial
  orders _ _ _ _ _ _ := trivial
  crowds _ _ _ _ := trivial
  write := fun h hs => by
    refine h.trans (KeepsRules.of_eq ?_ ?_ ?_) <;> rw [hs]
  update := fun {s} h who p _ amount tt =>
    every_ite (fun _ => every_some h) fun _ => every_ite (fun _ => every_none) fun _ =>
      every_some (h.trans (KeepsRules.of_eq rfl rfl rfl))
  putOffer h _ _ _ := h.trans (KeepsRules.of_eq rfl rfl rfl)
  eraseOffer h _ := h.trans (KeepsRules.of_eq rfl rfl rfl)
  putAccept h _ _ _ := h.trans (KeepsRules.of_eq rfl rfl rfl)
  eraseAccept h _ := h.trans (KeepsRules.of_eq rfl rfl rfl)
  putOrder h _ _ _ _ _ := h.trans (KeepsRules.of_eq rfl rfl rfl)
  eraseOrder h _ _ _ := h.trans (KeepsRules.of_eq rfl rfl rfl)
  putCrowd h _ _ _ := h.trans (KeepsRules.of_eq rfl rfl rfl)
  eraseCrowd h _ := h.trans (KeepsRules.of_eq rfl rfl rfl)
  freeze h who _ hp := h.trans (freezeAddress_keepsRules _ who hp)
  unfreeze h who p := h.trans (unfreezeAddress_keepsRules _ who p)

/-! ### Packets -/

/-- Is the packet an activation or a deactivation? -/
def CMPTransaction.isFeaturePacket (tx : CMPTransaction) : Bool :=
  TxType.ofId tx.type == some .activation || TxType.ofId tx.type == some .deactivation

/-! ### Feature packets -/

/-- What a packet does to the parameters: is it an accepted activation or
deactivation, and the parameters after it. -/
def rulePacket (cfg : Config) (p : CConsensusParams) (tx : CMPTransaction) : Bool × CConsensusParams :=
  if tx.rpcOnly || !tx.interpreted then (false, p)
  else
    match TxType.ofId tx.type with
    | some .activation =>
      if isTransactionTypeAllowed p tx.block tx.property .activation tx.version &&
          checkActivationAuthorization cfg tx.sender &&
          canActivate p tx.featureId tx.activationBlock tx.block then
        (true, p.schedule tx.featureId tx.activationBlock)
      else (false, p)
    | some .deactivation =>
      if isTransactionTypeAllowed p tx.block tx.property .deactivation tx.version &&
          checkDeactivationAuthorization cfg tx.sender &&
          isFeatureActivated p tx.featureId tx.block then
        (true, p.schedule tx.featureId 999999)
      else (false, p)
    | _ => (false, p)

theorem rulePacket_of_not_feature (cfg : Config) (p : CConsensusParams)
    (h : tx.isFeaturePacket = false) : rulePacket cfg p tx = (false, p) := by
  simp only [CMPTransaction.isFeaturePacket, Bool.or_eq_false_iff, beq_eq_false_iff_ne] at h
  unfold rulePacket
  by_cases hr : (tx.rpcOnly || !tx.interpreted) = true
  · rw [if_pos hr]
  · rw [if_neg hr]
    split
    · exact absurd ‹_› h.1
    · exact absurd ‹_› h.2
    · rfl

/-- The outcome of a feature packet in terms of its parameters. -/
structure RuleStep (s s' : State) (tx : CMPTransaction) (rc : Int) : Prop where
  cfg : s'.cfg = s.cfg
  params : s'.params = (rulePacket s.cfg s.params tx).2
  noneFrozen : NoneFrozen s → NoneFrozen s'
  accepted : 0 ≤ rc ↔ (rulePacket s.cfg s.params tx).1 = true

/-- The outcome of a feature packet: it is refused, or the feature decides. -/
theorem ruleStep_of_feature {denied unauthorized ok : Bool} {p : CConsensusParams} {go : Option (Int × State)}
    (hrule : rulePacket s.cfg s.params tx = if !denied && !unauthorized && ok then (true, p) else (false, s.params))
    (h : reject s [(denied, pktError - 22), (unauthorized, pktError - 51)] go = some (rc, s'))
    (hgo : go = some (rc, s') → s'.cfg = s.cfg ∧ s'.params = (if ok then p else s.params) ∧
      (NoneFrozen s → NoneFrozen s') ∧ (0 ≤ rc ↔ ok = true)) : RuleStep s s' tx rc := by
  have hneg : pktError - 22 < 0 ∧ pktError - 51 < 0 := by decide
  rcases reject_eq [(denied, pktError - 22), (unauthorized, pktError - 51)] with
    ⟨check, hmem, hholds, heq⟩ | ⟨hpass, heq⟩
  · rw [heq] at h
    cases h
    have hoff : rulePacket s.cfg s.params tx = (false, s.params) ∧ check.2 < 0 := by
      simp only [List.mem_cons, List.not_mem_nil, or_false] at hmem
      rcases hmem with rfl | rfl
      · rw [hrule, show denied = true from hholds]
        exact ⟨rfl, hneg.1⟩
      · rw [hrule, show unauthorized = true from hholds, Bool.not_true, Bool.and_false]
        exact ⟨rfl, hneg.2⟩
    exact ⟨rfl, by rw [hoff.1], id, by rw [hoff.1]; simpa using hoff.2⟩
  · rw [heq] at h
    obtain ⟨hcfg, hpar, hz, hrc⟩ := hgo h
    have hd : denied = false := hpass _ (.head _)
    have hu : unauthorized = false := hpass _ (.tail _ (.head _))
    rw [hd, hu] at hrule
    refine ⟨hcfg, ?_, hz, hrc.trans ?_⟩
    · rw [hpar, hrule]
      cases ok <;> rfl
    · rw [hrule]
      cases ok <;> simp

theorem logicMathActivation_rules (ht : TxType.ofId tx.type = some .activation)
    (hr : (tx.rpcOnly || !tx.interpreted) = false) (h : logicMathActivation s tx = some (rc, s')) :
    RuleStep s s' tx rc := by
  obtain ⟨hok, hpar⟩ := activateFeature_eq s tx.featureId tx.activationBlock tx.minClientVersion tx.block
  have hfr := activateFeature_frame s tx.featureId tx.activationBlock tx.minClientVersion tx.block
  refine ruleStep_of_feature (by
    simp only [rulePacket, hr, ht, notAllowed, Bool.not_not, Bool.false_eq_true, if_false]; rfl) h fun h => ?_
  cases ha : activateFeature s tx.featureId tx.activationBlock tx.minClientVersion tx.block with
  | mk ok s₁ =>
    rw [ha] at h hok hpar hfr
    dsimp only at hok hpar hfr
    have hs1 : s₁.cfg = s.cfg ∧ (NoneFrozen s → NoneFrozen s₁) := by
      rw [hfr]
      exact ⟨rfl, id⟩
    rw [← hok] at hpar ⊢
    cases ok with
    | false =>
      cases h
      exact ⟨hs1.1, hpar, hs1.2, by decide⟩
    | true =>
      cases h
      exact ⟨hs1.1, hpar, hs1.2, by decide⟩

theorem logicMathDeactivation_rules (ht : TxType.ofId tx.type = some .deactivation)
    (hr : (tx.rpcOnly || !tx.interpreted) = false) (h : logicMathDeactivation s tx = some (rc, s')) :
    RuleStep s s' tx rc := by
  obtain ⟨hok, hpar⟩ := deactivateFeature_eq s tx.featureId tx.block
  have hfr := deactivateFeature_frame s tx.featureId tx.block
  refine ruleStep_of_feature (by
    simp only [rulePacket, hr, ht, notAllowed, Bool.not_not, Bool.false_eq_true, if_false]; rfl) h fun h => ?_
  cases ha : deactivateFeature s tx.featureId tx.block with
  | mk ok s₁ =>
    rw [ha] at h hok hpar hfr
    dsimp only at hok hpar hfr
    have hs1 : s₁.cfg = s.cfg ∧ (NoneFrozen s → NoneFrozen s₁) := by
      rw [hfr]
      exact ⟨rfl, id⟩
    rw [← hok] at hpar ⊢
    cases ok with
    | false =>
      cases h
      exact ⟨hs1.1, hpar, hs1.2, by decide⟩
    | true =>
      simp only [Option.map_eq_some_iff, Prod.mk.injEq] at h
      obtain ⟨s₂, h2, rfl, rfl⟩ := h
      have k := (keepsRules_invariant s₁).closeOrders_inv (KeepsRules.refl s₁) tx.featureId s₂ h2
      exact ⟨k.cfg.trans hs1.1, k.params.trans hpar, fun hz => k.noneFrozen (hs1.2 hz), by decide⟩

theorem interpretPacket_eq (hr : (tx.rpcOnly || !tx.interpreted) = false)
    (hf : isAddressFrozen s tx.sender tx.property = false) :
    interpretPacket s tx env =
      match TxType.ofId tx.type with
      | none => some (pktError - 100, s)
      | some txType => logicMath s tx env txType := by
  rw [Bool.or_eq_false_iff, Bool.not_eq_false'] at hr
  have hnone : [(tx.rpcOnly, pktError - 1), (!tx.interpreted, pktError - 2),
      (isAddressFrozen s tx.sender tx.property, pktError - 3)].find? Prod.fst = none := by
    simp [hr.1, hr.2, hf]
  cases htype : TxType.ofId tx.type with
  | none => simp only [interpretPacket, reject, hnone, htype]
  | some txType => simp [interpretPacket, reject, hnone, htype]

/-- **One packet.** What `interpretPacket` does to the parameters; a feature
packet carries property 0, and its code is no error exactly if it is accepted. -/
theorem interpretPacket_rules (hz : NoneFrozen s) (hp : tx.isFeaturePacket = true → tx.property = 0)
    (h : interpretPacket s tx env = some (rc, s')) :
    s'.cfg = s.cfg ∧ s'.params = (rulePacket s.cfg s.params tx).2 ∧ NoneFrozen s' ∧
      (tx.isFeaturePacket = true → (0 ≤ rc ↔ (rulePacket s.cfg s.params tx).1 = true)) := by
  cases hr : (tx.rpcOnly || !tx.interpreted) with
  | true =>
    have hrule : rulePacket s.cfg s.params tx = (false, s.params) := by simp [rulePacket, hr]
    have hrej : rc < 0 ∧ s' = s := by
      rcases reject_cases (by simp [allErrors, pktError]) h with hrej | ⟨hc, -⟩
      · exact hrej
      · simp only [List.mem_cons, List.not_mem_nil, or_false, forall_eq_or_imp, forall_eq] at hc
        rw [Bool.or_eq_true] at hr
        rcases hr with hr | hr
        · exact absurd hr (by simp [hc.1])
        · exact absurd hr (by simp [hc.2.1])
    obtain ⟨hneg, rfl⟩ := hrej
    rw [hrule]
    exact ⟨rfl, rfl, hz, fun _ => by simp; omega⟩
  | false =>
    by_cases hfeat : tx.isFeaturePacket = true
    · have hf : isAddressFrozen s tx.sender tx.property = false := by
        rw [hp hfeat]
        exact hz _
      rw [interpretPacket_eq hr hf] at h
      simp only [CMPTransaction.isFeaturePacket, Bool.or_eq_true, beq_iff_eq] at hfeat
      rcases hfeat with ht | ht
      · simp only [ht, logicMath] at h
        have st := logicMathActivation_rules ht hr h
        exact ⟨st.cfg, st.params, st.noneFrozen hz, fun _ => st.accepted⟩
      · simp only [ht, logicMath] at h
        have st := logicMathDeactivation_rules ht hr h
        exact ⟨st.cfg, st.params, st.noneFrozen hz, fun _ => st.accepted⟩
    · have hk : KeepsRules s s' := by
        have hevery : Every (Out (KeepsRules s)) (interpretPacket s tx env) := by
          refine reject_out (KeepsRules.refl s) fun _ => ?_
          cases ht : TxType.ofId tx.type with
          | none => exact every_some (KeepsRules.refl s)
          | some txType =>
            simp only [CMPTransaction.isFeaturePacket, ht, Bool.or_eq_true, beq_iff_eq,
              Option.some.injEq] at hfeat
            exact (keepsRules_invariant s).logicMath_inv tx env (KeepsRules.refl s) fun hf => absurd hf hfeat
        exact hevery _ h
      refine ⟨hk.cfg, hk.params.trans ?_, hk.noneFrozen hz, fun hc => absurd hc hfeat⟩
      rw [rulePacket_of_not_feature s.cfg s.params (by simpa using hfeat)]

/-! ### Runs -/

/-- What an event does to the parameters. -/
def ruleEvent (cfg : Config) (p : CConsensusParams) : Event → CConsensusParams
  | .packet tx _ => (rulePacket cfg p tx).2
  | _ => p

/-- A feature packet names no property: `interpret_Activation` and
`interpret_Deactivation` leave it 0. -/
def Event.isParsed : Event → Bool
  | .packet tx _ => !tx.isFeaturePacket || tx.property == 0
  | _ => true

theorem handle_rules {e : Event} (hz : NoneFrozen s) (hp : e.isParsed = true)
    (h : handle s e = some s') :
    s'.cfg = s.cfg ∧ s'.params = ruleEvent s.cfg s.params e ∧ NoneFrozen s' := by
  have hkeep : (∀ tx env, e ≠ .packet tx env) → KeepsRules s s' := fun hne =>
    (keepsRules_invariant s).handle_inv (KeepsRules.refl s) e (fun tx env he => absurd he (hne tx env)) s' h
  cases e with
  | packet tx env =>
    obtain ⟨rc, h⟩ := handle_packet h
    have hprop : tx.isFeaturePacket = true → tx.property = 0 := fun hf => by
      simpa [Event.isParsed, hf] using hp
    obtain ⟨hc, hpar, hz', -⟩ := interpretPacket_rules hz hprop h
    exact ⟨hc, hpar, hz'⟩
  | blockBegin height time hash =>
    have k := hkeep fun _ _ => Event.noConfusion
    exact ⟨k.cfg, k.params, k.noneFrozen hz⟩
  | payment block sender outputs =>
    have k := hkeep fun _ _ => Event.noConfusion
    exact ⟨k.cfg, k.params, k.noneFrozen hz⟩
  | blockEnd height time =>
    have k := hkeep fun _ _ => Event.noConfusion
    exact ⟨k.cfg, k.params, k.noneFrozen hz⟩

/-- **The parameters of a run** are a fold over its events. -/
theorem run_params {n n' : Node} {es : List Event} (hz : NoneFrozen n.state)
    (hp : ∀ e ∈ es, e.isParsed = true) (h : run step n es = some n') :
    n'.state.cfg = n.state.cfg ∧
      n'.state.params = es.foldl (ruleEvent n.state.cfg) n.state.params ∧ NoneFrozen n'.state := by
  induction es generalizing n with
  | nil =>
    cases h
    exact ⟨rfl, rfl, hz⟩
  | cons e rest ih =>
    rw [run_cons, Option.bind_eq_some_iff] at h
    obtain ⟨n₁, h1, h2⟩ := h
    obtain ⟨-, hh, -⟩ := step_eq_some.mp h1
    obtain ⟨hc, hpar, hz1⟩ := handle_rules hz (hp e (.head _)) hh
    obtain ⟨hc', hpar', hz'⟩ := ih hz1 (fun e he => hp e (.tail _ he)) h2
    rw [hc] at hc' hpar'
    exact ⟨hc', by rw [hpar', hpar]; rfl, hz'⟩

theorem initial_noneFrozen (cfg : Config) : NoneFrozen (State.initial cfg) := fun _ => rfl

end

end Rapids.Token
