import Rapids.Token.TxSound

/-!
# Rapids.Token.Features

**Feature heights.** A feature is live from the height one consensus parameter
holds, and two calls write that parameter: `activateFeature` schedules it for a
later block, `deactivateFeature` sets it to 999999. What either call does to
the parameters depends on the parameters alone, so the calls are first reduced
to `canActivate` and to one write, `schedule`.

A deactivation is itself a height. It keeps a feature off below block 999999
and nowhere else, however many calls follow: `deactivation_holds_iff` says for
which blocks, over every later sequence of calls.
-/

namespace Rapids.Token

open Rapids.Lib

/-! ### The writes -/

variable (s : State) (p : CConsensusParams)

/-- Does `ActivateFeature` accept the request? -/
def canActivate (featureId activationBlock block : Nat) : Bool :=
  decide (block + p.minActivationBlocks ≤ activationBlock) &&
    decide (activationBlock ≤ block + p.maxActivationBlocks) &&
      !isFeatureActivated p featureId block

/-- Overwrite the height of a feature; an unknown feature has none. -/
def CConsensusParams.schedule (featureId height : Nat) : CConsensusParams :=
  match Feature.ofId featureId with
  | none => p
  | some f => p.setBlock f height

theorem Feature.ofId_eq_some {i : Nat} {f : Feature} : Feature.ofId i = some f ↔ i = f.id := by
  constructor
  · intro h
    unfold Feature.ofId at h
    split at h <;> cases h <;> rfl
  · intro h
    rw [h, Feature.ofId_id]

theorem isFeatureActivated_schedule (i j height block : Nat) :
    isFeatureActivated (p.schedule i height) j block =
      if j = i ∧ (Feature.ofId i).isSome then decide (height ≤ block)
      else isFeatureActivated p j block := by
  unfold CConsensusParams.schedule
  cases hi : Feature.ofId i with
  | none => simp
  | some f =>
    obtain rfl := Feature.ofId_eq_some.mp hi
    unfold isFeatureActivated
    cases hj : Feature.ofId j with
    | none =>
      have hne : j ≠ f.id := by
        rintro rfl
        rw [Feature.ofId_id] at hj
        cases hj
      simp [hne]
    | some g =>
      obtain rfl := Feature.ofId_eq_some.mp hj
      simp only [Feature.block_setBlock]
      by_cases hg : g = f
      · simp [hg]
      · have hne : g.id ≠ f.id := by
          intro h
          have hgf := congrArg Feature.ofId h
          simp only [Feature.ofId_id, Option.some.injEq] at hgf
          exact hg hgf
        simp [hg, hne]

theorem schedule_minActivationBlocks (i height : Nat) :
    (p.schedule i height).minActivationBlocks = p.minActivationBlocks := by
  unfold CConsensusParams.schedule
  cases Feature.ofId i with
  | none => rfl
  | some f => cases f <;> rfl

theorem schedule_maxActivationBlocks (i height : Nat) :
    (p.schedule i height).maxActivationBlocks = p.maxActivationBlocks := by
  unfold CConsensusParams.schedule
  cases Feature.ofId i with
  | none => rfl
  | some f => cases f <;> rfl

/-! ### The calls, on the parameters -/

theorem activateFeature_eq (i a m block : Nat) :
    (activateFeature s i a m block).1 = canActivate s.params i a block ∧
      (activateFeature s i a m block).2.params =
        if canActivate s.params i a block then s.params.schedule i a else s.params := by
  unfold activateFeature canActivate
  by_cases h1 : a < block + s.params.minActivationBlocks ∨ block + s.params.maxActivationBlocks < a
  · have hno : (decide (block + s.params.minActivationBlocks ≤ a) &&
        decide (a ≤ block + s.params.maxActivationBlocks) && !isFeatureActivated s.params i block) =
        false := by
      rcases h1 with h1 | h1
      · simp [Nat.not_le.mpr h1]
      · simp [Nat.not_le.mpr h1]
    rw [if_pos h1, hno]
    exact ⟨rfl, rfl⟩
  rw [if_neg h1]
  obtain ⟨hmin, hmax⟩ := not_or.mp h1
  cases h2 : isFeatureActivated s.params i block with
  | true => simp
  | false =>
    simp only [Nat.not_lt.mp hmin, Nat.not_lt.mp hmax, decide_true, Bool.true_and, Bool.not_false,
      if_true, Bool.false_eq_true, if_false, true_and]
    unfold CConsensusParams.schedule
    cases Feature.ofId i with
    | none =>
      split_ifs
      · rfl
      · rw [addAlert_frame]
        rfl
    | some f =>
      split_ifs
      · rfl
      · rw [addAlert_frame]
        rfl

theorem deactivateFeature_eq (i block : Nat) :
    (deactivateFeature s i block).1 = isFeatureActivated s.params i block ∧
      (deactivateFeature s i block).2.params =
        if isFeatureActivated s.params i block then s.params.schedule i 999999 else s.params := by
  unfold deactivateFeature
  cases h : isFeatureActivated s.params i block with
  | false => simp
  | true =>
    simp only [Bool.not_true, Bool.false_eq_true, if_false, if_true]
    unfold CConsensusParams.schedule
    cases hf : Feature.ofId i with
    | none => simp [isFeatureActivated, hf] at h
    | some f =>
      dsimp only
      rw [addAlert_frame]
      exact ⟨rfl, rfl⟩

/-! ### Calls after a deactivation -/

/-- A call that may move a feature. -/
inductive FeatureCall
  | activate (featureId activationBlock minClientVersion block : Nat)
  | deactivate (featureId block : Nat)
  deriving DecidableEq, Repr

/-- Make a call. -/
def callFeature : FeatureCall → Bool × State
  | .activate i a m block => activateFeature s i a m block
  | .deactivate i block => deactivateFeature s i block

/-- The state after a sequence of calls. -/
def callFeatures (s : State) : List FeatureCall → State
  | [] => s
  | c :: rest => callFeatures (callFeature s c).2 rest

/-- The height a call gives the feature, if it is about the feature and
succeeds. -/
def writes (featureId : Nat) (c : FeatureCall) : Option Nat :=
  if (callFeature s c).1 then
    match c with
    | .activate i a _ _ => if i = featureId then some a else none
    | .deactivate i _ => if i = featureId then some 999999 else none
  else none

/-- Does some call schedule the feature for the block or an earlier one? -/
def isReactivated (featureId block : Nat) : State → List FeatureCall → Bool
  | _, [] => false
  | s, c :: rest =>
    (match c, writes s featureId c with
      | .activate .., some a => decide (a ≤ block)
      | _, _ => false) ||
    isReactivated featureId block (callFeature s c).2 rest

/-- Is the last successful call about the feature an activation? `last` is the
answer for the calls made before. -/
def isRescheduled (featureId : Nat) : State → Bool → List FeatureCall → Bool
  | _, last, [] => last
  | s, last, c :: rest =>
    isRescheduled featureId (callFeature s c).2
      (match c, writes s featureId c with
        | .activate .., some _ => true
        | .deactivate .., some _ => false
        | _, none => last) rest

theorem isFeatureActivated_callFeature (f : Feature) (c : FeatureCall) (block : Nat) :
    isFeatureActivated (callFeature s c).2.params f.id block =
      match writes s f.id c with
      | some height => decide (height ≤ block)
      | none => isFeatureActivated s.params f.id block := by
  cases c with
  | activate i a m b =>
    obtain ⟨h1, h2⟩ := activateFeature_eq s i a m b
    simp only [callFeature, writes, h1, h2]
    by_cases hc : canActivate s.params i a b = true
    · rw [if_pos hc, if_pos hc, isFeatureActivated_schedule]
      by_cases hi : i = f.id
      · simp [hi]
      · simp [hi, Ne.symm hi]
    · rw [if_neg hc, if_neg hc]
  | deactivate i b =>
    obtain ⟨h1, h2⟩ := deactivateFeature_eq s i b
    simp only [callFeature, writes, h1, h2]
    by_cases hc : isFeatureActivated s.params i b = true
    · rw [if_pos hc, if_pos hc, isFeatureActivated_schedule]
      by_cases hi : i = f.id
      · simp [hi]
      · simp [hi, Ne.symm hi]
    · rw [if_neg hc, if_neg hc]

/-- While no call schedules the feature for `block` or earlier, it is live there
exactly if the last call about it was a deactivation and `block` is not below
999999. -/
theorem isFeatureActivated_callFeatures {f : Feature} {block : Nat} {last : Bool} (calls : List FeatureCall)
    (s : State) (hno : isReactivated f.id block s calls = false)
    (hlast : isFeatureActivated s.params f.id block = (!last && decide (999999 ≤ block))) :
    isFeatureActivated (callFeatures s calls).params f.id block =
      (!isRescheduled f.id s last calls && decide (999999 ≤ block)) := by
  induction calls generalizing s last with
  | nil => exact hlast
  | cons c rest ih =>
    simp only [isReactivated, Bool.or_eq_false_iff] at hno
    obtain ⟨hc, hrest⟩ := hno
    simp only [callFeatures, isRescheduled]
    apply ih _ hrest
    have hstep := isFeatureActivated_callFeature s f c block
    cases hw : writes s f.id c with
    | none =>
      rw [hw] at hstep
      rw [hstep, hlast]
      cases c <;> rfl
    | some height =>
      rw [hw] at hstep hc
      rw [hstep]
      cases c with
      | activate i a m b =>
        simp only at hc
        simp [hc]
      | deactivate i b =>
        -- a deactivation writes 999999 and nothing else
        simp only [writes] at hw
        split_ifs at hw
        cases hw
        rfl

/-- **Deactivation.** After a successful deactivation at `b`, and as long as
nothing schedules the feature for `b'` or earlier, the feature is off at block
`b'` exactly if `b'` is below 999999 or an activation for a block after
`b'` has replaced the deactivation. -/
theorem deactivation_holds_iff {s s₁ : State} {featureId b b' : Nat} {calls : List FeatureCall}
    (hoff : deactivateFeature s featureId b = (true, s₁))
    (hno : isReactivated featureId b' s₁ calls = false) :
    isFeatureActivated (callFeatures s₁ calls).params featureId b' = false ↔
      b' < 999999 ∨ isRescheduled featureId s₁ false calls = true := by
  obtain ⟨h1, h2⟩ := deactivateFeature_eq s featureId b
  rw [hoff] at h1 h2
  simp only at h1 h2
  cases hf : Feature.ofId featureId with
  | none => simp [isFeatureActivated, hf] at h1
  | some f =>
    obtain rfl := Feature.ofId_eq_some.mp hf
    have hlast : isFeatureActivated s₁.params f.id b' = (!false && decide (999999 ≤ b')) := by
      rw [h2, ← h1, if_pos rfl, isFeatureActivated_schedule]
      simp
    rw [isFeatureActivated_callFeatures calls s₁ hno hlast]
    simp only [Bool.and_eq_false_iff, Bool.not_eq_false', decide_eq_false_iff_not, Nat.not_le]
    exact or_comm

/-- A node's configuration with nothing set on the command line. -/
def plainConfig (network : Network) : Config where
  network := network
  activationAllowSender := []
  activationIgnoreSender := []
  alertAllowSender := []
  alertIgnoreSender := []
  debugFees := false
  exodusAddress := ""
  isValidDestination := fun _ => true
  devmsc := fun _ => 0

/-- A node of the network before its first block. -/
def plainState (network : Network) : State :=
  { cfg := plainConfig network, params := consensusParams network }

/-- On the test network the deactivation of the exchange at block 500 keeps it
off at block 600, also while it is scheduled again for block 20000. -/
theorem deactivation_holds_test :
    isFeatureActivated (callFeatures (deactivateFeature (plainState .test) 2 500).2
      [.activate 2 20000 0 550]).params 2 600 = false :=
  (deactivation_holds_iff (s := plainState .test) (Prod.ext (by decide +kernel) rfl)
    (by decide +kernel)).mpr (.inl (by decide))

/-- On the main network, where the token layer starts at block 1827900, the
deactivation of the exchange changes nothing. -/
theorem deactivation_without_effect :
    ¬ ∀ (s s₁ : State) (featureId b b' : Nat) (calls : List FeatureCall),
      deactivateFeature s featureId b = (true, s₁) → b ≤ b' →
      isReactivated featureId b' s₁ calls = false →
      isFeatureActivated (callFeatures s₁ calls).params featureId b' = false := by
  intro h
  have hoff : deactivateFeature (plainState .main) 2 1827900 =
      (true, (deactivateFeature (plainState .main) 2 1827900).2) := Prod.ext (by decide +kernel) rfl
  have hon : isFeatureActivated (callFeatures (deactivateFeature (plainState .main) 2 1827900).2
      []).params 2 1827900 = true := by decide +kernel
  rw [h _ _ 2 1827900 1827900 [] hoff (Nat.le_refl _) rfl] at hon
  cases hon

end Rapids.Token
