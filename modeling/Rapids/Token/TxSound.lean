import Rapids.Lib.Outcome
import Rapids.Token.DexSound
import Rapids.Token.MetaDexSound
import Rapids.Token.Tx

/-!
# Rapids.Token.TxSound

What **a packet can do**.

Each handler either rejects its transaction, with a negative code and the
state as it was, or succeeds. What success means depends on the handler:
`Settled` for those outside the exchanges (an `Effect` with the tokens they
mint, and an `SpFrame`), `Created` for those that create a property, an
`ExchangeStep` or a `MetaDexStep` for the others. `interpretPacket_step`
collects them in `PacketStep`; everything about runs is derived from that one
inversion.
-/

namespace Rapids.Token

open Rapids.Lib OrdMap

variable {s s' : State} {tx : CMPTransaction} {rc : Int} {env : TxEnv} {p : PropertyId} {block : Nat}

/-! ### Checks -/

/-- Are all codes of a list of checks errors? -/
def allErrors (checks : List (Bool × Int)) : Prop := ∀ c ∈ checks, c.1 = true → c.2 < 0

/-- A handler returns the code of a check that holds, in whatever state, or goes on if none does. -/
theorem reject_eq (checks : List (Bool × Int)) :
    (∃ check ∈ checks, check.1 = true ∧ ∀ s go, reject s checks go = some (check.2, s)) ∨
      ((∀ c ∈ checks, c.1 = false) ∧ ∀ s go, reject s checks go = go) := by
  cases hc : checks.find? Prod.fst with
  | some check =>
    refine .inl ⟨check, List.mem_of_find?_eq_some hc, List.find?_some hc, fun s go => ?_⟩
    rw [reject, hc]
  | none =>
    refine .inr ⟨fun c hmem => ?_, fun s go => ?_⟩
    · simpa using List.find?_eq_none.mp hc c hmem
    · rw [reject, hc]

variable {go : Option (Int × State)} {amount : Int} {featureId : Nat}

theorem reject_cases {checks : List (Bool × Int)}
    (hneg : allErrors checks) (h : reject s checks go = some (rc, s')) :
    (rc < 0 ∧ s' = s) ∨ ((∀ c ∈ checks, c.1 = false) ∧ go = some (rc, s')) := by
  rcases reject_eq checks with ⟨check, hmem, hholds, heq⟩ | ⟨hok, heq⟩
  · rw [heq] at h
    exact .inl (rejected (hneg check hmem hholds) h)
  · rw [heq] at h
    exact .inr ⟨hok, h⟩

/-- What holds of the state as it is, and of all that a handler goes on to, holds of its results. -/
theorem every_reject {P : Int × State → Prop} {checks : List (Bool × Int)}
    (hstay : ∀ rc, P (rc, s)) (hgo : (∀ c ∈ checks, c.1 = false) → Every P go) :
    Every P (reject s checks go) := by
  rcases reject_eq checks with ⟨check, -, -, heq⟩ | ⟨hok, heq⟩
  · rw [heq]
    exact every_some (hstay check.2)
  · rw [heq]
    exact hgo hok

theorem reject_rel {r : Int × State → Int × State → Prop} (hstay : ∀ rc, r (rc, s) (rc, s'))
    (checks : List (Bool × Int)) {go' : Option (Int × State)}
    (hgo : (∀ c ∈ checks, c.1 = false) → Option.Rel r go go') :
    Option.Rel r (reject s checks go) (reject s' checks go') := by
  rcases reject_eq checks with ⟨check, -, -, heq⟩ | ⟨hok, heq⟩
  · rw [heq, heq]
    exact .some (hstay check.2)
  · rw [heq, heq]
    exact hgo hok

/-- The outcome of a handler outside the exchanges. -/
def Settled (s s' : State) (block : Nat) (rc : Int) (minted : PropertyId → Int) : Prop :=
  (rc < 0 ∧ s' = s) ∨ (rc = 0 ∧ Effect s s' block minted ∧ SpFrame s s')

/-! ### Sends -/

theorem Moved.effect {a b : Address}
    (h : Moved s s' p amount (a, .balance) (b, .balance)) (hf : FeesUpTo s block) :
    Effect s s' block (fun _ => 0) ∧ SpFrame s s' := by
  refine ⟨⟨?_, ?_, ?_, ?_, fun a q t ht => ?_, fun q => ?_, fun q e he => ?_, h.solvent⟩, ?_⟩
  · rw [h.frame]
  · rw [h.frame]
  · rw [h.frame]
  · rw [h.frame]
  · rw [h.balance]
    simp [ht]
  · rw [h.supply, add_zero]
  · rw [h.getCacheHistory_eq] at he
    exact hf q e he
  · apply SpFrame.of_eq <;> rw [h.frame]

theorem Moved.participationMint_eq {src dst : Bucket}
    (h : Moved s s' p amount src dst) (tx : Investment) :
    participationMint s' tx = participationMint s tx := by
  have hsp : ∀ q, getSP s' q = getSP s q := fun q => by
    rw [h.frame]
    rfl
  refine participationMint_congr ?_ (fun c _ => ⟨hsp _, h.supply _⟩) ?_
  · rw [h.frame]
  · simp [isPropertyDivisible, hsp]

theorem logicMathSimpleSend_settled
    (hf : FeesUpTo s tx.block) (h : logicMathSimpleSend s tx env = some (rc, s')) :
    Settled s s' tx.block rc (participationMint s (tx.investment env)) ∧
      (rc = 0 → LedgerInv s → Mintable s (participationMint s (tx.investment env))) := by
  rcases reject_cases (by simp [allErrors, pktErrorSend]) h with hr | ⟨-, h⟩
  · exact ⟨.inl hr, fun h0 => by omega⟩
  simp only [do_eq_some, Prod.exists, Option.pure_def, Option.some.injEq, Prod.mk.injEq] at h
  obtain ⟨s₁, h1, rc₁, s₂, h2, rfl, rfl⟩ := h
  have mv := transferTally_moved (by simp) (by simp) h1
  obtain ⟨e₁, f₁⟩ := mv.effect hf
  obtain ⟨e₂, f₂⟩ := crowdsaleParticipation_effect e₁.feesUpTo h2
  rw [mv.participationMint_eq] at e₂
  refine ⟨.inr ⟨rfl, e₁.trans e₂ fun q => (zero_add _).symm, f₁.trans f₂⟩, fun _ hi => ?_⟩
  have hi1 := LedgerStep.inv ⟨e₁, f₁, hi.mintable_zero⟩ hi
  have hm := participationMint_mintable hi1 h2
  rw [mv.participationMint_eq] at hm
  exact hm.before e₁ f₁

theorem payOwners_effect {sender : Address} {l : List (Int × Address)} (hf : FeesUpTo s block) (h : payOwners s sender p l = some s') :
    Effect s s' block (fun _ => 0) ∧ SpFrame s s' := by
  induction l generalizing s with
  | nil =>
    simp only [payOwners, Option.some.injEq] at h
    subst h
    exact ⟨Effect.refl hf, SpFrame.of_eq rfl rfl rfl⟩
  | cons r rest ih =>
    simp only [payOwners, do_eq_some] at h
    obtain ⟨s₁, h1, h2⟩ := h
    obtain ⟨e₁, f₁⟩ := (transferTally_moved (by simp) (by simp) h1).effect hf
    obtain ⟨e₂, f₂⟩ := ih e₁.feesUpTo h2
    exact ⟨e₁.trans e₂ fun _ => (zero_add _).symm, f₁.trans f₂⟩

theorem notifyFeeBurned_effect (hf : FeesUpTo s tx.block)
    (h : notifyFeeBurned s tx = some s') : Effect s s' tx.block (fun _ => 0) ∧ SpFrame s s' := by
  unfold notifyFeeBurned at h
  split_ifs at h
  · have st := notifyTotalTokensChanged_feeStep h
    exact ⟨st.effect hf, st.spFrame⟩
  · simp only [Option.some.injEq] at h
    subst h
    exact ⟨Effect.refl hf, SpFrame.of_eq rfl rfl rfl⟩

theorem logicMathSendToOwners_settled
    (hf : FeesUpTo s tx.block) (h : logicMathSendToOwners s tx = some (rc, s')) :
    Settled s s' tx.block rc fun _ => 0 := by
  rcases reject_cases (by simp [allErrors, pktErrorSto]) h with hr | ⟨-, h⟩
  · exact .inl hr
  simp only [Option.bind_eq_bind, Option.bind_eq_some_iff] at h
  obtain ⟨receivers, -, h⟩ := h
  rcases reject_cases (by simp [allErrors, pktErrorSto]) h with hr | ⟨-, h⟩
  · exact .inl hr
  simp only [Option.bind_eq_some_iff] at h
  obtain ⟨s₁, h1, h⟩ := h
  split_ifs at h
  simp only [Option.bind_eq_some_iff, Option.pure_def, Option.some.injEq, Prod.mk.injEq] at h
  obtain ⟨s₂, h2, rfl, rfl⟩ := h
  obtain ⟨e₁, f₁⟩ := payOwners_effect hf h1
  obtain ⟨e₂, f₂⟩ := notifyFeeBurned_effect e₁.feesUpTo h2
  exact .inr ⟨rfl, e₁.trans e₂ fun _ => (zero_add _).symm, f₁.trans f₂⟩

theorem sendAllLoop_effect {l : List PropertyId} {n n' : Nat} (hf : FeesUpTo s block) (h : sendAllLoop tx l n s = some (n', s')) :
    Effect s s' block (fun _ => 0) ∧ SpFrame s s' ∧ n ≤ n' ∧ (n' = n → s' = s) := by
  induction l generalizing s n with
  | nil =>
    simp only [sendAllLoop, Option.some.injEq, Prod.mk.injEq] at h
    obtain ⟨rfl, rfl⟩ := h
    exact ⟨Effect.refl hf, SpFrame.of_eq rfl rfl rfl, le_rfl, fun _ => rfl⟩
  | cons p rest ih =>
    simp only [sendAllLoop] at h
    split_ifs at h
    · exact ih hf h
    · simp only [do_eq_some] at h
      obtain ⟨s₁, h1, h2⟩ := h
      obtain ⟨e₁, f₁⟩ := (transferTally_moved (by simp) (by simp) h1).effect hf
      obtain ⟨e₂, f₂, hle, -⟩ := ih e₁.feesUpTo h2
      exact ⟨e₁.trans e₂ fun _ => (zero_add _).symm, f₁.trans f₂, by omega, fun hn => by omega⟩

theorem logicMathSendAll_settled
    (hf : FeesUpTo s tx.block) (h : logicMathSendAll s tx = some (rc, s')) :
    Settled s s' tx.block rc fun _ => 0 := by
  rcases reject_cases (by simp [allErrors, pktErrorSendAll]) h with hr | ⟨-, h⟩
  · exact .inl hr
  simp only [do_eq_some, Prod.exists, Option.pure_def, Option.some.injEq, Prod.mk.injEq] at h
  obtain ⟨n, s₁, h1, rfl, rfl⟩ := h
  obtain ⟨e₁, f₁, -, hsame⟩ := sendAllLoop_effect hf h1
  by_cases hn : n = 0
  · rw [if_pos hn]
    exact .inl ⟨by decide, hsame hn⟩
  · rw [if_neg hn]
    exact .inr ⟨rfl, e₁, f₁⟩

theorem stmOutputError_neg {code : Int} (h : stmOutputError tx = some code) :
    code < 0 := by
  unfold stmOutputError at h
  obtain ⟨entry, -, hcode⟩ := List.exists_of_findSome?_eq_some h
  cases hr : tx.validOutputAddressesForSTM.find? entry.1 with
  | none =>
    simp only [hr, Option.some.injEq] at hcode
    rw [← hcode]
    decide
  | some receiver =>
    simp only [hr] at hcode
    split_ifs at hcode
    simp only [Option.some.injEq] at hcode
    rw [← hcode]
    decide

theorem sendManyLoop_effect {l : List (Nat × Nat)}
    (hs : Solvent s) (hf : FeesUpTo s block) (h : sendManyLoop tx l s = some s') :
    Effect s s' block (fun _ => 0) ∧ SpFrame s s' := by
  induction l generalizing s with
  | nil =>
    simp only [sendManyLoop, Option.some.injEq] at h
    subst h
    exact ⟨Effect.refl hf, SpFrame.of_eq rfl rfl rfl⟩
  | cons entry rest ih =>
    obtain ⟨output, amount⟩ := entry
    simp only [sendManyLoop, do_eq_some] at h
    obtain ⟨receiver, -, s₁, h1, s₂, h2, h3⟩ := h
    have t₁ := assertTally_spec h1
    have t₂ := assertTally_spec h2
    have hs1 := t₁.solvent hs
    -- the amount without a negation would debit more than any balance holds
    have hmin : toI64 amount ≠ i64Min := fun hc => by
      have hn := t₂.nonneg (by simp)
      have hfit := hs1.fits receiver tx.property .balance
      unfold i64Max at hfit
      unfold i64Min at hc
      omega
    have hneg := toI64_neg hmin
    have e₁ := (t₁.feeStep block).effect hf
    have e₂ := (t₂.feeStep block).effect e₁.feesUpTo
    have e₁₂ : Effect s s₂ block fun _ => 0 := e₁.trans e₂ fun q => by
      by_cases hq : q = tx.property <;> simp [hq, hneg]
    obtain ⟨e₃, f₃⟩ := ih (t₂.solvent hs1) e₁₂.feesUpTo h3
    exact ⟨e₁₂.trans e₃ fun _ => (zero_add _).symm, (t₁.spFrame.trans t₂.spFrame).trans f₃⟩

theorem logicMathSendToMany_settled (hs : Solvent s)
    (hf : FeesUpTo s tx.block) (h : logicMathSendToMany s tx = some (rc, s')) :
    Settled s s' tx.block rc fun _ => 0 := by
  have hcodes : (stmOutputError tx).isSome = true → (stmOutputError tx).getD 0 < 0 := fun hsome => by
    obtain ⟨code, hcode⟩ := Option.isSome_iff_exists.mp hsome
    rw [hcode]
    exact stmOutputError_neg hcode
  rcases reject_cases (by simpa [allErrors, pktErrorSendMany] using hcodes) h with hr | ⟨-, h⟩
  · exact .inl hr
  simp only [do_eq_some, pure_eq_some, Prod.mk.injEq] at h
  obtain ⟨s₁, h1, rfl, rfl⟩ := h
  exact .inr ⟨rfl, sendManyLoop_effect hs hf h1⟩

/-! ### Crowdsales and managed properties -/

/-- What closing the sender's crowdsale mints. -/
def closeMint (s : State) (tx : CMPTransaction) (q : PropertyId) : Int :=
  match s.crowds.find? tx.sender with
  | none => 0
  | some crowd => if q = crowd.propertyId then missedBonus s crowd else 0

theorem logicMathCloseCrowdsale_settled
    (hf : FeesUpTo s tx.block) (h : logicMathCloseCrowdsale s tx env = some (rc, s')) :
    Settled s s' tx.block rc (closeMint s tx) := by
  rcases reject_cases (by simp [allErrors, pktErrorSp]) h with hr | ⟨-, h⟩
  · exact .inl hr
  cases hc : s.crowds.find? tx.sender with
  | none =>
    rw [hc] at h
    exact .inl (rejected (by decide) h)
  | some crowd =>
    simp only [hc] at h
    rcases reject_cases (by simp [allErrors, pktErrorSp]) h with hr | ⟨hid, h⟩
    · exact .inl hr
    have hprop : tx.property = crowd.propertyId := by simpa using hid
    simp only [do_eq_some, pure_eq_some, Prod.mk.injEq, closeCrowdsale] at h
    obtain ⟨s₃, ⟨sp, hsp, missed, hmiss, s₁, h1, s₂, h2, rfl⟩, rfl, rfl⟩ := h
    have hmint : closeMint s tx = fun q => if q = tx.property then missed else 0 := by
      funext q
      rw [hprop] at hsp
      simp [closeMint, hc, hprop, missedBonus, hsp, hmiss]
    have e₁ := updateSP_effect hf h1
    have st₂ := creditIfPositive_step tx.block (getMissedIssuerBonus_nonneg hmiss) h2
    have e₃ := eraseCrowd_effect tx.sender (st₂.feesUpTo e₁.feesUpTo)
    rw [hmint]
    refine .inr ⟨rfl, ?_,
      ((updateSP_spFrame h1 hsp rfl).trans st₂.spFrame).trans (eraseCrowd_spFrame s₂ tx.sender)⟩
    exact (e₁.trans (st₂.effect e₁.feesUpTo) fun q => (zero_add _).symm).trans e₃ fun q => by simp

theorem closeMint_mintable (hi : LedgerInv s) :
    Mintable s (closeMint s tx) := by
  unfold closeMint
  cases hc : s.crowds.find? tx.sender with
  | none => exact hi.mintable_zero
  | some crowd => exact missedBonus_mintable hi hc

/-- The state after the granted tokens are credited. -/
def granted (s : State) (tx : CMPTransaction) (env : TxEnv) : Option State := do
  let sp ← getSP s tx.property
  let s ← updateSP s tx.property (sp.record tx env [toI64 tx.nValue, 0])
  assertTally s tx.receiver tx.property (toI64 tx.nValue) .balance

/-- What the side effect of a grant mints. -/
def grantEffectsMint (s : State) (tx : CMPTransaction) (env : TxEnv) (q : PropertyId) : Int :=
  if isFeatureActivated s.params Feature.granteffects.id tx.block then 0
  else ((granted s tx env).map fun s => participationMint s (tx.investment env) q).getD 0

/-- What a grant mints: the amount, and what a crowdsale of the receiver makes
of it. -/
def grantMint (s : State) (tx : CMPTransaction) (env : TxEnv) (q : PropertyId) : Int :=
  (if q = tx.property then toI64 tx.nValue else 0) + grantEffectsMint s tx env q

theorem isOutOfRange_eq_false {v : Nat} (h : isOutOfRange v = false) :
    0 < v ∧ v ≤ maxInt8Bytes ∧ toI64 v = v := by
  simp only [isOutOfRange, Bool.or_eq_false_iff, decide_eq_false_iff_not, not_lt] at h
  obtain ⟨h0, hmax⟩ := h
  refine ⟨Nat.pos_of_ne_zero h0, hmax, toI64_of_inI64 ⟨?_, ?_⟩⟩
  · unfold i64Min
    omega
  · unfold i64Max
    unfold maxInt8Bytes at hmax
    omega

theorem logicMathGrantTokens_cases
    (h : logicMathGrantTokens s tx env = some (rc, s')) :
    (rc < 0 ∧ s' = s) ∨
    ∃ sp s₁ s₂ s₃, rc = 0 ∧ 0 < tx.nValue ∧ toI64 tx.nValue = tx.nValue ∧
      getSP s tx.property = some sp ∧ sp.manual = true ∧
      tx.nValue ≤ toU64 (maxInt8Bytes - getTotalTokens s tx.property) ∧
      updateSP s tx.property (sp.record tx env [toI64 tx.nValue, 0]) = some s₁ ∧
      assertTally s₁ tx.receiver tx.property (toI64 tx.nValue) .balance = some s₂ ∧
      granted s tx env = some s₂ ∧ grantEffects s₂ tx env = some s₃ ∧
      notifyTotalTokensChanged s₃ tx.property tx.block = some s' := by
  rcases reject_cases (by simp [allErrors, pktErrorSp, pktErrorTokens]) h with hr | ⟨hok, h⟩
  · exact .inl hr
  simp only [Option.bind_eq_bind, Option.bind_eq_some_iff] at h
  obtain ⟨sp, hsp, h⟩ := h
  rcases reject_cases (by simp [allErrors, pktErrorTokens]) h with hr | ⟨hok', h⟩
  · exact .inl hr
  simp only [Option.bind_eq_some_iff, Option.pure_def, Option.some.injEq, Prod.mk.injEq] at h
  obtain ⟨s₁, h1, s₂, h2, s₃, h3, s₄, h4, rfl, rfl⟩ := h
  simp only [List.forall_mem_cons] at hok hok'
  obtain ⟨hpos, -, hcast⟩ := isOutOfRange_eq_false hok.2.2.1
  refine .inr ⟨sp, s₁, s₂, s₃, rfl, hpos, hcast, hsp, by simpa using hok'.1, ?_, h1, h2, ?_, h3, h4⟩
  · simpa using hok'.2.2.1
  · simp only [granted, do_eq_some]
    exact ⟨sp, hsp, s₁, h1, h2⟩

theorem grantEffects_effect
    (hf : FeesUpTo s tx.block) (h : grantEffects s tx env = some s') :
    Effect s s' tx.block (fun q => if isFeatureActivated s.params Feature.granteffects.id tx.block then 0
      else participationMint s (tx.investment env) q) ∧ SpFrame s s' := by
  unfold grantEffects at h
  split_ifs at h ⊢ with hfeat
  · simp only [Option.some.injEq] at h
    subst h
    exact ⟨Effect.refl hf, SpFrame.of_eq rfl rfl rfl⟩
  · simp only [Option.map_eq_some_iff, Prod.exists, exists_eq_right] at h
    obtain ⟨rc, h⟩ := h
    exact crowdsaleParticipation_effect hf h

theorem logicMathGrantTokens_settled
    (hf : FeesUpTo s tx.block) (h : logicMathGrantTokens s tx env = some (rc, s')) :
    Settled s s' tx.block rc (grantMint s tx env) := by
  rcases logicMathGrantTokens_cases h with
    hr | ⟨sp, s₁, s₂, s₃, rfl, -, -, hsp, -, -, h1, h2, hg, h3, h4⟩
  · exact .inl hr
  have e₁ := updateSP_effect hf h1
  have t₂ := assertTally_spec h2
  have e₂ := (t₂.feeStep tx.block).effect e₁.feesUpTo
  obtain ⟨e₃, f₃⟩ := grantEffects_effect e₂.feesUpTo h3
  have st₄ := notifyTotalTokensChanged_feeStep h4
  have hparams : s₂.params = s.params := by
    obtain ⟨-, -, -, -, -, hfr⟩ := updateSP_spec h1
    rw [t₂.frame, hfr]
  refine .inr ⟨rfl, ?_,
    (((updateSP_spFrame h1 hsp rfl).trans t₂.spFrame).trans f₃).trans st₄.spFrame⟩
  have e₁₂ := e₁.trans e₂ fun q => (zero_add _).symm
  refine (e₁₂.trans e₃ fun q => rfl).trans (st₄.effect e₃.feesUpTo) fun q => ?_
  simp [grantMint, grantEffectsMint, hg, hparams]

theorem granted_ledgerStep {s₂ : State} {sp : SPEntry}
    (hi : LedgerInv s) (hf : FeesUpTo s tx.block) (hcast : toI64 tx.nValue = tx.nValue)
    (hsp : getSP s tx.property = some sp) (hman : sp.manual = true)
    (hmax : tx.nValue ≤ toU64 (maxInt8Bytes - getTotalTokens s tx.property))
    (hg : granted s tx env = some s₂) :
    LedgerStep s s₂ tx.block fun q => if q = tx.property then toI64 tx.nValue else 0 := by
  simp only [granted, hsp, Option.bind_eq_bind, Option.bind_some, Option.bind_eq_some_iff] at hg
  obtain ⟨s₁, h1, h2⟩ := hg
  obtain ⟨hne1, hne2, -, -, -, -⟩ := updateSP_spec h1
  have hfind : s.sp.entries.find? tx.property = some sp := by simpa [getSP, hne1, hne2] using hsp
  have htot := getTotalTokens_eq_supply hsp (hi.manual _ _ hfind hman)
  have hsup0 : 0 ≤ supply s tx.property := hi.supply_nonneg tx.property
  have hb := hi.bounded tx.property
  have hle : supply s tx.property + toI64 tx.nValue ≤ i64Max := by
    rw [htot] at hmax
    rw [hcast]
    unfold i64Max at hb ⊢
    unfold toU64 maxInt8Bytes at hmax
    omega
  have e₁ := updateSP_effect hf h1
  have t₂ := assertTally_spec h2
  have e₂ := (t₂.feeStep tx.block).effect e₁.feesUpTo
  exact ⟨e₁.trans e₂ fun q => (zero_add _).symm, (updateSP_spFrame h1 hsp rfl).trans t₂.spFrame,
    hi.mintable_single (by simp [hasSP, hsp]) hne1 hle⟩

theorem grantMint_mintable
    (hi : LedgerInv s) (hf : FeesUpTo s tx.block) (hrc : rc = 0)
    (h : logicMathGrantTokens s tx env = some (rc, s')) : Mintable s (grantMint s tx env) := by
  rcases logicMathGrantTokens_cases h with
    ⟨hneg, -⟩ | ⟨sp, s₁, s₂, s₃, -, -, hcast, hsp, hman, hmax, h1, h2, hg, h3, -⟩
  · omega
  obtain ⟨-, -, -, -, -, hfr⟩ := updateSP_spec h1
  have t₂ := assertTally_spec h2
  have st₁₂ := granted_ledgerStep hi hf hcast hsp hman hmax hg
  have hm : Mintable s₂ (grantEffectsMint s tx env) := by
    have hi2 := st₁₂.inv hi
    have hparams : s₂.params = s.params := by rw [t₂.frame, hfr]
    unfold grantEffects at h3
    rw [hparams] at h3
    unfold grantEffectsMint
    split_ifs at h3 ⊢
    · exact hi2.mintable_zero
    · simp only [Option.map_eq_some_iff, Prod.exists, exists_eq_right] at h3
      obtain ⟨rc', h3⟩ := h3
      simpa [hg] using participationMint_mintable hi2 h3
  refine ⟨fun q hq => ?_, fun q => ?_⟩
  · by_cases h0 : (if q = tx.property then toI64 tx.nValue else 0) = 0
    · rw [← st₁₂.frame.hasSP_eq]
      exact hm.known q fun hz => hq (by rw [grantMint, h0, hz]; rfl)
    · exact st₁₂.mintable.known q h0
  · have := hm.bound q
    rw [st₁₂.effect.supply] at this
    rw [grantMint]
    omega

theorem logicMathRevokeTokens_settled
    (hf : FeesUpTo s tx.block) (h : logicMathRevokeTokens s tx env = some (rc, s')) :
    Settled s s' tx.block rc (fun q => if q = tx.property then -toI64 tx.nValue else 0) ∧
      (rc = 0 → hasSP s tx.property = true ∧ tx.property ≠ propertyMSC ∧ 0 ≤ toI64 tx.nValue) := by
  rcases reject_cases (by simp [allErrors, pktErrorTokens]) h with hr | ⟨hok, h⟩
  · exact ⟨.inl hr, fun h0 => by omega⟩
  simp only [Option.bind_eq_bind, Option.bind_eq_some_iff] at h
  obtain ⟨sp, hsp, h⟩ := h
  rcases reject_cases (by simp [allErrors, pktErrorTokens]) h with hr | ⟨-, h⟩
  · exact ⟨.inl hr, fun h0 => by omega⟩
  simp only [Option.bind_eq_some_iff, Option.pure_def, Option.some.injEq, Prod.mk.injEq] at h
  obtain ⟨s₁, h1, s₂, h2, s₃, h3, rfl, rfl⟩ := h
  have t₁ := assertTally_spec h1
  have e₁ := (t₁.feeStep tx.block).effect hf
  have e₂ := updateSP_effect e₁.feesUpTo h2
  have st₃ := notifyTotalTokensChanged_feeStep h3
  have hsp1 : getSP s₁ tx.property = some sp := by
    rw [t₁.frame]
    exact hsp
  simp only [List.forall_mem_cons] at hok
  obtain ⟨-, -, hcast⟩ := isOutOfRange_eq_false hok.2.2.1
  refine ⟨.inr ⟨rfl, ?_, (t₁.spFrame.trans (updateSP_spFrame h2 hsp1 rfl)).trans st₃.spFrame⟩,
    fun _ => ⟨by simp [hasSP, hsp], (updateSP_spec h2).1, by omega⟩⟩
  exact (e₁.trans e₂ fun q => (add_zero _).symm).trans (st₃.effect e₂.feesUpTo) fun q => by simp

/-- The handlers for managed properties: two lists of checks, and the entry between them. -/
theorem managed_settled {txType : TxType} {checks : SPEntry → List (Bool × Int)}
    {go : SPEntry → Option (Int × State)} (hcodes : ∀ sp, allErrors (checks sp))
    (hgo : ∀ sp, getSP s tx.property = some sp → go sp = some (rc, s') → Settled s s' tx.block rc fun _ => 0)
    (h : reject s (managedChecks s tx env txType)
      ((getSP s tx.property).bind fun sp => reject s (checks sp) (go sp)) = some (rc, s')) :
    Settled s s' tx.block rc fun _ => 0 := by
  rcases reject_cases (by simp [allErrors, managedChecks, pktErrorTokens]) h with hr | ⟨-, h⟩
  · exact .inl hr
  obtain ⟨sp, hsp, h⟩ := Option.bind_eq_some_iff.mp h
  rcases reject_cases (hcodes sp) h with hr | ⟨-, h⟩
  · exact .inl hr
  · exact hgo sp hsp h

theorem logicMathChangeIssuer_settled (hf : FeesUpTo s tx.block)
    (h : logicMathChangeIssuer s tx env = some (rc, s')) : Settled s s' tx.block rc fun _ => 0 := by
  refine managed_settled (fun sp => by simp [allErrors, pktErrorTokens]) (fun sp hsp h => ?_) h
  simp only [do_eq_some, pure_eq_some, Prod.mk.injEq] at h
  obtain ⟨s₁, h1, rfl, rfl⟩ := h
  exact .inr ⟨rfl, updateSP_effect hf h1, updateSP_spFrame h1 hsp rfl⟩

theorem payCrowdsale_settled (tx : CMPTransaction)
    (hf : FeesUpTo s tx.block) (h : payCrowdsale s tx env = some (rc, s')) :
    Settled s s' tx.block rc (participationMint s (tx.investment env)) ∧
      (rc = 0 → LedgerInv s → Mintable s (participationMint s (tx.investment env))) := by
  unfold payCrowdsale at h
  cases hc : s.crowds.find? tx.receiver with
  | none =>
    rw [hc] at h
    have hr := rejected (by decide) h
    exact ⟨.inl hr, fun h0 => by omega⟩
  | some crowd =>
    simp only [hc] at h
    rcases reject_cases (by simp [allErrors, pktErrorTokens]) h with hr | ⟨-, h⟩
    · exact ⟨.inl hr, fun h0 => by omega⟩
    simp only [do_eq_some, Prod.exists, Option.pure_def, Option.some.injEq, Prod.mk.injEq] at h
    obtain ⟨rc₁, s₁, h1, rfl, rfl⟩ := h
    exact ⟨.inr ⟨rfl, crowdsaleParticipation_effect hf h1⟩,
      fun _ hi => participationMint_mintable hi h1⟩

/-- The transaction a payment in RPD becomes, if the linked one is a crowdsale. -/
def rapidsInvestment (tx : CMPTransaction) (env : TxEnv) : Option Investment :=
  match env.linked with
  | .token _ type _ sender =>
    if TxType.ofId type = some .createPropertyVariable then
      some (CMPTransaction.investment { tx with nValue := toU64 (env.paymentTo sender) } env)
    else none
  | _ => none

/-- What a payment in RPD mints. -/
def rapidsMint (s : State) (tx : CMPTransaction) (env : TxEnv) (q : PropertyId) : Int :=
  ((rapidsInvestment tx env).map fun inv => participationMint s inv q).getD 0

theorem logicMathRapidsPayment_settled
    (hf : FeesUpTo s tx.block) (h : logicMathRapidsPayment s tx env = some (rc, s')) :
    Settled s s' tx.block rc (rapidsMint s tx env) ∧
      (rc = 0 → LedgerInv s → Mintable s (rapidsMint s tx env)) := by
  rcases reject_cases (by simp [allErrors, pktErrorTokens]) h with hr | ⟨-, h⟩
  · exact ⟨.inl hr, fun h0 => by omega⟩
  cases hl : env.linked with
  | notFound =>
    rw [hl] at h
    have hr := rejected (by decide) h
    exact ⟨.inl hr, fun h0 => by omega⟩
  | notToken =>
    rw [hl] at h
    have hr := rejected (by decide) h
    exact ⟨.inl hr, fun h0 => by omega⟩
  | token valid type version sender =>
    simp only [hl] at h
    rcases reject_cases (by simp [allErrors, mpTxIsNotTokenProtocol, pktErrorTokens]) h with
      hr | ⟨-, h⟩
    · exact ⟨.inl hr, fun h0 => by omega⟩
    split_ifs at h with htype
    · have hmint : rapidsMint s tx env = participationMint s
          (CMPTransaction.investment { tx with nValue := toU64 (env.paymentTo sender) } env) := by
        funext q
        simp [rapidsMint, rapidsInvestment, hl, if_pos htype]
      rw [hmint]
      exact payCrowdsale_settled { tx with nValue := toU64 (env.paymentTo sender) } hf h
    · simp only [Option.some.injEq, Prod.mk.injEq] at h
      obtain ⟨rfl, rfl⟩ := h
      have hz : rapidsMint s tx env = fun _ => 0 := by
        funext q
        simp [rapidsMint, rapidsInvestment, hl, if_neg htype]
      rw [hz]
      exact ⟨.inr ⟨rfl, Effect.refl hf, SpFrame.of_eq rfl rfl rfl⟩, fun _ hi => hi.mintable_zero⟩

/-! ### Freezing, features and alerts -/

theorem settled_of_eq (hf : FeesUpTo s block)
    (h : s' = { s with
      params := s'.params
      freezingEnabled := s'.freezingEnabled
      frozen := s'.frozen
      pendingActivations := s'.pendingActivations
      completedActivations := s'.completedActivations
      alerts := s'.alerts }) :
    Effect s s' block (fun _ => 0) ∧ SpFrame s s' := by
  constructor
  · apply Effect.of_eq hf <;> rw [h]
  · apply SpFrame.of_eq <;> rw [h]

theorem logicMathEnableFreezing_settled (hf : FeesUpTo s tx.block)
    (h : logicMathEnableFreezing s tx env = some (rc, s')) : Settled s s' tx.block rc fun _ => 0 := by
  refine managed_settled (fun sp => by simp [allErrors, pktErrorTokens]) (fun sp _ h => ?_) h
  cases h
  exact .inr ⟨rfl, settled_of_eq hf rfl⟩

theorem unfreezeLoop_frame {l : List ((Address ×ₗ PropertyId) × Unit)}
    (h : unfreezeLoop p l s = some s') : s' = { s with frozen := s'.frozen } := by
  induction l generalizing s with
  | nil =>
    simp only [unfreezeLoop, Option.some.injEq] at h
    rw [h]
  | cons e rest ih =>
    simp only [unfreezeLoop] at h
    split_ifs at h with hp
    · cases rest with
      | nil =>
        simp only [Option.some.injEq] at h
        rw [← h]
        rfl
      | cons next rest =>
        simp only at h
        split_ifs at h
        rw [ih h]
        rfl
    · exact ih h

theorem disableFreezing_frame (h : disableFreezing s p = some s') :
    s' = { s with frozen := s'.frozen, freezingEnabled := s'.freezingEnabled } := by
  unfold disableFreezing at h
  dsimp only at h
  split_ifs at h
  simp only [do_eq_some] at h
  obtain ⟨s₁, h1, h⟩ := h
  split_ifs at h
  simp only [Option.some.injEq] at h
  subst h
  rw [unfreezeLoop_frame h1]

theorem logicMathDisableFreezing_settled (hf : FeesUpTo s tx.block)
    (h : logicMathDisableFreezing s tx env = some (rc, s')) : Settled s s' tx.block rc fun _ => 0 := by
  refine managed_settled (fun sp => by simp [allErrors, pktErrorTokens]) (fun sp _ h => ?_) h
  simp only [Option.map_eq_some_iff, Prod.mk.injEq] at h
  obtain ⟨s₁, h1, rfl, rfl⟩ := h
  refine .inr ⟨rfl, settled_of_eq hf ?_⟩
  rw [disableFreezing_frame h1]

theorem logicMathFreezeTokens_settled (hf : FeesUpTo s tx.block)
    (h : logicMathFreezeTokens s tx env = some (rc, s')) : Settled s s' tx.block rc fun _ => 0 := by
  refine managed_settled (fun sp => by simp [allErrors, pktErrorTokens]) (fun sp _ h => ?_) h
  cases h
  exact .inr ⟨rfl, settled_of_eq hf rfl⟩

theorem logicMathUnfreezeTokens_settled (hf : FeesUpTo s tx.block)
    (h : logicMathUnfreezeTokens s tx env = some (rc, s')) : Settled s s' tx.block rc fun _ => 0 := by
  refine managed_settled (fun sp => by simp [allErrors, pktErrorTokens]) (fun sp _ h => ?_) h
  cases h
  exact .inr ⟨rfl, settled_of_eq hf rfl⟩

theorem addAlert_frame (s : State) (sender : String) (alertType expiry : Nat) (text : String) :
    addAlert s sender alertType expiry text =
      { s with alerts := (addAlert s sender alertType expiry text).alerts } := by
  unfold addAlert
  split_ifs <;> rfl

theorem activateFeature_frame (s : State) (featureId activationBlock minClientVersion block : Nat) :
    (activateFeature s featureId activationBlock minClientVersion block).2 =
      { s with
        params := (activateFeature s featureId activationBlock minClientVersion block).2.params
        pendingActivations :=
          (activateFeature s featureId activationBlock minClientVersion block).2.pendingActivations
        alerts := (activateFeature s featureId activationBlock minClientVersion block).2.alerts } := by
  unfold activateFeature
  split_ifs
  · rfl
  · rfl
  · cases hfeat : Feature.ofId featureId with
    | none =>
      dsimp only
      split_ifs
      · rfl
      · rw [addAlert_frame]
        rfl
    | some f =>
      dsimp only
      split_ifs
      · rfl
      · rw [addAlert_frame]
        rfl

theorem activateFeature_refused {activationBlock minClientVersion : Nat}
    (h : activateFeature s featureId activationBlock minClientVersion block = (false, s')) : s' = s := by
  unfold activateFeature at h
  split_ifs at h
  · exact (Prod.mk.inj h).2.symm
  · exact (Prod.mk.inj h).2.symm
  · exact absurd (Prod.mk.inj h).1 (by simp)

/-- An activation is refused, or writes rules, pending activations and alerts. -/
theorem logicMathActivation_cases (h : logicMathActivation s tx = some (rc, s')) :
    (rc < 0 ∧ s' = s) ∨ (rc = 0 ∧ s' = { s with
      params := s'.params
      pendingActivations := s'.pendingActivations
      alerts := s'.alerts }) := by
  rcases reject_cases (by simp [allErrors, pktError]) h with hr | ⟨-, h⟩
  · exact .inl hr
  have hfr := activateFeature_frame s tx.featureId tx.activationBlock tx.minClientVersion tx.block
  cases ha : activateFeature s tx.featureId tx.activationBlock tx.minClientVersion tx.block with
  | mk ok s₁ =>
    rw [ha] at h hfr
    cases ok with
    | false =>
      rw [activateFeature_refused ha] at h
      exact .inl (rejected (by decide) h)
    | true =>
      cases h
      exact .inr ⟨rfl, hfr⟩

theorem logicMathActivation_settled
    (hf : FeesUpTo s tx.block) (h : logicMathActivation s tx = some (rc, s')) :
    Settled s s' tx.block rc fun _ => 0 := by
  rcases logicMathActivation_cases h with hr | ⟨hrc, hs⟩
  · exact .inl hr
  · refine .inr ⟨hrc, settled_of_eq hf ?_⟩
    rw [hs]

theorem logicMathAlert_settled
    (hf : FeesUpTo s tx.block) (h : logicMathAlert s tx = some (rc, s')) :
    Settled s s' tx.block rc fun _ => 0 := by
  rcases reject_cases (by simp [allErrors, pktError]) h with hr | ⟨-, h⟩
  · exact .inl hr
  simp only [Option.some.injEq, Prod.mk.injEq] at h
  obtain ⟨rfl, rfl⟩ := h
  refine .inr ⟨rfl, settled_of_eq hf ?_⟩
  split_ifs
  · rfl
  · rw [addAlert_frame]

/-! ### Creating properties -/

/-- The outcome of a handler that creates a property and credits `x` tokens of
it. -/
structure Created (s s' : State) (tx : CMPTransaction) (x : Int) : Prop where
  effect : Effect s s' tx.block fun q => if q = peekNextSPID s tx.ecosystem then x else 0
  amount_le : x ≤ i64Max
  exodus : s'.exodusPrev = s.exodusPrev
  /-- The entry is stored under the next identifier, and a crowdsale is opened
  for it if at all. -/
  entry : ∃ e, s'.sp.entries = s.sp.entries.insert (peekNextSPID s tx.ecosystem) e ∧
    (e.manual = true → e.fixed = false) ∧
    ∀ a c, s'.crowds.find? a = some c → s.crowds.find? a = some c ∨
      (a = tx.sender ∧ c.propertyId = peekNextSPID s tx.ecosystem ∧ e.fixed = false ∧ e.manual = false)

theorem putSP_effect (ecosystem : Nat) (info : SPEntry)
    (hf : FeesUpTo s block) : Effect s (putSP s ecosystem info).2 block fun _ => 0 :=
  Effect.of_eq hf rfl rfl rfl rfl rfl rfl

theorem logicMathCreatePropertyFixed_created (hf : FeesUpTo s tx.block) (h : logicMathCreatePropertyFixed s tx env = some (rc, s')) :
    (rc < 0 ∧ s' = s) ∨ (rc = 0 ∧ Created s s' tx (toI64 tx.nValue)) := by
  rcases reject_cases (by simp [allErrors, royaltiesChecks, pktErrorSp]) h with hr | ⟨-, h⟩
  · exact .inl hr
  dsimp only at h
  split_ifs at h with hp
  simp only [do_eq_some, pure_eq_some, Prod.mk.injEq] at h
  obtain ⟨s₁, h1, s₂, h2, rfl, rfl⟩ := h
  have e₀ := putSP_effect tx.ecosystem (tx.fixedSP env) hf
  have t₁ := assertTally_spec h1
  have e₁ := (t₁.feeStep tx.block).effect e₀.feesUpTo
  have st₂ := notifyTotalTokensChanged_feeStep h2
  refine .inr ⟨rfl, ?_, (inI64_toI64 _).2, ?_, tx.fixedSP env, ?_, fun hm => ?_, fun a c hc => ?_⟩
  · exact (e₀.trans e₁ fun q => (zero_add _).symm).trans (st₂.effect e₁.feesUpTo)
      fun q => (add_zero _).symm
  · rw [st₂.frame, t₁.frame]
    rfl
  · rw [st₂.frame, t₁.frame]
    exact putSP_entries s tx.ecosystem (tx.fixedSP env)
  · exact absurd (show false = true from hm) (by simp)
  · left
    rw [st₂.frame, t₁.frame] at hc
    exact hc

theorem logicMathCreatePropertyVariable_created (hf : FeesUpTo s tx.block)
    (h : logicMathCreatePropertyVariable s tx env = some (rc, s')) :
    (rc < 0 ∧ s' = s) ∨ (rc = 0 ∧ Created s s' tx 0) := by
  rcases reject_cases (by simp [allErrors, pktErrorSp]) h with hr | ⟨-, h⟩
  · exact .inl hr
  dsimp only at h
  split_ifs at h with hp
  simp only [Option.some.injEq, Prod.mk.injEq] at h
  obtain ⟨rfl, rfl⟩ := h
  refine .inr ⟨rfl, ?_, by decide, rfl, tx.variableSP env, putSP_entries s tx.ecosystem _,
    fun _ => rfl, fun a c hc => ?_⟩
  · simp only [ite_self]
    exact Effect.of_eq hf rfl rfl rfl rfl rfl rfl
  · rcases find?_insertNew_cases hc with hold | ⟨ha, hnew⟩
    · exact .inl hold
    · rw [hnew]
      exact .inr ⟨ha, rfl, rfl, rfl⟩

theorem logicMathCreatePropertyManaged_created (hf : FeesUpTo s tx.block)
    (h : logicMathCreatePropertyManaged s tx env = some (rc, s')) :
    (rc < 0 ∧ s' = s) ∨ (rc = 0 ∧ Created s s' tx 0) := by
  rcases reject_cases (by simp [allErrors, pktErrorSp]) h with hr | ⟨-, h⟩
  · exact .inl hr
  dsimp only at h
  split_ifs at h with hp
  simp only [Option.some.injEq, Prod.mk.injEq] at h
  obtain ⟨rfl, rfl⟩ := h
  refine .inr ⟨rfl, ?_, by decide, rfl, tx.managedSP env, putSP_entries s tx.ecosystem _,
    fun _ => rfl, fun a c hc => .inl hc⟩
  simpa using putSP_effect tx.ecosystem (tx.managedSP env) hf

theorem LedgerInv.supply_eq_zero (hi : LedgerInv s)
    (hp : hasSP s p = false) : supply s p = 0 := by
  by_contra hne
  rw [hi.known p hne] at hp
  cases hp

/-- Creating a property keeps the ledger invariant, if its identifier is not in
use. -/
theorem Created.inv {x : Int} (h : Created s s' tx x)
    (hi : LedgerInv s) (hfresh : hasSP s (peekNextSPID s tx.ecosystem) = false) : LedgerInv s' := by
  obtain ⟨e, hent, hman, hcr⟩ := h.entry
  have hsupply := h.effect.supply
  set p := peekNextSPID s tx.ecosystem
  have hres : ¬ (p = propertyMSC ∨ p = propertyTMSC) := fun hc => by simp [hasSP, getSP, hc] at hfresh
  obtain ⟨hp1, hp2⟩ := not_or.mp hres
  have hsup : ∀ q, q ≠ p → supply s' q = supply s q := fun q hq => by
    rw [hsupply]
    simp [hq]
  have hfind : ∀ q, q ≠ p → s'.sp.entries.find? q = s.sp.entries.find? q := fun q hq => by
    rw [hent, find?_insert_ne _ _ hq]
  have hold : ∀ a c, s.crowds.find? a = some c → c.propertyId ≠ p := fun a c hc heq => by
    have := (hi.crowd_entry hc).2.1
    rw [heq, hfresh] at this
    cases this
  refine ⟨h.effect.solvent hi.solvent, fun q => ?_, fun q hq => ?_, fun q e' he hm => ?_,
    fun a c hc => ?_, fun a b c d hc hd hcd => ?_, ?_⟩
  · by_cases hq : q = p
    · subst hq
      rw [hsupply, hi.supply_eq_zero hfresh]
      simpa using h.amount_le
    · rw [hsup q hq]
      exact hi.bounded q
  · by_cases hqp : q = p
    · subst hqp
      simp [hasSP, getSP, hp1, hp2, hent]
    · rw [hsup q hqp] at hq
      have := hi.known q hq
      simp only [hasSP, getSP, hfind q hqp] at this ⊢
      split_ifs at this ⊢
      · rfl
      · exact this
  · by_cases hqp : q = p
    · subst hqp
      rw [hent, find?_insert_self, Option.some.injEq] at he
      rw [← he] at hm ⊢
      exact hman hm
    · rw [hfind q hqp] at he
      exact hi.manual q e' he hm
  · rcases hcr a c hc with hc0 | ⟨-, hid, hfix, hmanu⟩
    · obtain ⟨h1, h2, e', he', hk⟩ := hi.crowd a c hc0
      exact ⟨h1, h2, e', by rw [hfind _ (hold a c hc0)]; exact he', hk⟩
    · rw [hid]
      exact ⟨hp1, hp2, e, by rw [hent, find?_insert_self], hfix, hmanu⟩
  · rcases hcr a c hc with hc0 | ⟨rfl, hidc, -⟩ <;> rcases hcr b d hd with hd0 | ⟨rfl, hidd, -⟩
    · exact hi.crowd_inj a b c d hc0 hd0 hcd
    · exact absurd (hcd.trans hidd) (hold a c hc0)
    · exact absurd (hcd.symm.trans hidc) (hold b d hd0)
    · rfl
  · rw [h.exodus, hsup _ (Ne.symm hp1)]
    exact hi.exodus

/-! ### The exchanges -/

/-- A step of the traditional exchange that keeps its invariant and the accepts. -/
def Exchanged (s s' : State) : Prop :=
  ExchangeStep s s' ∧ (DexInv s → Solvent s → DexInv s') ∧ KeepsAccepts s s'

/-- Does the sell offer of the packet replace an open one? -/
def updatesOffer (s : State) (tx : CMPTransaction) : Bool :=
  !notAllowed s tx tx.property .tradeOffer && !decide (maxInt8Bytes < tx.nValue) &&
    dexOfferExists s tx.sender tx.property &&
    (tx.version == 0 && tx.nValue != 0 || tx.version == 1 && tx.subaction == subactionUpdate)

theorem logicMathTradeOffer_updates (h : updatesOffer s tx = true) :
    logicMathTradeOffer s tx = updateOffer s tx := by
  simp only [updatesOffer, Bool.and_eq_true, Bool.or_eq_true, Bool.not_eq_true', beq_iff_eq,
    bne_iff_ne, ne_eq] at h
  obtain ⟨⟨⟨hall, hmax⟩, hex⟩, hact⟩ := h
  unfold logicMathTradeOffer reject
  simp only [hall, hmax, List.find?_cons, List.find?_nil]
  rcases hact with ⟨hv, hn⟩ | ⟨hv, hsub⟩
  · simp [hv, hn, hex, tradeOfferV0]
  · simp [hv, hsub, hex, tradeOfferV1, reject, subactionUpdate, subactionNew, subactionCancel]

theorem createOffer_exchanged
    (h : createOffer s tx = some (rc, s')) : (rc < 0 ∧ s' = s) ∨ (rc = 0 ∧ Exchanged s s') := by
  rcases dexOfferCreate_cases h with hr | ⟨hrc, -⟩
  · exact .inl hr
  · exact .inr ⟨hrc, dexOfferCreate_step h, fun hi _ => dexOfferCreate_inv hi h,
      .of_eq (dexOfferCreate_accepts h)⟩

theorem updateOffer_exchanged
    (h : updateOffer s tx = some (rc, s')) : Exchanged s s' :=
  ⟨dexOfferUpdate_step h, fun hi hs => dexOfferUpdate_inv hi hs h, .of_eq (dexOfferUpdate_accepts h)⟩

theorem dexOfferDestroy_exchanged {seller : Address}
    (h : dexOfferDestroy s seller p = some (rc, s')) :
    (rc < 0 ∧ s' = s) ∨ (rc = 0 ∧ Exchanged s s') := by
  rcases dexOfferDestroy_cases h with ⟨hrc, hs, -⟩ | ⟨hrc, -⟩
  · exact .inl ⟨hrc, hs⟩
  · exact .inr ⟨hrc, dexOfferDestroy_step h, fun hi hs => dexOfferDestroy_inv hi hs h,
      .of_eq (dexOfferDestroy_accepts h)⟩

theorem logicMathTradeOffer_exchanged
    (hu : updatesOffer s tx = false) (h : logicMathTradeOffer s tx = some (rc, s')) :
    (rc < 0 ∧ s' = s) ∨ (rc = 0 ∧ Exchanged s s') := by
  rcases reject_cases (by simp [allErrors, pktErrorTradeoffer]) h with hr | ⟨hok, h⟩
  · exact .inl hr
  simp only [List.forall_mem_cons] at hok
  have hno : dexOfferExists s tx.sender tx.property = true →
      ¬ (tx.version = 0 ∧ tx.nValue ≠ 0) ∧ ¬ (tx.version = 1 ∧ tx.subaction = subactionUpdate) := by
    intro hex
    simp only [updatesOffer, hok.1, hok.2.1, hex, Bool.not_false, Bool.and_self, Bool.true_and,
      Bool.or_eq_false_iff] at hu
    refine ⟨fun hc => ?_, fun hc => ?_⟩
    · simp [hc] at hu
    · simp [hc] at hu
  split_ifs at h with hv0 hv1
  · unfold tradeOfferV0 at h
    split_ifs at h with hn hex hex
    · exact absurd ⟨hv0, hn⟩ (hno hex).1
    · exact createOffer_exchanged h
    · exact dexOfferDestroy_exchanged h
    · exact .inl (rejected (by decide) h)
  · rcases reject_cases (by simp [allErrors, pktErrorTradeoffer]) h with hr | ⟨hok', h⟩
    · exact .inl hr
    simp only [List.forall_mem_cons] at hok'
    split_ifs at h with hnew hupd hcan
    · exact createOffer_exchanged h
    · cases hex : dexOfferExists s tx.sender tx.property with
      | true => exact absurd ⟨hv1, hupd⟩ (hno hex).2
      | false =>
        have := hok'.2.1
        simp [hex, hupd, subactionUpdate, subactionNew] at this
    · exact dexOfferDestroy_exchanged h
    · exact .inl (rejected (by decide) h)
  · exact .inl (rejected (by decide) h)

theorem logicMathAcceptOfferRPD_exchanged
    (h : logicMathAcceptOfferRPD s tx = some (rc, s')) :
    (rc < 0 ∧ s' = s) ∨ (rc = 0 ∧ Exchanged s s') := by
  rcases reject_cases (by simp [allErrors, dexErrorAccept]) h with hr | ⟨-, h⟩
  · exact .inl hr
  rcases dexAcceptCreate_cases h with hr | ⟨hrc, -⟩
  · exact .inl hr
  · exact .inr ⟨hrc, dexAcceptCreate_step h, fun hi _ => dexAcceptCreate_inv hi h,
      dexAcceptCreate_keeps h⟩

/-- Every order of the book is older than the position. -/
def BookBefore (s : State) (pos : Position) : Prop :=
  ∀ p price x, (s.orderAt p price x).isSome → x < pos

/-- A new order finds its place free when it has been matched, since it is the newest. -/
theorem xTrade_placeFree {new new' : CMPMetaDEx}
    (hbook : BookBefore s (position new.block new.idx)) (h : xTrade new s = some (new', s')) (p : PropertyId)
    (price : ℚ) : s'.orderAt p price (position new.block new.idx) = none := by
  by_contra htaken
  rcases (xTrade_step h).1.places _ _ _ (Option.isSome_iff_ne_none.mpr htaken) with hold | hadd
  · exact absurd (hbook _ _ _ hold) (lt_irrefl _)
  · exact hadd

/-- The outcome of a handler of the token exchange. -/
def Traded (s s' : State) (tx : CMPTransaction) (rc : Int) : Prop :=
  MetaDexStep s s' tx.block (fun x => x = position tx.block tx.txIdx) ∧
    (BookBefore s (position tx.block tx.txIdx) → rc < 0 → s' = s)

theorem traded_of_rejected (h : rc < 0 ∧ s' = s) :
    Traded s s' tx rc := by
  obtain ⟨-, rfl⟩ := h
  exact ⟨MetaDexStep.refl _ _ _, fun _ _ => rfl⟩

theorem metadexAdd_traded {sender : Address}
    {desired : PropertyId} {amountDesired : Int} {txid : Hash}
    (h : metadexAdd s sender p amount tx.block desired amountDesired txid tx.txIdx = some (rc, s')) :
    Traded s s' tx rc := by
  refine ⟨metadexAdd_step h, fun hbook hneg => ?_⟩
  rcases metadexAdd_cases h with ⟨-, hs⟩ | ⟨new, s₁, h1, ⟨hrc, -⟩ | ⟨-, -, htaken⟩ | ⟨hrc, -, -⟩⟩
  · exact hs
  · omega
  · rw [xTrade_placeFree hbook h1] at htaken
    cases htaken
  · omega

theorem pairChecks_errors (s : State) (tx : CMPTransaction) (txType : TxType) :
    allErrors (pairChecks s tx txType) := by
  simp [allErrors, pairChecks, pktErrorMetadex]

theorem logicMathMetaDExTrade_traded
    (h : logicMathMetaDExTrade s tx = some (rc, s')) : Traded s s' tx rc := by
  rcases reject_cases (by simp [allErrors, pairChecks, pairAmountChecks, pktErrorMetadex]) h with
    hr | ⟨-, h⟩
  · exact traded_of_rejected hr
  · exact metadexAdd_traded h

theorem logicMathMetaDExCancelPrice_traded
    (h : logicMathMetaDExCancelPrice s tx = some (rc, s')) : Traded s s' tx rc := by
  rcases reject_cases (by simp [allErrors, pairChecks, pairAmountChecks, pktErrorMetadex]) h with
    hr | ⟨-, h⟩
  · exact traded_of_rejected hr
  · obtain ⟨hst, hsame⟩ := metadexCancelAtPrice_step _ _ h
    exact ⟨hst, fun _ => hsame⟩

theorem logicMathMetaDExCancelPair_traded
    (h : logicMathMetaDExCancelPair s tx = some (rc, s')) : Traded s s' tx rc := by
  rcases reject_cases (pairChecks_errors s tx _) h with hr | ⟨-, h⟩
  · exact traded_of_rejected hr
  · obtain ⟨hst, hsame⟩ := metadexCancelAllForPair_step _ _ h
    exact ⟨hst, fun _ => hsame⟩

theorem logicMathMetaDExCancelEcosystem_traded
    (h : logicMathMetaDExCancelEcosystem s tx = some (rc, s')) : Traded s s' tx rc := by
  rcases reject_cases (by simp [allErrors, pktErrorMetadex]) h with hr | ⟨-, h⟩
  · exact traded_of_rejected hr
  · obtain ⟨hst, hsame⟩ := metadexCancelEverything_step _ _ h
    exact ⟨hst, fun _ => hsame⟩

theorem shutdownAllpairLoop_step {l : List OrderRef} (block : Nat)
    (added : Position → Prop) (hl : Listed s l) (h : shutdownAllpairLoop l s = some s') :
    MetaDexStep s s' block added := by
  induction l generalizing s with
  | nil =>
    simp only [shutdownAllpairLoop, Option.some.injEq] at h
    subst h
    exact MetaDexStep.refl _ _ _
  | cons r rest ih =>
    simp only [shutdownAllpairLoop] at h
    split_ifs at h
    simp only [do_eq_some] at h
    obtain ⟨s₁, h1, h⟩ := h
    obtain ⟨hst, hb⟩ := cancelOrder_step block added hl.head h1
    exact hst.trans (ih (hl.after hb) h)

theorem closeOrders_step (block : Nat) (added : Position → Prop)
    (h : closeOrders s featureId = some s') : MetaDexStep s s' block added := by
  unfold closeOrders at h
  split_ifs at h
  · simp only [Option.map_eq_some_iff, Prod.exists, exists_eq_right] at h
    obtain ⟨rc, h⟩ := h
    exact metadexShutdown_step block added h
  · exact shutdownAllpairLoop_step block added (listed_bookOrders s) h
  · simp only [Option.some.injEq] at h
    subst h
    exact MetaDexStep.refl _ _ _

theorem deactivateFeature_frame (s : State) (featureId block : Nat) :
    (deactivateFeature s featureId block).2 =
      { s with
        params := (deactivateFeature s featureId block).2.params
        alerts := (deactivateFeature s featureId block).2.alerts } := by
  unfold deactivateFeature
  split_ifs
  · rfl
  · cases Feature.ofId featureId with
    | none => rfl
    | some f =>
      dsimp only
      rw [addAlert_frame]

theorem deactivateFeature_refused
    (h : deactivateFeature s featureId block = (false, s')) : s' = s := by
  unfold deactivateFeature at h
  split_ifs at h
  · exact (Prod.mk.inj h).2.symm
  · cases hf : Feature.ofId featureId with
    | none =>
      rw [hf] at h
      exact (Prod.mk.inj h).2.symm
    | some f =>
      rw [hf] at h
      exact absurd (Prod.mk.inj h).1 (by simp)

/-- A deactivation is refused, or writes rules and alerts and closes orders. -/
theorem logicMathDeactivation_cases (h : logicMathDeactivation s tx = some (rc, s')) :
    (rc < 0 ∧ s' = s) ∨ (rc = 0 ∧ ∃ s₁, s₁ = { s with params := s₁.params, alerts := s₁.alerts } ∧
      closeOrders s₁ tx.featureId = some s') := by
  rcases reject_cases (by simp [allErrors, pktError]) h with hr | ⟨-, h⟩
  · exact .inl hr
  have hfr := deactivateFeature_frame s tx.featureId tx.block
  cases hd : deactivateFeature s tx.featureId tx.block with
  | mk ok s₁ =>
    rw [hd] at h hfr
    cases ok with
    | false =>
      rw [deactivateFeature_refused hd] at h
      exact .inl (rejected (by decide) h)
    | true =>
      simp only [Option.map_eq_some_iff, Prod.mk.injEq] at h
      obtain ⟨s₂, h2, rfl, rfl⟩ := h
      exact .inr ⟨rfl, s₁, hfr, h2⟩

theorem logicMathDeactivation_traded
    (hf : FeesUpTo s tx.block) (h : logicMathDeactivation s tx = some (rc, s')) :
    (rc < 0 ∧ s' = s) ∨ (rc = 0 ∧ ∃ s₁, Effect s s₁ tx.block (fun _ => 0) ∧ SpFrame s s₁ ∧
      MetaDexStep s₁ s' tx.block fun x => x = position tx.block tx.txIdx) := by
  rcases logicMathDeactivation_cases h with hr | ⟨hrc, s₁, hs, h2⟩
  · exact .inl hr
  · obtain ⟨e₁, f₁⟩ := settled_of_eq hf (show s₁ = _ by rw [hs])
    exact .inr ⟨hrc, s₁, e₁, f₁, closeOrders_step _ _ h2⟩

/-! ### Packets -/

/-- What a successful packet mints of each property. -/
def packetMint (s : State) (tx : CMPTransaction) (env : TxEnv) (q : PropertyId) : Int :=
  match TxType.ofId tx.type with
  | some .simpleSend => participationMint s (tx.investment env) q
  | some .createPropertyFixed => if q = peekNextSPID s tx.ecosystem then toI64 tx.nValue else 0
  | some .closeCrowdsale => closeMint s tx q
  | some .grantPropertyTokens => grantMint s tx env q
  | some .revokePropertyTokens => if q = tx.property then -toI64 tx.nValue else 0
  | some .rapidsPayment => rapidsMint s tx env q
  | _ => 0

/-- Is the packet of a type that creates a property? -/
def createsProperty (tx : CMPTransaction) : Bool :=
  TxType.ofId tx.type == some .createPropertyFixed ||
    TxType.ofId tx.type == some .createPropertyVariable ||
    TxType.ofId tx.type == some .createPropertyManual

/-- Does the packet replace an open offer? -/
def isOfferUpdate (s : State) (tx : CMPTransaction) : Bool :=
  TxType.ofId tx.type == some .tradeOffer && updatesOffer s tx

/-- Everything `interpretPacket` can do, with the code it returns. -/
inductive PacketStep (s : State) (tx : CMPTransaction) (env : TxEnv) : Int → State → Prop
  | rejected {rc : Int} (code : rc < 0) : PacketStep s tx env rc s
  | settled {s' : State} (effect : Effect s s' tx.block (packetMint s tx env)) (frame : SpFrame s s')
      (mintable : LedgerInv s → Mintable s (packetMint s tx env)) : PacketStep s tx env 0 s'
  | created {s' : State} {x : Int} (created : Created s s' tx x)
      (mint : ∀ q, packetMint s tx env q = if q = peekNextSPID s tx.ecosystem then x else 0)
      (creates : createsProperty tx = true) : PacketStep s tx env 0 s'
  | exchanged {rc : Int} {s' : State} (step : Exchanged s s') (mint : ∀ q, packetMint s tx env q = 0)
      (update : rc < 0 → isOfferUpdate s tx = true) : PacketStep s tx env rc s'
  | traded {rc : Int} {s₁ s' : State} (effect : Effect s s₁ tx.block fun _ => 0) (frame : SpFrame s s₁)
      (step : MetaDexStep s₁ s' tx.block fun x => x = position tx.block tx.txIdx)
      (mint : ∀ q, packetMint s tx env q = 0)
      (atomic : BookBefore s (position tx.block tx.txIdx) → rc < 0 → s' = s) : PacketStep s tx env rc s'

section
variable {s s' : State} {tx : CMPTransaction} {env : TxEnv} {rc : Int}

theorem packetStep_of_rejected (h : rc < 0 ∧ s' = s) : PacketStep s tx env rc s' := by
  obtain ⟨hrc, rfl⟩ := h
  exact .rejected hrc

theorem Settled.packetStep {minted : PropertyId → Int} (h : Settled s s' tx.block rc minted)
    (hm : packetMint s tx env = minted) (hk : rc = 0 → LedgerInv s → Mintable s minted) :
    PacketStep s tx env rc s' := by
  subst hm
  rcases h with hr | ⟨rfl, he, hf⟩
  · exact packetStep_of_rejected hr
  · exact .settled he hf (hk rfl)

theorem Settled.packetStep_zero (h : Settled s s' tx.block rc fun _ => 0)
    (hm : packetMint s tx env = fun _ => 0) : PacketStep s tx env rc s' :=
  h.packetStep hm fun _ hi => hi.mintable_zero

theorem packetStep_of_created {x : Int} (h : (rc < 0 ∧ s' = s) ∨ (rc = 0 ∧ Created s s' tx x))
    (hm : ∀ q, packetMint s tx env q = if q = peekNextSPID s tx.ecosystem then x else 0)
    (hc : createsProperty tx = true) : PacketStep s tx env rc s' := by
  rcases h with hr | ⟨rfl, hcr⟩
  · exact packetStep_of_rejected hr
  · exact .created hcr hm hc

theorem packetStep_of_exchanged (h : (rc < 0 ∧ s' = s) ∨ (rc = 0 ∧ Exchanged s s'))
    (hm : ∀ q, packetMint s tx env q = 0) : PacketStep s tx env rc s' := by
  rcases h with hr | ⟨rfl, hx⟩
  · exact packetStep_of_rejected hr
  · exact .exchanged hx hm fun hneg => absurd hneg (by decide)

theorem Traded.packetStep (h : Traded s s' tx rc) (hf : FeesUpTo s tx.block)
    (hm : ∀ q, packetMint s tx env q = 0) : PacketStep s tx env rc s' :=
  .traded (Effect.refl hf) (SpFrame.of_eq rfl rfl rfl) h.1 hm h.2

theorem revoke_packetStep (hf : FeesUpTo s tx.block)
    (ht : TxType.ofId tx.type = some .revokePropertyTokens)
    (h : logicMathRevokeTokens s tx env = some (rc, s')) : PacketStep s tx env rc s' := by
  obtain ⟨hset, hok⟩ := logicMathRevokeTokens_settled hf h
  refine hset.packetStep (funext fun q => by simp [packetMint, ht]) fun hrc hi => ?_
  obtain ⟨hsp, hne, hpos⟩ := hok hrc
  have hb := hi.bounded tx.property
  exact hi.mintable_single hsp hne (by omega)

theorem logicMath_step (hs : Solvent s) (hf : FeesUpTo s tx.block) {txType : TxType}
    (ht : TxType.ofId tx.type = some txType) (h : logicMath s tx env txType = some (rc, s')) :
    PacketStep s tx env rc s' := by
  have hm : packetMint s tx env = fun q => packetMint s tx env q := rfl
  cases txType <;> simp only [packetMint, ht] at hm <;> simp only [logicMath] at h
  case simpleSend =>
    obtain ⟨hset, hk⟩ := logicMathSimpleSend_settled hf h
    exact hset.packetStep hm hk
  case sendToOwners => exact (logicMathSendToOwners_settled hf h).packetStep_zero hm
  case sendAll => exact (logicMathSendAll_settled hf h).packetStep_zero hm
  case sendToMany => exact (logicMathSendToMany_settled hs hf h).packetStep_zero hm
  case tradeOffer =>
    cases hu : updatesOffer s tx with
    | false => exact packetStep_of_exchanged (logicMathTradeOffer_exchanged hu h) (congrFun hm)
    | true =>
      rw [logicMathTradeOffer_updates hu] at h
      exact .exchanged (updateOffer_exchanged h) (congrFun hm) fun _ => by simp [isOfferUpdate, ht, hu]
  case acceptOfferRPD => exact packetStep_of_exchanged (logicMathAcceptOfferRPD_exchanged h) (congrFun hm)
  case metadexTrade => exact (logicMathMetaDExTrade_traded h).packetStep hf (congrFun hm)
  case metadexCancelPrice => exact (logicMathMetaDExCancelPrice_traded h).packetStep hf (congrFun hm)
  case metadexCancelPair => exact (logicMathMetaDExCancelPair_traded h).packetStep hf (congrFun hm)
  case metadexCancelEcosystem =>
    exact (logicMathMetaDExCancelEcosystem_traded h).packetStep hf (congrFun hm)
  case offerAcceptABet => exact packetStep_of_rejected (rejected (by decide) h)
  case createPropertyFixed =>
    exact packetStep_of_created (logicMathCreatePropertyFixed_created hf h) (congrFun hm)
      (by simp [createsProperty, ht])
  case createPropertyVariable =>
    exact packetStep_of_created (logicMathCreatePropertyVariable_created hf h)
      (fun q => by rw [hm, ite_self]) (by simp [createsProperty, ht])
  case closeCrowdsale =>
    exact (logicMathCloseCrowdsale_settled hf h).packetStep hm fun _ hi => closeMint_mintable hi
  case createPropertyManual =>
    exact packetStep_of_created (logicMathCreatePropertyManaged_created hf h)
      (fun q => by rw [hm, ite_self]) (by simp [createsProperty, ht])
  case grantPropertyTokens =>
    exact (logicMathGrantTokens_settled hf h).packetStep hm fun hrc hi => grantMint_mintable hi hf hrc h
  case revokePropertyTokens => exact revoke_packetStep hf ht h
  case changeIssuerAddress => exact (logicMathChangeIssuer_settled hf h).packetStep_zero hm
  case enableFreezing => exact (logicMathEnableFreezing_settled hf h).packetStep_zero hm
  case disableFreezing => exact (logicMathDisableFreezing_settled hf h).packetStep_zero hm
  case rapidsPayment =>
    obtain ⟨hset, hk⟩ := logicMathRapidsPayment_settled hf h
    exact hset.packetStep hm hk
  case freezePropertyTokens => exact (logicMathFreezeTokens_settled hf h).packetStep_zero hm
  case unfreezePropertyTokens => exact (logicMathUnfreezeTokens_settled hf h).packetStep_zero hm
  case deactivation =>
    rcases logicMathDeactivation_traded hf h with hr | ⟨rfl, s₁, he, hfr, hst⟩
    · exact packetStep_of_rejected hr
    · exact .traded he hfr hst (congrFun hm) fun _ hneg => absurd hneg (by decide)
  case activation => exact (logicMathActivation_settled hf h).packetStep_zero hm
  case alert => exact (logicMathAlert_settled hf h).packetStep_zero hm

theorem interpretPacket_step (hs : Solvent s) (hf : FeesUpTo s tx.block)
    (h : interpretPacket s tx env = some (rc, s')) : PacketStep s tx env rc s' := by
  rcases reject_cases (by simp [allErrors, pktError]) h with hr | ⟨-, h⟩
  · exact packetStep_of_rejected hr
  cases ht : TxType.ofId tx.type with
  | none =>
    rw [ht] at h
    exact packetStep_of_rejected (rejected (by decide) h)
  | some txType =>
    rw [ht] at h
    exact logicMath_step hs hf ht h

end

end Rapids.Token
