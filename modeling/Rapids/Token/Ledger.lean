import Rapids.Token.Fees

/-!
# Rapids.Token.Ledger

The **ledger invariant**, and the two relations that carry it.

`Effect` is what a handler outside the exchanges does to the amounts: it mints
(or burns) some tokens of some properties and leaves every reserve alone.
`SpFrame` is what all handlers but the creating ones do to the property
database. `LedgerInv.of_frame` combines them: the invariant survives a step
with both, if the minted tokens are of known properties and stay within 64
bits. The handlers' proofs state their effect and their frame, and never argue
about the invariant itself.
-/

namespace Rapids.Token

open Rapids.Lib OrdMap

variable {s s' : State} {block : Nat} {minted : PropertyId → Int} {p : PropertyId}

/-! ### Steps outside the exchanges

The handlers that create, move or destroy balances leave offers, accepts,
orders and all reserves alone. -/

/-- A step that adds `minted q` tokens of each property `q` to balances and fee
cache, and touches neither exchange. -/
structure Effect (s s' : State) (block : Nat) (minted : PropertyId → Int) : Prop where
  cfg : s'.cfg = s.cfg
  offers : s'.offers = s.offers
  accepts : s'.accepts = s.accepts
  metadex : s'.metadex = s.metadex
  reserves : ∀ a q t, t ≠ .balance → getTokenBalance s' a q t = getTokenBalance s a q t
  supply : ∀ q, supply s' q = supply s q + minted q
  feesUpTo : FeesUpTo s' block
  solvent : Solvent s → Solvent s'

theorem FeeStep.effect
    (h : FeeStep s s' block minted) (hf : FeesUpTo s block) : Effect s s' block minted := by
  refine ⟨?_, ?_, ?_, ?_, h.reserves, h.supply hf, h.feesUpTo hf, h.solvent hf⟩ <;> rw [h.frame]

theorem Effect.of_eq (hf : FeesUpTo s block)
    (hcfg : s'.cfg = s.cfg) (hoff : s'.offers = s.offers) (hacc : s'.accepts = s.accepts)
    (hmd : s'.metadex = s.metadex) (htally : s'.tally = s.tally) (hfee : s'.feeCache = s.feeCache) :
    Effect s s' block fun _ => 0 := by
  have hbal : ∀ a q t, getTokenBalance s' a q t = getTokenBalance s a q t := fun a q t => by
    simp [getTokenBalance, htally]
  have hhist : ∀ q, getCacheHistory s' q = getCacheHistory s q := fun q => by
    simp [getCacheHistory, hfee]
  have hcached : ∀ q, getCachedAmount s' q = getCachedAmount s q := fun q => by
    simp [getCachedAmount, hhist]
  refine ⟨hcfg, hoff, hacc, hmd, fun a q t _ => hbal a q t, fun q => ?_, fun q e he => ?_,
    fun hs => hs.of_eq hbal hcached⟩
  · simp [Token.supply, htally, hcached]
  · rw [hhist] at he
    exact hf q e he

theorem Effect.refl (h : FeesUpTo s block) :
    Effect s s block fun _ => 0 :=
  (FeeStep.refl s block).effect h

variable {s₁ s₂ s₃ : State}

theorem Effect.trans {f g k : PropertyId → Int}
    (h : Effect s₁ s₂ block f) (h' : Effect s₂ s₃ block g) (hk : ∀ q, k q = f q + g q) :
    Effect s₁ s₃ block k := by
  refine ⟨h'.cfg.trans h.cfg, h'.offers.trans h.offers, h'.accepts.trans h.accepts,
    h'.metadex.trans h.metadex, fun a q t ht => ?_, fun q => ?_, h'.feesUpTo,
    fun hs => h'.solvent (h.solvent hs)⟩
  · rw [h'.reserves a q t ht, h.reserves a q t ht]
  · rw [h'.supply, h.supply, hk]
    omega

/-! ### The ledger invariant -/

/-- `all_reward` of the Dev token vesting. -/
def allReward : Int := 5631623576222

/-- What ties the supply of each property to the property database: tokens
exist of known properties only, no total exceeds 64 bits, and the properties
whose total is read back from the balances are not fixed ones. -/
structure LedgerInv (s : State) : Prop where
  solvent : Solvent s
  bounded : ∀ p, supply s p ≤ i64Max
  known : ∀ p, supply s p ≠ 0 → hasSP s p = true
  manual : ∀ p e, s.sp.entries.find? p = some e → e.manual = true → e.fixed = false
  crowd : ∀ a c, s.crowds.find? a = some c →
    c.propertyId ≠ propertyMSC ∧ c.propertyId ≠ propertyTMSC ∧
      ∃ e, s.sp.entries.find? c.propertyId = some e ∧ e.fixed = false ∧ e.manual = false
  crowd_inj : ∀ a b c d, s.crowds.find? a = some c → s.crowds.find? b = some d →
    c.propertyId = d.propertyId → a = b
  exodus : supply s propertyMSC ≤ s.exodusPrev ∧ s.exodusPrev ≤ allReward

theorem Solvent.owned_nonneg (hs : Solvent s) (p : PropertyId) {e : Address × CMPTally}
    (he : e ∈ s.tally.entries) :
    0 ≤ CMPTally.getMoney e.2 p .balance ∧ CMPTally.getMoney e.2 p .balance ≤ CMPTally.owned e.2 p := by
  have hbal : ∀ t, t ≠ TallyType.pending → 0 ≤ CMPTally.getMoney e.2 p t := fun t ht => by
    have := hs.nonneg e.1 p t ht
    rwa [getTokenBalance, mem_entries_iff.mp he] at this
  have h1 := hbal .balance (by decide)
  have h2 := hbal .sellofferReserve (by decide)
  have h3 := hbal .acceptReserve (by decide)
  have h4 := hbal .metadexReserve (by decide)
  simp only [CMPTally.getMoney, BalanceRecord.get] at h1 h2 h3 h4 ⊢
  simp only [CMPTally.owned, BalanceRecord.total]
  omega

theorem Solvent.supply_nonneg (hs : Solvent s) (p : PropertyId) : 0 ≤ supply s p := by
  refine add_nonneg ?_ (hs.cached p)
  unfold held sumBy
  refine sumEntries_nonneg fun e he => ?_
  obtain ⟨h1, h2⟩ := hs.owned_nonneg p he
  omega

theorem Solvent.balance_le_supply (hs : Solvent s) (a : Address) (p : PropertyId) :
    getTokenBalance s a p .balance ≤ supply s p := by
  unfold getTokenBalance
  cases ha : s.tally.find? a with
  | none => exact hs.supply_nonneg p
  | some t =>
    have hmem : (a, t) ∈ s.tally.entries := mem_entries_iff.mpr ha
    have hle : CMPTally.owned t p ≤ held s.tally p := by
      unfold held sumBy
      refine le_sumEntries (fun e he => ?_) hmem
      obtain ⟨h1, h2⟩ := hs.owned_nonneg p he
      omega
    have := (hs.owned_nonneg p hmem).2
    have := hs.cached p
    unfold supply
    dsimp only at *
    omega

theorem LedgerInv.supply_nonneg (hi : LedgerInv s) (p : PropertyId) : 0 ≤ supply s p :=
  hi.solvent.supply_nonneg p

/-- The flags of a property that never change. -/
def SPEntry.kind (e : SPEntry) : Bool × Bool := (e.fixed, e.manual)

/-- A step that creates no property and opens no crowdsale. -/
structure SpFrame (s s' : State) : Prop where
  kind : ∀ p, (s'.sp.entries.find? p).map SPEntry.kind = (s.sp.entries.find? p).map SPEntry.kind
  crowds : ∀ a c', s'.crowds.find? a = some c' →
    ∃ c, s.crowds.find? a = some c ∧ c'.propertyId = c.propertyId
  exodus : s'.exodusPrev = s.exodusPrev

theorem SpFrame.of_eq (h : s'.sp.entries = s.sp.entries)
    (hc : s'.crowds = s.crowds) (he : s'.exodusPrev = s.exodusPrev) : SpFrame s s' :=
  ⟨fun p => by rw [h], fun a c' h' => ⟨c', by rwa [← hc], rfl⟩, he⟩

theorem SpFrame.trans (h : SpFrame s₁ s₂) (h' : SpFrame s₂ s₃) :
    SpFrame s₁ s₃ := by
  refine ⟨fun p => (h'.kind p).trans (h.kind p), fun a c₃ h3 => ?_, h'.exodus.trans h.exodus⟩
  obtain ⟨c₂, h2, e₂⟩ := h'.crowds a c₃ h3
  obtain ⟨c₁, h1, e₁⟩ := h.crowds a c₂ h2
  exact ⟨c₁, h1, e₂.trans e₁⟩

theorem FeeStep.spFrame (h : FeeStep s s' block minted) : SpFrame s s' := by
  apply SpFrame.of_eq <;> rw [h.frame]

theorem TallyStep.spFrame {who : Address} {amount : Int}
    {tt : TallyType} (h : TallyStep s s' who p amount tt) : SpFrame s s' := by
  apply SpFrame.of_eq <;> rw [h.frame]

theorem updateSP_spFrame {old info : SPEntry}
    (h : updateSP s p info = some s') (hold : getSP s p = some old) (hk : info.kind = old.kind) :
    SpFrame s s' := by
  obtain ⟨h1, h2, hent, -, -, hfr⟩ := updateSP_spec h
  have hfind : s.sp.entries.find? p = some old := by
    simpa [getSP, h1, h2] using hold
  refine ⟨fun q => ?_, fun a c' hc => ⟨c', ?_, rfl⟩, ?_⟩
  · rw [hent, find?_insert]
    split_ifs with hq
    · subst hq
      simp [hfind, hk]
    · rfl
  · rw [hfr] at hc
    exact hc
  · rw [hfr]

theorem SpFrame.hasSP_eq (h : SpFrame s s') (p : PropertyId) :
    hasSP s' p = hasSP s p := by
  unfold hasSP getSP
  split_ifs
  · rfl
  · have := congrArg Option.isSome (h.kind p)
    simpa using this

theorem SpFrame.entry (h : SpFrame s s') {e' : SPEntry}
    (he : s'.sp.entries.find? p = some e') :
    ∃ e, s.sp.entries.find? p = some e ∧ e.fixed = e'.fixed ∧ e.manual = e'.manual := by
  have hk := h.kind p
  rw [he] at hk
  cases hs : s.sp.entries.find? p with
  | none => simp [hs] at hk
  | some e =>
    simp only [hs, Option.map_some, Option.some.injEq, SPEntry.kind, Prod.mk.injEq] at hk
    exact ⟨e, rfl, hk.1.symm, hk.2.symm⟩

/-- The invariant survives a step that creates no property, provided that it
mints known tokens within the bound only. -/
theorem LedgerInv.of_frame (hi : LedgerInv s)
    (hf : SpFrame s s') (hsol : Solvent s') (hsup : ∀ q, supply s' q = supply s q + minted q)
    (hknown : ∀ q, minted q ≠ 0 → hasSP s q = true ∧ q ≠ propertyMSC)
    (hbound : ∀ q, supply s q + minted q ≤ i64Max) : LedgerInv s' := by
  refine ⟨hsol, fun p => by rw [hsup]; exact hbound p, fun p hp => ?_, fun p e he hm => ?_,
    fun a c hc => ?_, fun a b c d hc hd hcd => ?_, ?_⟩
  · rw [hf.hasSP_eq]
    by_cases hm : minted p = 0
    · rw [hsup, hm, add_zero] at hp
      exact hi.known p hp
    · exact (hknown p hm).1
  · obtain ⟨e₀, he0, hfix, hman⟩ := hf.entry he
    rw [← hfix]
    exact hi.manual p e₀ he0 (hman.trans hm)
  · obtain ⟨c₀, hc0, hid⟩ := hf.crowds a c hc
    obtain ⟨h1, h2, e, he, hfix, hman⟩ := hi.crowd a c₀ hc0
    rw [hid]
    refine ⟨h1, h2, ?_⟩
    have hk := hf.kind c₀.propertyId
    rw [he] at hk
    cases hs : s'.sp.entries.find? c₀.propertyId with
    | none => simp [hs] at hk
    | some e' =>
      simp only [hs, Option.map_some, Option.some.injEq, SPEntry.kind, Prod.mk.injEq] at hk
      exact ⟨e', rfl, hk.1.trans hfix, hk.2.trans hman⟩
  · obtain ⟨c₀, hc0, hidc⟩ := hf.crowds a c hc
    obtain ⟨d₀, hd0, hidd⟩ := hf.crowds b d hd
    exact hi.crowd_inj a b c₀ d₀ hc0 hd0 (by rw [← hidc, ← hidd, hcd])
  · rw [hf.exodus, hsup]
    have hz : minted propertyMSC = 0 := by
      by_contra hne
      exact (hknown _ hne).2 rfl
    rw [hz, add_zero]
    exact hi.exodus

/-- Amounts that may be minted: of known properties, and within 64 bits. -/
structure Mintable (s : State) (minted : PropertyId → Int) : Prop where
  known : ∀ q, minted q ≠ 0 → hasSP s q = true ∧ q ≠ propertyMSC
  bound : ∀ q, supply s q + minted q ≤ i64Max

theorem LedgerInv.mintable_zero (hi : LedgerInv s) : Mintable s fun _ => 0 :=
  ⟨fun _ hq => absurd rfl hq, fun q => by rw [add_zero]; exact hi.bounded q⟩

theorem LedgerInv.mintable_single (hi : LedgerInv s) {x : Int}
    (hp : hasSP s p = true) (hne : p ≠ propertyMSC) (hb : supply s p + x ≤ i64Max) :
    Mintable s fun q => if q = p then x else 0 := by
  refine ⟨fun q hq => ?_, fun q => ?_⟩
  · by_cases h : q = p
    · subst h
      exact ⟨hp, hne⟩
    · simp [h] at hq
  · by_cases h : q = p
    · subst h
      simpa using hb
    · simpa [h] using hi.bounded q

theorem Mintable.before
    (hm : Mintable s' minted) (he : Effect s s' block fun _ => 0) (hf : SpFrame s s') :
    Mintable s minted := by
  refine ⟨fun q hq => ?_, fun q => ?_⟩
  · rw [← hf.hasSP_eq]
    exact hm.known q hq
  · have := hm.bound q
    rw [he.supply, add_zero] at this
    exact this

/-- A step that keeps the ledger invariant and mints `minted q` tokens of each
property `q`. -/
structure LedgerStep (s s' : State) (block : Nat) (minted : PropertyId → Int) : Prop where
  effect : Effect s s' block minted
  frame : SpFrame s s'
  mintable : Mintable s minted

theorem LedgerStep.inv (h : LedgerStep s s' block minted) (hi : LedgerInv s) : LedgerInv s' :=
  hi.of_frame h.frame (h.effect.solvent hi.solvent) h.effect.supply h.mintable.known h.mintable.bound

theorem LedgerStep.refl (hi : LedgerInv s) (hf : FeesUpTo s block) :
    LedgerStep s s block fun _ => 0 :=
  ⟨Effect.refl hf, SpFrame.of_eq rfl rfl rfl, hi.mintable_zero⟩

theorem LedgerStep.trans {f g k : PropertyId → Int}
    (h : LedgerStep s₁ s₂ block f) (h' : LedgerStep s₂ s₃ block g) (hk : ∀ q, k q = f q + g q) :
    LedgerStep s₁ s₃ block k := by
  refine ⟨h.effect.trans h'.effect hk, h.frame.trans h'.frame, fun q hq => ?_, fun q => ?_⟩
  · by_cases hf : f q = 0
    · have hg : g q ≠ 0 := fun hg => hq (by rw [hk, hf, hg]; rfl)
      rw [← h.frame.hasSP_eq]
      exact h'.mintable.known q hg
    · exact h.mintable.known q hf
  · have := h'.mintable.bound q
    rw [h.effect.supply] at this
    rw [hk]
    omega

/-- The supply of a property whose entry is not a fixed one is its reported
total. -/
theorem getTotalTokens_eq_supply {e : SPEntry}
    (h : getSP s p = some e) (hf : e.fixed = false) : getTotalTokens s p = supply s p := by
  simp [getTotalTokens, h, hf, supply]

end Rapids.Token
