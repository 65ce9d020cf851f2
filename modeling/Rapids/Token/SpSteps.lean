import Rapids.Token.RunSound

/-!
# Rapids.Token.SpSteps

**What a call does to the property database and the crowdsales.**

`SpStep s s' created` is the frame of every handler that creates no property:
each entry keeps its ticker, the hash of its transaction and the terms of its crowdsale, indexes and
identifier counters stay, and each crowdsale that is still open has counted
`created a` more tokens, where `a` is its issuer. It composes, and the tally, the
fees and both exchanges have it with nothing created; so each handler is one
line for each of its steps. A handler that creates a property is `SpRegisters`
instead. `handle_spStep` collects all events.
-/

namespace Rapids.Token

open Rapids.Lib OrdMap

variable {f : Address → Int} {checks : List (Bool × Int)} {go : Option (Int × State)}

/-! ### The frame -/

/-- What identifies a property besides its number: the ticker and the creating
transaction. -/
def SPEntry.registration (e : SPEntry) : String × Hash := (e.ticker, e.txid)

/-- What a crowdsale gives for a unit, and when it ends. -/
def SPEntry.terms (e : SPEntry) : Int × Int := (e.numTokens, e.deadline)

/-- The numbers of an entry are amounts and times that 64 bits hold. -/
structure SPEntry.InRange (e : SPEntry) : Prop where
  numTokens : 0 ≤ e.numTokens ∧ e.numTokens ≤ i64Max
  deadline : e.deadline ≤ i64Max

/-- All that says who issues a property. -/
def SPEntry.issuers (e : SPEntry) : Address × OrdMap Position Address := (e.issuer, e.historicalIssuers)

/-- All tokens a crowdsale has created. -/
def CMPCrowd.created (c : CMPCrowd) : Int := c.uCreated + c.iCreated

/-- The database has the same properties, and only the crowdsales of `created`
have counted more tokens. -/
structure SpStep (s s' : State) (created : Address → Int) : Prop where
  entries : ∀ p, (s'.sp.entries.find? p).map SPEntry.registration =
    (s.sp.entries.find? p).map SPEntry.registration
  terms : ∀ p, (s'.sp.entries.find? p).map SPEntry.terms = (s.sp.entries.find? p).map SPEntry.terms
  txIndex : s'.sp.txIndex = s.sp.txIndex
  tickerIndex : s'.sp.tickerIndex = s.sp.tickerIndex
  nextSpid : s'.sp.nextSpid = s.sp.nextSpid
  nextTestSpid : s'.sp.nextTestSpid = s.sp.nextTestSpid
  /-- Who issues a property changes only while its issuer has no crowdsale. -/
  issuers : ∀ p, (s'.sp.entries.find? p).map SPEntry.issuers =
      (s.sp.entries.find? p).map SPEntry.issuers ∨
    ∃ e block, s.sp.entries.find? p = some e ∧ s'.crowds.find? (e.getIssuer block) = none
  crowds : ∀ a c', s'.crowds.find? a = some c' → ∃ c, s.crowds.find? a = some c ∧
    c'.propertyId = c.propertyId ∧ c'.created = c.created + created a ∧
    c.uCreated ≤ c'.uCreated ∧ c.iCreated ≤ c'.iCreated

/-- A step in which no crowdsale creates tokens. -/
abbrev SpQuiet (s s' : State) : Prop := SpStep s s' fun _ => 0

section
variable {s s' s₁ s₂ s₃ : State} {tx : CMPTransaction} {env : TxEnv} {rc : Int}

theorem SpStep.of_eq (hsp : s'.sp = s.sp) (hcrowds : s'.crowds = s.crowds) : SpQuiet s s' := by
  refine ⟨fun p => by rw [hsp], fun p => by rw [hsp], by rw [hsp], by rw [hsp], by rw [hsp], by rw [hsp],
    fun p => .inl (by rw [hsp]), fun a c hc => ?_⟩
  rw [hcrowds] at hc
  exact ⟨c, hc, rfl, (add_zero _).symm, le_rfl, le_rfl⟩

theorem SpQuiet.refl (s : State) : SpQuiet s s := SpStep.of_eq rfl rfl

variable {e : SPEntry} {p : PropertyId} {r : Int × State}

theorem getIssuer_congr {e' : SPEntry} (h : e.issuers = e'.issuers) (block : Nat) :
    e.getIssuer block = e'.getIssuer block := by
  obtain ⟨h1, h2⟩ := Prod.ext_iff.mp h
  simp only [SPEntry.issuers] at h1 h2
  rw [SPEntry.getIssuer, SPEntry.getIssuer, h1, h2]

theorem SpStep.closed (h : SpStep s s' f) {a : Address}
    (ha : s.crowds.find? a = none) : s'.crowds.find? a = none := by
  cases hs' : s'.crowds.find? a with
  | none => rfl
  | some c' =>
    obtain ⟨c, hc, -⟩ := h.crowds a c' hs'
    rw [ha] at hc
    exact absurd hc.symm (Option.some_ne_none c)

theorem SpStep.trans {g : Address → Int} (h : SpStep s₁ s₂ f) (h' : SpStep s₂ s₃ g) :
    SpStep s₁ s₃ fun a => f a + g a := by
  refine ⟨fun p => (h'.entries p).trans (h.entries p), fun p => (h'.terms p).trans (h.terms p), h'.txIndex.trans h.txIndex,
    h'.tickerIndex.trans h.tickerIndex, h'.nextSpid.trans h.nextSpid,
    h'.nextTestSpid.trans h.nextTestSpid, fun p => ?_, fun a c₃ h3 => ?_⟩
  · rcases h.issuers p with heq | ⟨e, block, he, hnone⟩
    · rcases h'.issuers p with heq' | ⟨e₂, block, he2, hnone⟩
      · exact .inl (heq'.trans heq)
      · rw [he2, Option.map_some] at heq
        obtain ⟨e₁, he1, hiss⟩ := Option.map_eq_some_iff.mp heq.symm
        exact .inr ⟨e₁, block, he1, by rwa [getIssuer_congr hiss]⟩
    · exact .inr ⟨e, block, he, h'.closed hnone⟩
  · obtain ⟨c₂, h2, hp2, hc2, hu2, hi2⟩ := h'.crowds a c₃ h3
    obtain ⟨c₁, h1, hp1, hc1, hu1, hi1⟩ := h.crowds a c₂ h2
    exact ⟨c₁, h1, hp2.trans hp1, by rw [hc2, hc1, add_assoc], hu1.trans hu2, hi1.trans hi2⟩

theorem SpStep.quiet (h : SpStep s₁ s₂ f) (h' : SpQuiet s₂ s₃) :
    SpStep s₁ s₃ f := by
  simpa using h.trans h'

theorem SpQuiet.trans_step (h : SpQuiet s₁ s₂) (h' : SpStep s₂ s₃ f) :
    SpStep s₁ s₃ f := by
  simpa using SpStep.trans h h'

theorem TallyStep.spQuiet {who : Address} {amount : Int} {tt : TallyType}
    (h : TallyStep s s' who p amount tt) : SpQuiet s s' := by
  apply SpStep.of_eq <;> rw [h.frame]

theorem FeeStep.spQuiet {block : Nat} {minted : PropertyId → Int} (h : FeeStep s s' block minted) :
    SpQuiet s s' := by
  apply SpStep.of_eq <;> rw [h.frame]

theorem ExchangeStep.spQuiet (h : ExchangeStep s s') : SpQuiet s s' := by
  apply SpStep.of_eq <;> rw [h.frame]

theorem MetaDexStep.spQuiet {block : Nat} {added : Position → Prop}
    (h : MetaDexStep s s' block added) : SpQuiet s s' := by
  apply SpStep.of_eq <;> rw [h.frame]

theorem updateSP_spQuiet {old new : SPEntry} (h : updateSP s p new = some s')
    (hold : getSP s p = some old) (hreg : new.registration = old.registration)
    (hterms : new.terms = old.terms)
    (hiss : new.issuers = old.issuers ∨ ∃ block, s.crowds.find? (old.getIssuer block) = none) :
    SpQuiet s s' := by
  have hp : ¬ (p = propertyMSC ∨ p = propertyTMSC) := by
    intro hp
    simp [updateSP, hp] at h
  rw [updateSP, if_neg hp] at h
  rw [getSP, if_neg hp] at hold
  cases h
  refine ⟨fun q => ?_, fun q => ?_, rfl, rfl, rfl, rfl, fun q => ?_,
    fun a c hc => ⟨c, hc, rfl, (add_zero _).symm, le_rfl, le_rfl⟩⟩
  · by_cases hq : q = p
    · rw [hq, find?_insert_self, hold, Option.map_some, Option.map_some, hreg]
    · rw [find?_insert_ne _ _ hq]
  · by_cases hq : q = p
    · rw [hq, find?_insert_self, hold, Option.map_some, Option.map_some, hterms]
    · rw [find?_insert_ne _ _ hq]
  · by_cases hq : q = p
    · rcases hiss with heq | ⟨block, hnone⟩
      · exact .inl (by rw [hq, find?_insert_self, hold, Option.map_some, Option.map_some, heq])
      · exact .inr ⟨old, block, by rw [hq]; exact hold, hnone⟩
    · exact .inl (by rw [find?_insert_ne _ _ hq])

theorem eraseCrowd_spQuiet (s : State) (a : Address) :
    SpQuiet s { s with crowds := s.crowds.erase a } := by
  refine ⟨fun _ => rfl, fun _ => rfl, rfl, rfl, rfl, rfl, fun _ => .inl rfl,
    fun b c hc => ⟨c, ?_, rfl, (add_zero _).symm, le_rfl, le_rfl⟩⟩
  rw [find?_erase] at hc
  split_ifs at hc
  exact hc

/-! ### Postconditions -/

theorem assertTally_spQuiet (s : State) (who : Address) (p : PropertyId) (amount : Int)
    (tt : TallyType) : Every (SpQuiet s) (assertTally s who p amount tt) :=
  fun _ h => (assertTally_spec h).spQuiet

theorem transferTally_spQuiet (s : State) (p : PropertyId) (amount : Int) (src dst : Bucket) :
    Every (SpQuiet s) (transferTally s p amount src dst) :=
  every_bind (assertTally_spQuiet s _ _ _ _) fun s₁ h1 =>
    every_mono (assertTally_spQuiet s₁ _ _ _ _) fun _ h2 => h1.quiet h2

theorem notifyTotalTokensChanged_spQuiet (s : State) (p : PropertyId) (block : Nat) :
    Every (SpQuiet s) (notifyTotalTokensChanged s p block) :=
  fun _ h => (notifyTotalTokensChanged_feeStep h).spQuiet

theorem creditIfPositive_spQuiet (s : State) (who : Address) (p : PropertyId) (amount : Int) :
    Every (SpQuiet s) (creditIfPositive s who p amount) :=
  every_ite (fun _ => assertTally_spQuiet s _ _ _ _) fun _ => every_some (SpQuiet.refl s)

theorem reject_spQuiet
    (hgo : Every (fun r => SpQuiet s r.2) go) : Every (fun r => SpQuiet s r.2) (reject s checks go) :=
  every_reject (fun _ => SpQuiet.refl s) fun _ => hgo

/-! ### Crowdsales -/

/-- What a participation adds to the counters of each crowdsale: the receiver's
counts all that is created of its property. -/
def participationCreated (s : State) (tx : Investment) (a : Address) : Int :=
  if a = tx.receiver then
    ((s.crowds.find? a).map fun c => participationMint s tx c.propertyId).getD 0
  else 0

theorem eraseMaxedCrowdsale_spQuiet (s : State) (address : Address) (blockTime : Int)
    (blockHash : Option Hash) : Every (SpQuiet s) (eraseMaxedCrowdsale s address blockTime blockHash) := by
  unfold eraseMaxedCrowdsale
  cases s.crowds.find? address with
  | none => exact every_some (SpQuiet.refl s)
  | some crowd =>
    refine every_bind_any fun sp hsp => every_bind_any fun hash _ => every_bind_any fun s₁ h1 => ?_
    exact every_some ((updateSP_spQuiet h1 hsp rfl rfl (.inl rfl)).quiet (eraseCrowd_spQuiet s₁ address))

theorem closeIfMaxed_spQuiet (s : State) (tx : Investment) (close : Bool) :
    Every (SpQuiet s) (closeIfMaxed s tx close) :=
  every_ite (fun _ => eraseMaxedCrowdsale_spQuiet s _ _ _) fun _ => every_some (SpQuiet.refl s)

theorem participate_spStep {crowd : CMPCrowd} {inv : Investment} {user issuer : Int}
    (hc : s.crowds.find? inv.receiver = some crowd) (hpos : 0 ≤ user ∧ 0 ≤ issuer) :
    SpStep s { s with crowds := s.crowds.insert inv.receiver (crowd.participate inv user issuer) }
      fun a => if a = inv.receiver then user + issuer else 0 := by
  refine ⟨fun _ => rfl, fun _ => rfl, rfl, rfl, rfl, rfl, fun _ => .inl rfl, fun a c' hc' => ?_⟩
  rw [find?_insert] at hc'
  by_cases ha : a = inv.receiver
  · rw [if_pos ha, Option.some.injEq] at hc'
    subst ha hc'
    obtain ⟨hu, hi⟩ := hpos
    simp only [CMPCrowd.created, CMPCrowd.participate, if_true]
    exact ⟨crowd, hc, rfl, by omega, by omega, by omega⟩
  · rw [if_neg ha] at hc'
    exact ⟨c', hc', rfl, by rw [if_neg ha, add_zero], le_rfl, le_rfl⟩

theorem crowdsaleParticipation_spStep (s : State) (inv : Investment) :
    Every (fun r => SpStep s r.2 (participationCreated s inv)) (crowdsaleParticipation s inv) := by
  rintro ⟨rc, s'⟩ h
  rcases crowdsaleParticipation_cases h with
    ⟨rfl, hz⟩ | ⟨crowd, sp, user, issuer, close, s₁, s₂, s₃, hc, -, hfund, h1, h2, h3, h4, hmint⟩
  · have hnone : participationCreated s' inv = fun _ => 0 := by
      funext a
      unfold participationCreated
      split_ifs
      · cases s'.crowds.find? a with
        | none => rfl
        | some c => exact hz c.propertyId
      · rfl
    rw [hnone]
    exact SpQuiet.refl s'
  · have hcreated : participationCreated s inv = fun a =>
        if a = inv.receiver then user + issuer else 0 := by
      funext a
      unfold participationCreated
      split_ifs with ha
      · subst ha
        simp [hc, hmint]
      · rfl
    rw [hcreated]
    have k₂ := (creditIfPositive_spQuiet _ _ _ _ _ h1).quiet (creditIfPositive_spQuiet _ _ _ _ _ h2)
    have k₄ := (notifyTotalTokensChanged_spQuiet _ _ _ _ h3).quiet (closeIfMaxed_spQuiet _ _ _ _ h4)
    exact ((participate_spStep hc (fundraiserTokens_nonneg hfund)).quiet k₂).quiet k₄

theorem Moved.participationCreated_eq {amount : Int} {src dst : Bucket}
    (h : Moved s s' p amount src dst) (inv : Investment) :
    participationCreated s' inv = participationCreated s inv := by
  have hcrowds : s'.crowds = s.crowds := by rw [h.frame]
  unfold participationCreated
  rw [h.participationMint_eq, hcrowds]

theorem eraseExpiredOne_spQuiet (s : State) (blockTime : Int) (blockHash : Hash) (address : Address)
    (crowd : CMPCrowd) : Every (SpQuiet s) (eraseExpiredOne s blockTime blockHash address crowd) := by
  refine every_ite (fun _ => ?_) fun _ => every_some (SpQuiet.refl s)
  refine every_bind_any fun sp hsp => every_bind_any fun missed _ => every_bind_any fun s₁ h1 => ?_
  refine every_bind (creditIfPositive_spQuiet s₁ _ _ _) fun s₂ k₂ => ?_
  exact every_some (((updateSP_spQuiet h1 hsp rfl rfl (.inl rfl)).quiet k₂).quiet (eraseCrowd_spQuiet s₂ address))

theorem eraseExpiredLoop_spQuiet (blockTime : Int) (blockHash : Hash)
    (l : List (Address × CMPCrowd)) (s : State) :
    Every (SpQuiet s) (eraseExpiredLoop blockTime blockHash l s) := by
  induction l generalizing s with
  | nil => exact every_some (SpQuiet.refl s)
  | cons e rest ih =>
    exact every_bind (eraseExpiredOne_spQuiet s _ _ _ _) fun s₁ k₁ =>
      every_mono (ih s₁) fun _ k₂ => k₁.quiet k₂

/-! ### Handlers that create no property -/

theorem payOwners_spQuiet (s : State) (sender : Address) (p : PropertyId) (l : List (Int × Address)) :
    Every (SpQuiet s) (payOwners s sender p l) := by
  induction l generalizing s with
  | nil => exact every_some (SpQuiet.refl s)
  | cons e rest ih =>
    exact every_bind (transferTally_spQuiet s _ _ _ _) fun s₁ k₁ =>
      every_mono (ih s₁) fun _ k₂ => k₁.quiet k₂

theorem notifyFeeBurned_spQuiet (s : State) (tx : CMPTransaction) :
    Every (SpQuiet s) (notifyFeeBurned s tx) :=
  every_ite (fun _ => notifyTotalTokensChanged_spQuiet s _ _) fun _ => every_some (SpQuiet.refl s)

theorem logicMathSendToOwners_spQuiet (s : State) (tx : CMPTransaction) :
    Every (fun r => SpQuiet s r.2) (logicMathSendToOwners s tx) := by
  refine reject_spQuiet (every_bind_any fun receivers _ => reject_spQuiet ?_)
  refine every_bind (payOwners_spQuiet s _ _ _) fun s₁ k₁ => every_ite (fun _ => every_none) fun _ => ?_
  exact every_bind (notifyFeeBurned_spQuiet s₁ tx) fun s₂ k₂ => every_some (k₁.quiet k₂)

theorem sendAllLoop_spQuiet (tx : CMPTransaction) (l : List PropertyId) (n : Nat) (s : State) :
    Every (fun r => SpQuiet s r.2) (sendAllLoop tx l n s) := by
  induction l generalizing s n with
  | nil => exact every_some (SpQuiet.refl s)
  | cons p rest ih =>
    refine every_ite (fun _ => ih n s) fun _ => ?_
    exact every_bind (transferTally_spQuiet s _ _ _ _) fun s₁ k₁ =>
      every_mono (ih (n + 1) s₁) fun _ k₂ => k₁.quiet k₂

theorem logicMathSendAll_spQuiet (s : State) (tx : CMPTransaction) :
    Every (fun r => SpQuiet s r.2) (logicMathSendAll s tx) :=
  reject_spQuiet (every_bind (sendAllLoop_spQuiet tx _ 0 s) fun _ k => every_some k)

theorem sendManyLoop_spQuiet (tx : CMPTransaction) (l : List (Nat × Nat)) (s : State) :
    Every (SpQuiet s) (sendManyLoop tx l s) := by
  induction l generalizing s with
  | nil => exact every_some (SpQuiet.refl s)
  | cons entry rest ih =>
    refine every_bind_any fun receiver _ => every_bind (assertTally_spQuiet s _ _ _ _) fun s₁ k₁ => ?_
    exact every_bind (assertTally_spQuiet s₁ _ _ _ _) fun s₂ k₂ =>
      every_mono (ih s₂) fun _ k₃ => (k₁.quiet k₂).quiet k₃

section
variable (s : State) (tx : CMPTransaction)

theorem logicMathSendToMany_spQuiet :
    Every (fun r => SpQuiet s r.2) (logicMathSendToMany s tx) :=
  reject_spQuiet (every_bind (sendManyLoop_spQuiet tx _ s) fun _ k => every_some k)

theorem logicMathCloseCrowdsale_spQuiet (env : TxEnv) :
    Every (fun r => SpQuiet s r.2) (logicMathCloseCrowdsale s tx env) := by
  refine reject_spQuiet ?_
  cases s.crowds.find? tx.sender with
  | none => exact every_some (SpQuiet.refl s)
  | some crowd =>
    refine reject_spQuiet (every_bind ?_ fun _ k => every_some k)
    refine every_bind_any fun sp hsp => every_bind_any fun missed _ => every_bind_any fun s₁ h1 => ?_
    refine every_bind (creditIfPositive_spQuiet s₁ _ _ _) fun s₂ k₂ => ?_
    exact every_some (((updateSP_spQuiet h1 hsp rfl rfl (.inl rfl)).quiet k₂).quiet (eraseCrowd_spQuiet s₂ tx.sender))

theorem logicMathRevokeTokens_spQuiet (env : TxEnv) :
    Every (fun r => SpQuiet s r.2) (logicMathRevokeTokens s tx env) := by
  refine reject_spQuiet (every_bind_any fun sp hsp => reject_spQuiet ?_)
  refine every_bind_any fun s₁ h1 => every_bind_any fun s₂ h2 => ?_
  have hsp1 : getSP s₁ tx.property = some sp := by
    rw [(assertTally_spec h1).frame]
    exact hsp
  have k₂ := (assertTally_spec h1).spQuiet.quiet (updateSP_spQuiet h2 hsp1 rfl rfl (.inl rfl))
  exact every_bind (notifyTotalTokensChanged_spQuiet s₂ _ _) fun _ k₃ => every_some (k₂.quiet k₃)

theorem logicMathChangeIssuer_spQuiet (env : TxEnv) :
    Every (fun r => SpQuiet s r.2) (logicMathChangeIssuer s tx env) := by
  refine reject_spQuiet (every_bind_any fun sp hsp => ?_)
  rintro ⟨rc, s'⟩ h
  rcases reject_cases (by simp [allErrors, pktErrorTokens]) h with ⟨-, rfl⟩ | ⟨hok, h⟩
  · exact SpQuiet.refl _
  have hsender : notIssuer tx sp = false := hok (notIssuer tx sp, pktErrorTokens - 43) (by simp)
  have hclosed := hok (s.crowds.contains tx.sender, pktErrorTokens - 39) (by simp)
  have hissuer : tx.sender = sp.getIssuer tx.block := by
    simpa [notIssuer] using hsender
  simp only [do_eq_some, pure_eq_some, Prod.mk.injEq] at h
  obtain ⟨s₁, h1, -, rfl⟩ := h
  refine updateSP_spQuiet h1 hsp rfl rfl (.inr ⟨tx.block, ?_⟩)
  rw [← hissuer]
  simpa [contains] using hclosed

end

theorem freezing_spQuiet {checks' : SPEntry → List (Bool × Int)} (hgo : ∀ r, go = some r → r.2.sp = s.sp ∧ r.2.crowds = s.crowds) :
    Every (fun r => SpQuiet s r.2)
      (reject s checks (getSP s tx.property >>= fun sp => reject s (checks' sp) go)) := by
  refine reject_spQuiet (every_bind_any fun sp _ => reject_spQuiet fun r hr => ?_)
  obtain ⟨hsp, hcrowds⟩ := hgo r hr
  exact SpStep.of_eq hsp hcrowds

section
variable (s : State) (tx : CMPTransaction)

theorem logicMathDisableFreezing_spQuiet (env : TxEnv) :
    Every (fun r => SpQuiet s r.2) (logicMathDisableFreezing s tx env) := by
  refine freezing_spQuiet fun r hr => ?_
  obtain ⟨s₁, h1, rfl⟩ := Option.map_eq_some_iff.mp hr
  rw [disableFreezing_frame h1]
  exact ⟨rfl, rfl⟩

theorem logicMathDeactivation_spQuiet :
    Every (fun r => SpQuiet s r.2) (logicMathDeactivation s tx) := by
  rintro ⟨rc, s'⟩ h
  rcases logicMathDeactivation_cases h with ⟨-, rfl⟩ | ⟨-, s₁, hs, h2⟩
  · exact SpStep.of_eq rfl rfl
  · have k₁ : SpQuiet s s₁ := by
      apply SpStep.of_eq <;> rw [hs]
    exact k₁.quiet (closeOrders_step tx.block (fun _ => False) h2).spQuiet

theorem logicMathActivation_spQuiet :
    Every (fun r => SpQuiet s r.2) (logicMathActivation s tx) := by
  rintro ⟨rc, s'⟩ h
  rcases logicMathActivation_cases h with ⟨-, rfl⟩ | ⟨-, hs⟩
  · exact SpStep.of_eq rfl rfl
  · apply SpStep.of_eq <;> rw [hs]

theorem logicMathAlert_spQuiet :
    Every (fun r => SpQuiet s r.2) (logicMathAlert s tx) := by
  refine reject_spQuiet (every_some ?_)
  split_ifs
  · exact SpStep.of_eq rfl rfl
  · have hfr := addAlert_frame s tx.sender tx.alertType tx.alertExpiry tx.alertText
    apply SpStep.of_eq <;> rw [hfr]

end

/-! ### Handlers with a participation -/

/-- The outcome of a handler whose success lets crowdsales count `f`. -/
def Counts (s : State) (f : Address → Int) (r : Int × State) : Prop :=
  (r.1 < 0 ∧ SpQuiet s r.2) ∨ (r.1 = 0 ∧ SpStep s r.2 f)

theorem reject_counts
    (hneg : allErrors checks) (hgo : Every (Counts s f) go) : Every (Counts s f) (reject s checks go) := by
  rintro ⟨rc, s'⟩ h
  rcases reject_cases hneg h with ⟨hrc, rfl⟩ | ⟨-, h⟩
  · exact .inl ⟨hrc, SpQuiet.refl _⟩
  · exact hgo _ h

section
variable (s : State) (tx : CMPTransaction) (env : TxEnv)

theorem logicMathSimpleSend_counts :
    Every (Counts s (participationCreated s (tx.investment env))) (logicMathSimpleSend s tx env) := by
  refine reject_counts (by simp [allErrors, pktErrorSend]) (every_bind_any fun s₁ h1 => ?_)
  have mv := transferTally_moved (by simp) (by simp) h1
  have k₁ := transferTally_spQuiet _ _ _ _ _ _ h1
  refine every_bind (crowdsaleParticipation_spStep s₁ _) fun r k₂ => every_some (.inr ⟨rfl, ?_⟩)
  rw [mv.participationCreated_eq] at k₂
  exact SpQuiet.trans_step k₁ k₂

/-- What the side effect of a grant adds to the counters. -/
def grantCreated (s : State) (tx : CMPTransaction) (env : TxEnv) (a : Address) : Int :=
  if isFeatureActivated s.params Feature.granteffects.id tx.block then 0
  else ((granted s tx env).map fun s => participationCreated s (tx.investment env) a).getD 0

theorem logicMathGrantTokens_counts :
    Every (Counts s (grantCreated s tx env)) (logicMathGrantTokens s tx env) := by
  rintro ⟨rc, s'⟩ h
  rcases logicMathGrantTokens_cases h with
    ⟨hrc, rfl⟩ | ⟨sp, s₁, s₂, s₃, rfl, -, -, hsp, -, -, h1, h2, hg, h3, h4⟩
  · exact .inl ⟨hrc, SpQuiet.refl _⟩
  have k₂ := (updateSP_spQuiet h1 hsp rfl rfl (.inl rfl)).quiet (assertTally_spQuiet _ _ _ _ _ _ h2)
  have k₄ := notifyTotalTokensChanged_spQuiet _ _ _ _ h4
  have hparams : s₂.params = s.params := by
    obtain ⟨-, -, -, -, -, hfr⟩ := updateSP_spec h1
    rw [(assertTally_spec h2).frame, hfr]
  refine .inr ⟨rfl, SpStep.quiet (SpQuiet.trans_step k₂ ?_) k₄⟩
  unfold grantEffects at h3
  unfold grantCreated
  rw [hparams] at h3
  split_ifs at h3 ⊢
  · cases h3
    exact SpQuiet.refl s₂
  · obtain ⟨r, hr, rfl⟩ := Option.map_eq_some_iff.mp h3
    simpa [hg] using crowdsaleParticipation_spStep s₂ _ r hr

theorem payCrowdsale_counts :
    Every (Counts s (participationCreated s (tx.investment env))) (payCrowdsale s tx env) := by
  unfold payCrowdsale
  cases s.crowds.find? tx.receiver with
  | none => exact every_some (.inl ⟨show pktErrorTokens - 47 < 0 by decide, SpQuiet.refl s⟩)
  | some crowd =>
    refine reject_counts (by simp [allErrors, pktErrorTokens]) ?_
    exact every_bind (crowdsaleParticipation_spStep s _) fun r k => every_some (.inr ⟨rfl, k⟩)

/-- What a payment in RPD adds to the counters. -/
def rapidsCreated (s : State) (tx : CMPTransaction) (env : TxEnv) (a : Address) : Int :=
  ((rapidsInvestment tx env).map fun inv => participationCreated s inv a).getD 0

theorem logicMathRapidsPayment_counts :
    Every (Counts s (rapidsCreated s tx env)) (logicMathRapidsPayment s tx env) := by
  refine reject_counts (by simp [allErrors, pktErrorTokens]) ?_
  unfold rapidsCreated rapidsInvestment
  cases env.linked with
  | notFound => exact every_some (.inl ⟨show mpTxNotFound < 0 by decide, SpQuiet.refl s⟩)
  | notToken => exact every_some (.inl ⟨show mpTxIsNotTokenProtocol < 0 by decide, SpQuiet.refl s⟩)
  | token valid type version sender =>
    refine reject_counts (by simp [allErrors, mpTxIsNotTokenProtocol, pktErrorTokens]) ?_
    by_cases htype : TxType.ofId type = some .createPropertyVariable
    · simp only [if_pos htype, Option.map_some, Option.getD_some]
      exact payCrowdsale_counts s { tx with nValue := toU64 (env.paymentTo sender) } env
    · simp only [if_neg htype, Option.map_none, Option.getD_none]
      exact every_some (.inr ⟨rfl, SpQuiet.refl s⟩)

end

/-! ### Handlers that create a property -/

/-- A property with the packet's ticker, which no property had, is stored under
the next identifier; a crowdsale that is opened for it has created nothing, and
no tokens are created with it. -/
structure SpRegisters (s s' : State) (tx : CMPTransaction) : Prop where
  ecosystem : tx.ecosystem = propertyMSC ∨ tx.ecosystem = propertyTMSC
  newId : peekNextSPID s tx.ecosystem ≠ 0
  newTicker : findSPByTicker s tx.ticker = 0
  sp : ∃ info, info.registration = (tx.ticker, tx.txid) ∧
    (info.issuer = tx.sender ∧ ∀ block, info.getIssuer block = tx.sender) ∧
    s'.sp = (putSP s tx.ecosystem info).2.sp
  crowds : ∀ a c, s'.crowds.find? a = some c → s.crowds.find? a = some c ∨
    (a = tx.sender ∧ c.propertyId = peekNextSPID s tx.ecosystem ∧ c.uCreated = 0 ∧ c.iCreated = 0 ∧
      supply s' = supply s)
  inRange : ∃ info : SPEntry, info.InRange ∧ s'.sp = (putSP s tx.ecosystem info).2.sp

theorem isNoEcosystem_eq_false {ecosystem : Nat} (h : isNoEcosystem ecosystem = false) :
    ecosystem = propertyMSC ∨ ecosystem = propertyTMSC := by
  unfold isNoEcosystem at h
  simp only [Bool.and_eq_false_iff, bne_eq_false_iff_eq] at h
  exact h

theorem getIssuer_of_sole {x : Position} (block : Nat)
    (h : e.historicalIssuers.entries = [(x, e.issuer)]) : e.getIssuer block = e.issuer := by
  rw [SPEntry.getIssuer, h, List.takeWhile_cons]
  split_ifs
  · rfl
  · rfl

theorem inRange_of_value {value : Nat} (h : isOutOfRange value = false)
    (htokens : e.numTokens = toI64 value) (hdeadline : e.deadline ≤ i64Max) : e.InRange := by
  obtain ⟨hpos, -, hvalue⟩ := isOutOfRange_eq_false h
  refine ⟨?_, hdeadline⟩
  rw [htokens]
  exact ⟨by omega, (inI64_toI64 _).2⟩

/-- The outcome of a handler that creates a property. -/
def Registers (s : State) (tx : CMPTransaction) (r : Int × State) : Prop :=
  (r.1 < 0 ∧ r.2 = s) ∨ (r.1 = 0 ∧ SpRegisters s r.2 tx)

theorem reject_registers
    (hneg : allErrors checks) (hgo : (∀ c ∈ checks, c.1 = false) → Every (Registers s tx) go) :
    Every (Registers s tx) (reject s checks go) := by
  rintro ⟨rc, s'⟩ h
  rcases reject_cases hneg h with hr | ⟨hok, h⟩
  · exact .inl hr
  · exact hgo hok _ h

section
variable (s : State) (tx : CMPTransaction) (env : TxEnv)

theorem logicMathCreatePropertyFixed_registers :
    Every (Registers s tx) (logicMathCreatePropertyFixed s tx env) := by
  refine reject_registers (by simp [allErrors, royaltiesChecks, pktErrorSp]) fun hok => ?_
  have heco := hok (isNoEcosystem tx.ecosystem, pktErrorSp - 21) (by simp)
  have hticker := hok (decide (0 < findSPByTicker s tx.ticker), pktErrorSp - 71) (by simp)
  refine every_ite (fun _ => every_none) fun hp => every_bind_any fun s₁ h1 => ?_
  refine every_bind_any fun s₂ h2 => every_some (.inr ⟨rfl, ?_⟩)
  have hsp : s₂.sp = (putSP s tx.ecosystem (tx.fixedSP env)).2.sp := by
    rw [(notifyTotalTokensChanged_feeStep h2).frame, (assertTally_spec h1).frame]
    rfl
  have hcrowds : s₂.crowds = s.crowds := by
    rw [(notifyTotalTokensChanged_feeStep h2).frame, (assertTally_spec h1).frame]
  have hvalue := hok (isOutOfRange tx.nValue, pktErrorSp - 23) (by simp)
  have htokens : (tx.fixedSP env).numTokens = toI64 tx.nValue := by
    rw [CMPTransaction.fixedSP]
  refine ⟨isNoEcosystem_eq_false heco, hp, by simpa using hticker,
    ⟨tx.fixedSP env, rfl, ⟨rfl, fun block => getIssuer_of_sole block rfl⟩, hsp⟩, fun a c hc => ?_,
    ⟨tx.fixedSP env, inRange_of_value hvalue htokens (show (0 : Int) ≤ i64Max by decide), hsp⟩⟩
  rw [hcrowds] at hc
  exact .inl hc

theorem logicMathCreatePropertyVariable_registers :
    Every (Registers s tx) (logicMathCreatePropertyVariable s tx env) := by
  refine reject_registers (by simp [allErrors, pktErrorSp]) fun hok => ?_
  have heco := hok (isNoEcosystem tx.ecosystem, pktErrorSp - 21) (by simp)
  have hticker := hok (decide (0 < findSPByTicker s tx.ticker), pktErrorSp - 71) (by simp)
  refine every_ite (fun _ => every_none) fun hp => every_some (.inr ⟨rfl, ?_⟩)
  have hvalue := hok (isOutOfRange tx.nValue, pktErrorSp - 23) (by simp)
  have htokens : (tx.variableSP env).numTokens = toI64 tx.nValue := by
    rw [CMPTransaction.variableSP]
  have hdeadline : (tx.variableSP env).deadline = toI64 tx.deadline := by
    rw [CMPTransaction.variableSP]
  refine ⟨isNoEcosystem_eq_false heco, hp, by simpa using hticker,
    ⟨tx.variableSP env, rfl, ⟨rfl, fun block => getIssuer_of_sole block rfl⟩, rfl⟩, fun a c hc => ?_,
    ⟨tx.variableSP env, inRange_of_value hvalue htokens (hdeadline ▸ (inI64_toI64 _).2), rfl⟩⟩
  rcases find?_insertNew_cases hc with hold | ⟨ha, hnew⟩
  · exact .inl hold
  · rw [hnew]
    exact .inr ⟨ha, rfl, rfl, rfl, rfl⟩

theorem logicMathCreatePropertyManaged_registers :
    Every (Registers s tx) (logicMathCreatePropertyManaged s tx env) := by
  refine reject_registers (by simp [allErrors, pktErrorSp]) fun hok => ?_
  have heco := hok (isNoEcosystem tx.ecosystem, pktErrorSp - 21) (by simp)
  have hticker := hok (decide (0 < findSPByTicker s tx.ticker), pktErrorSp - 71) (by simp)
  refine every_ite (fun _ => every_none) fun hp => every_some (.inr ⟨rfl, ?_⟩)
  have hzero : (0 : Int) ≤ i64Max := by decide
  exact ⟨isNoEcosystem_eq_false heco, hp, by simpa using hticker,
    ⟨tx.managedSP env, rfl, ⟨rfl, fun block => getIssuer_of_sole block rfl⟩, rfl⟩, fun a c hc => .inl hc,
    ⟨tx.managedSP env, ⟨⟨le_rfl, hzero⟩, hzero⟩, rfl⟩⟩

end

/-! ### Packets -/

/-- What a handler's success adds to the counters of each crowdsale. -/
def handlerCreated (s : State) (tx : CMPTransaction) (env : TxEnv) : TxType → Address → Int
  | .simpleSend => participationCreated s (tx.investment env)
  | .grantPropertyTokens => grantCreated s tx env
  | .rapidsPayment => rapidsCreated s tx env
  | _ => fun _ => 0

/-- The same for a packet. -/
def packetCreated (s : State) (tx : CMPTransaction) (env : TxEnv) (a : Address) : Int :=
  ((TxType.ofId tx.type).map fun txType => handlerCreated s tx env txType a).getD 0

/-- Everything a packet can do to properties and crowdsales. -/
def PacketSp (s : State) (tx : CMPTransaction) (env : TxEnv) (r : Int × State) : Prop :=
  SpStep s r.2 (fun a => if r.1 < 0 then 0 else packetCreated s tx env a) ∨
    (r.1 = 0 ∧ createsProperty tx = true ∧ SpRegisters s r.2 tx)

theorem Counts.packetSp (h : Counts s f r)
    (hf : packetCreated s tx env = f) : PacketSp s tx env r := by
  subst hf
  rcases h with ⟨hrc, h⟩ | ⟨hrc, h⟩
  · exact .inl (by simpa [if_pos hrc] using h)
  · exact .inl (by simpa [hrc, lt_irrefl] using h)

theorem SpStep.packetSp (h : SpQuiet s r.2)
    (hf : packetCreated s tx env = fun _ => 0) : PacketSp s tx env r := by
  refine .inl ?_
  simpa [hf] using h

theorem Registers.packetSp (h : Registers s tx r) (hc : createsProperty tx = true) :
    PacketSp s tx env r := by
  rcases h with ⟨hrc, h⟩ | ⟨hrc, h⟩
  · refine .inl ?_
    simpa [if_pos hrc, h] using SpQuiet.refl s
  · exact .inr ⟨hrc, hc, h⟩

theorem quiet_of_exchange {x : Option (Int × State)}
    (h : ∀ rc s', x = some (rc, s') → ExchangeStep s s') : Every (fun r => SpQuiet s r.2) x :=
  fun r hr => (h r.1 r.2 hr).spQuiet

theorem logicMathTradeOffer_step {s' : State} {rc : Int} (h : logicMathTradeOffer s tx = some (rc, s')) :
    ExchangeStep s s' := by
  cases hu : updatesOffer s tx with
  | true =>
    rw [logicMathTradeOffer_updates hu] at h
    exact (updateOffer_exchanged h).1
  | false =>
    rcases logicMathTradeOffer_exchanged hu h with ⟨-, rfl⟩ | ⟨-, hx⟩
    · exact ExchangeStep.refl _
    · exact hx.1

theorem logicMathAcceptOfferRPD_step {s' : State} {rc : Int}
    (h : logicMathAcceptOfferRPD s tx = some (rc, s')) : ExchangeStep s s' := by
  rcases logicMathAcceptOfferRPD_exchanged h with ⟨-, rfl⟩ | ⟨-, hx⟩
  · exact ExchangeStep.refl _
  · exact hx.1

theorem quiet_of_traded {x : Option (Int × State)}
    (h : ∀ rc s', x = some (rc, s') → Traded s s' tx rc) : Every (fun r => SpQuiet s r.2) x :=
  fun r hr => (h r.1 r.2 hr).1.spQuiet

/-- Every handler that neither creates a property nor lets a crowdsale count is
quiet. -/
theorem logicMath_packetSp {txType : TxType} (ht : TxType.ofId tx.type = some txType) :
    Every (PacketSp s tx env) (logicMath s tx env txType) := by
  have counted : packetCreated s tx env = handlerCreated s tx env txType := by
    funext a
    rw [packetCreated, ht, Option.map_some, Option.getD_some]
  have creates : createsProperty tx = (txType == .createPropertyFixed ||
      txType == .createPropertyVariable || txType == .createPropertyManual) := by
    rw [createsProperty, ht]
    cases txType <;> rfl
  cases txType with
  | simpleSend => exact every_mono (logicMathSimpleSend_counts s tx env) fun _ h => h.packetSp counted
  | sendToMany => exact every_mono (logicMathSendToMany_spQuiet s tx) fun _ h => h.packetSp counted
  | sendToOwners => exact every_mono (logicMathSendToOwners_spQuiet s tx) fun _ h => h.packetSp counted
  | sendAll => exact every_mono (logicMathSendAll_spQuiet s tx) fun _ h => h.packetSp counted
  | tradeOffer =>
    exact every_mono (quiet_of_exchange fun _ _ => logicMathTradeOffer_step) fun _ h => h.packetSp counted
  | acceptOfferRPD =>
    exact every_mono (quiet_of_exchange fun _ _ => logicMathAcceptOfferRPD_step) fun _ h =>
      h.packetSp counted
  | metadexTrade =>
    exact every_mono (quiet_of_traded fun _ _ => logicMathMetaDExTrade_traded) fun _ h =>
      h.packetSp counted
  | metadexCancelPrice =>
    exact every_mono (quiet_of_traded fun _ _ => logicMathMetaDExCancelPrice_traded) fun _ h =>
      h.packetSp counted
  | metadexCancelPair =>
    exact every_mono (quiet_of_traded fun _ _ => logicMathMetaDExCancelPair_traded) fun _ h =>
      h.packetSp counted
  | metadexCancelEcosystem =>
    exact every_mono (quiet_of_traded fun _ _ => logicMathMetaDExCancelEcosystem_traded) fun _ h =>
      h.packetSp counted
  | createPropertyFixed =>
    exact every_mono (logicMathCreatePropertyFixed_registers s tx env) fun _ h => h.packetSp creates
  | createPropertyVariable =>
    exact every_mono (logicMathCreatePropertyVariable_registers s tx env) fun _ h => h.packetSp creates
  | createPropertyManual =>
    exact every_mono (logicMathCreatePropertyManaged_registers s tx env) fun _ h => h.packetSp creates
  | closeCrowdsale =>
    exact every_mono (logicMathCloseCrowdsale_spQuiet s tx env) fun _ h => h.packetSp counted
  | grantPropertyTokens =>
    exact every_mono (logicMathGrantTokens_counts s tx env) fun _ h => h.packetSp counted
  | revokePropertyTokens =>
    exact every_mono (logicMathRevokeTokens_spQuiet s tx env) fun _ h => h.packetSp counted
  | changeIssuerAddress =>
    exact every_mono (logicMathChangeIssuer_spQuiet s tx env) fun _ h => h.packetSp counted
  | rapidsPayment =>
    exact every_mono (logicMathRapidsPayment_counts s tx env) fun _ h => h.packetSp counted
  | enableFreezing =>
    refine every_mono (P := fun r => SpQuiet s r.2) ?_ fun _ h => h.packetSp counted
    exact freezing_spQuiet fun r hr => by cases hr; exact ⟨rfl, rfl⟩
  | disableFreezing =>
    exact every_mono (logicMathDisableFreezing_spQuiet s tx env) fun _ h => h.packetSp counted
  | freezePropertyTokens =>
    refine every_mono (P := fun r => SpQuiet s r.2) ?_ fun _ h => h.packetSp counted
    exact freezing_spQuiet fun r hr => by cases hr; exact ⟨rfl, rfl⟩
  | unfreezePropertyTokens =>
    refine every_mono (P := fun r => SpQuiet s r.2) ?_ fun _ h => h.packetSp counted
    exact freezing_spQuiet fun r hr => by cases hr; exact ⟨rfl, rfl⟩
  | deactivation => exact every_mono (logicMathDeactivation_spQuiet s tx) fun _ h => h.packetSp counted
  | activation => exact every_mono (logicMathActivation_spQuiet s tx) fun _ h => h.packetSp counted
  | alert => exact every_mono (logicMathAlert_spQuiet s tx) fun _ h => h.packetSp counted
  | offerAcceptABet => exact every_some ((SpQuiet.refl s).packetSp counted)

theorem interpretPacket_packetSp (s : State) (tx : CMPTransaction) (env : TxEnv) :
    Every (PacketSp s tx env) (interpretPacket s tx env) := by
  have hquiet : ∀ rc < 0, PacketSp s tx env (rc, s) := by
    intro rc hrc
    refine .inl ?_
    simpa [if_pos hrc] using SpQuiet.refl s
  rintro ⟨rc, s'⟩ h
  rcases reject_cases (by simp [allErrors, pktError]) h with ⟨hrc, rfl⟩ | ⟨-, h⟩
  · exact hquiet rc hrc
  · cases ht : TxType.ofId tx.type with
    | none =>
      rw [ht] at h
      cases h
      exact hquiet _ (by decide)
    | some txType =>
      rw [ht] at h
      exact logicMath_packetSp ht _ h

/-! ### Events -/

theorem handle_spQuiet {e : Event} (hp : ∀ tx env, e ≠ .packet tx env) (h : handle s e = some s') :
    SpQuiet s s' := by
  cases e with
  | blockBegin height time hash =>
    have k₁ : SpQuiet s (checkLiveActivations s height) := by
      apply SpStep.of_eq <;> rw [checkLiveActivations_frame]
    exact k₁.quiet (eraseExpiredLoop_spQuiet _ _ _ _ _ h)
  | payment block sender outputs => exact (paymentLoop_step h).spQuiet
  | packet tx env => exact absurd rfl (hp tx env)
  | blockEnd height time =>
    obtain ⟨s₁, s₂, h1, h2, rfl⟩ := handlerBlockEnd_cases h
    have k₁ := (eraseExpiredAcceptsLoop_step h1).spQuiet
    have k₂ : SpQuiet s₁ s₂ := by
      rcases calculateAndUpdateDevmsc_cases h2 with ⟨-, rfl | h2⟩ | ⟨ok, s₃, -, -, -, h3, h2⟩
      · exact SpQuiet.refl _
      · exact notifyTotalTokensChanged_spQuiet _ _ _ _ h2
      · have k₃ : SpQuiet s₁ { s₃ with exodusPrev := s₁.cfg.devmsc time } := by
          cases ok with
          | true => apply SpStep.of_eq <;> rw [(assertTally_of_update h3).frame]
          | false => apply SpStep.of_eq <;> rw [(updateTallyMap_refused h3).1]
        exact k₃.quiet (notifyTotalTokensChanged_spQuiet _ _ _ _ h2)
    exact (k₁.quiet k₂).quiet (SpStep.of_eq rfl rfl)

/-- **Properties and crowdsales under an event**: a property is registered by a
packet that creates one, and by nothing else. -/
theorem handle_spStep {e : Event} (h : handle s e = some s') :
    (∃ f, SpStep s s' f) ∨
      ∃ tx env, e = .packet tx env ∧ createsProperty tx = true ∧ SpRegisters s s' tx := by
  by_cases hp : ∃ tx env, e = .packet tx env
  · obtain ⟨tx, env, rfl⟩ := hp
    simp only [handle, Option.map_eq_some_iff] at h
    obtain ⟨r, hr, rfl⟩ := h
    rcases interpretPacket_packetSp s tx env r hr with hstep | ⟨-, hc, hreg⟩
    · exact .inl ⟨_, hstep⟩
    · exact .inr ⟨tx, env, rfl, hc, hreg⟩
  · exact .inl ⟨_, handle_spQuiet (fun tx env he => hp ⟨tx, env, he⟩) h⟩

end

end Rapids.Token
