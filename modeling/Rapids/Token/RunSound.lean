import Rapids.Token.Run

/-!
# Rapids.Token.RunSound

What holds **along every run**.

Each kind of step (`Effect`, `ExchangeStep`, `MetaDexStep`) is shown once to
keep each invariant; `PacketStep` and the handlers of the other events are
combinations of these. `NodeInv` holds in every reachable state without
conditions. The reserve invariant `DexInv` holds while every payment fits, and
the ledger invariant `LedgerInv` while every new property gets an identifier
that is not in use; both conditions are decidable guards on the events.
-/

namespace Rapids.Token

open Rapids.Lib

variable {s s' : State} {e : Event} {time block : Nat} {added : Position → Prop}

/-! ### What needs no condition -/

/-- Balances within their range, no fee of a later block, one offer for each
seller. -/
structure Core (s : State) (block : Nat) : Prop where
  solvent : Solvent s
  feesUpTo : FeesUpTo s block
  single : SingleOffer s

section
variable {s s' : State} {block : Nat}

theorem Core.mono {b : Nat} (h : Core s block) (hb : block ≤ b) : Core s b :=
  ⟨h.solvent, h.feesUpTo.mono hb, h.single⟩

variable {minted : PropertyId → Int}

theorem Effect.core (h : Effect s s' block minted) (hc : Core s block) :
    Core s' block := by
  refine ⟨h.solvent hc.solvent, h.feesUpTo, ?_⟩
  unfold SingleOffer
  rw [h.offers]
  exact hc.single

theorem ExchangeStep.core (h : ExchangeStep s s') (hc : Core s block) : Core s' block := by
  refine ⟨h.solvent hc.solvent, fun p e he => ?_, h.single hc.single⟩
  rw [h.frame] at he
  exact hc.feesUpTo p e he

theorem MetaDexStep.core (h : MetaDexStep s s' block added)
    (hc : Core s block) : Core s' block := by
  refine ⟨h.solvent hc.feesUpTo hc.solvent, h.feesUpTo hc.feesUpTo, ?_⟩
  rw [h.frame]
  exact hc.single

theorem Effect.orderAt_eq (h : Effect s s' block minted) :
    s'.orderAt = s.orderAt := by
  unfold State.orderAt State.level
  rw [h.metadex]

theorem ExchangeStep.orderAt_eq (h : ExchangeStep s s') : s'.orderAt = s.orderAt := by
  unfold State.orderAt State.level
  rw [h.frame]

/-! ### The reserves of the traditional exchange -/

theorem DexInv.of_eq (hi : DexInv s) (hoff : s'.offers = s.offers) (hacc : s'.accepts = s.accepts)
    (hres : ∀ a q t, t ≠ .balance → t ≠ .metadexReserve →
      getTokenBalance s' a q t = getTokenBalance s a q t) : DexInv s' := by
  refine ⟨fun a p => ?_, fun a p hp => ?_, ?_, fun k accept hk => ?_⟩
  · rw [hres a p _ (by simp) (by simp), acceptedOf_congr hacc]
    exact hi.acceptReserve a p
  · rw [hres a p _ (by simp) (by simp)] at hp
    simpa [dexOfferExists, hoff] using hi.sellReserve a p hp
  · unfold SingleOffer
    rw [hoff]
    exact hi.single
  · rw [hacc] at hk
    exact hi.nonneg k accept hk

theorem Effect.dexInv (h : Effect s s' block minted) (hi : DexInv s) :
    DexInv s' :=
  hi.of_eq h.offers h.accepts fun a q t ht _ => h.reserves a q t ht

theorem MetaDexStep.dexInv (h : MetaDexStep s s' block added)
    (hi : DexInv s) : DexInv s' := by
  refine hi.of_eq ?_ ?_ h.reserves <;> rw [h.frame]

/-! ### The ledger -/

theorem ExchangeStep.spFrame (h : ExchangeStep s s') : SpFrame s s' := by
  apply SpFrame.of_eq <;> rw [h.frame]

theorem MetaDexStep.spFrame (h : MetaDexStep s s' block added) :
    SpFrame s s' := by
  apply SpFrame.of_eq <;> rw [h.frame]

theorem LedgerInv.of_supply_eq (hi : LedgerInv s) (hf : SpFrame s s') (hs : Solvent s')
    (hsup : ∀ q, supply s' q = supply s q) : LedgerInv s' :=
  hi.of_frame hf hs (fun q => by rw [hsup, add_zero]) hi.mintable_zero.known hi.mintable_zero.bound

theorem ExchangeStep.ledgerInv (h : ExchangeStep s s') (hi : LedgerInv s) : LedgerInv s' :=
  hi.of_supply_eq h.spFrame (h.solvent hi.solvent) h.supply

theorem MetaDexStep.ledgerInv (h : MetaDexStep s s' block added)
    (hf : FeesUpTo s block) (hi : LedgerInv s) : LedgerInv s' :=
  hi.of_supply_eq h.spFrame (h.solvent hf hi.solvent) (h.supply hf)

end

/-! ### Packets -/

section
variable {s s' : State} {tx : CMPTransaction} {env : TxEnv} {rc : Int}

section
variable (h : PacketStep s tx env rc s')
include h

theorem PacketStep.core (hc : Core s tx.block) : Core s' tx.block := by
  cases h with
  | rejected _ => exact hc
  | settled he _ _ => exact he.core hc
  | created hcr _ _ => exact hcr.effect.core hc
  | exchanged hx _ _ => exact hx.1.core hc
  | traded he _ hst _ _ => exact hst.core (he.core hc)

theorem PacketStep.places {p : PropertyId} {price : ℚ} {x : Position}
    (ho : (s'.orderAt p price x).isSome) :
    (s.orderAt p price x).isSome ∨ x = position tx.block tx.txIdx := by
  cases h with
  | rejected _ => exact .inl ho
  | settled he _ _ => exact .inl (by rwa [he.orderAt_eq] at ho)
  | created hcr _ _ => exact .inl (by rwa [hcr.effect.orderAt_eq] at ho)
  | exchanged hx _ _ => exact .inl (by rwa [hx.1.orderAt_eq] at ho)
  | traded he _ hst _ _ =>
    rcases hst.places p price x ho with hold | hnew
    · exact .inl (by rwa [he.orderAt_eq] at hold)
    · exact .inr hnew

theorem PacketStep.dexInv (hs : Solvent s) (hi : DexInv s) :
    DexInv s' := by
  cases h with
  | rejected _ => exact hi
  | settled he _ _ => exact he.dexInv hi
  | created hcr _ _ => exact hcr.effect.dexInv hi
  | exchanged hx _ _ => exact hx.2.1 hi hs
  | traded he _ hst _ _ => exact hst.dexInv (he.dexInv hi)

/-- Does a packet that creates a property find the next identifier free? -/
def freshId (s : State) (tx : CMPTransaction) : Bool :=
  !createsProperty tx || !hasSP s (peekNextSPID s tx.ecosystem)

theorem PacketStep.ledgerInv (hfresh : freshId s tx = true)
    (hi : LedgerInv s) : LedgerInv s' := by
  cases h with
  | rejected _ => exact hi
  | settled he hfr hm => exact LedgerStep.inv ⟨he, hfr, hm hi⟩ hi
  | created hcr _ hc => exact hcr.inv hi (by simpa [freshId, hc] using hfresh)
  | exchanged hx _ _ => exact hx.1.ledgerInv hi
  | traded he hfr hst _ _ =>
    have hi1 := LedgerStep.inv ⟨he, hfr, hi.mintable_zero⟩ hi
    exact hst.ledgerInv he.feesUpTo hi1

theorem PacketStep.supply_eq (q : PropertyId) :
    supply s' q = supply s q + if rc < 0 then 0 else packetMint s tx env q := by
  cases h with
  | rejected hrc => simp [hrc]
  | settled he _ _ => simpa using he.supply q
  | created hcr hm _ =>
    rw [hcr.effect.supply q, hm]
    simp
  | exchanged hx hm _ =>
    rw [hx.1.supply, hm]
    simp
  | traded he _ hst hm _ =>
    rw [hst.supply he.feesUpTo, he.supply, hm]
    simp

end

end

/-! ### Vesting -/

/-- What the end of a block vests. -/
def vestedMint (s : State) (time : Nat) (q : PropertyId) : Int :=
  if q = propertyMSC ∧ 1377993874 ≤ time ∧ s.exodusPrev < s.cfg.devmsc time ∧
      s.cfg.devmsc time ≤ allReward ∧ 0 ≤ s.cfg.devmsc time then
    s.cfg.devmsc time - s.exodusPrev
  else 0

theorem calculateAndUpdateDevmsc_cases
    (h : calculateAndUpdateDevmsc s time block = some s') :
    (vestedMint s time = (fun _ => 0) ∧
      (s' = s ∨ notifyTotalTokensChanged s propertyMSC block = some s')) ∨
    (∃ ok s₁, s.exodusPrev < s.cfg.devmsc time ∧ s.cfg.devmsc time ≤ allReward ∧
      vestedMint s time =
        (fun q => if q = propertyMSC then s.cfg.devmsc time - s.exodusPrev else 0) ∧
      updateTallyMap s s.cfg.exodusAddress propertyMSC (s.cfg.devmsc time - s.exodusPrev) .balance =
        some (ok, s₁) ∧
      notifyTotalTokensChanged { s₁ with exodusPrev := s.cfg.devmsc time } propertyMSC block =
        some s') := by
  unfold calculateAndUpdateDevmsc creditVested at h
  dsimp only at h
  split_ifs at h with h1 h2 h3 h4
  · exact .inl ⟨funext fun q => if_neg (by omega), .inl (Option.some.inj h).symm⟩
  · exact .inl ⟨funext fun q => if_neg (by omega), .inl (Option.some.inj h).symm⟩
  · exact .inl ⟨funext fun q => if_neg (by omega), .inl (Option.some.inj h).symm⟩
  · simp only [do_eq_some, Option.map_eq_some_iff, Prod.exists] at h
    obtain ⟨s₂, ⟨ok, s₁, h₁, rfl⟩, h₂⟩ := h
    refine .inr ⟨ok, s₁, by omega, by omega, funext fun q => ?_, h₁, h₂⟩
    unfold vestedMint
    by_cases hq : q = propertyMSC
    · rw [if_pos ⟨hq, by omega, by omega, by omega, by omega⟩, if_pos hq]
    · rw [if_neg fun hc => hq hc.1, if_neg hq]
  · simp only [Option.bind_eq_bind, Option.bind_some] at h
    exact .inl ⟨funext fun q => if_neg (by omega), .inr h⟩

theorem assertTally_of_update {s₁ : State} {who : Address} {p : PropertyId} {amount : Int}
    {tt : TallyType} (h : updateTallyMap s who p amount tt = some (true, s₁)) :
    TallyStep s s₁ who p amount tt :=
  assertTally_spec (by rw [assertTally, h])

theorem vested_effect {s₁ : State} {ok : Bool} {delta : Int} (devmsc : Int)
    (hf : FeesUpTo s block)
    (h : updateTallyMap s s.cfg.exodusAddress propertyMSC delta .balance = some (ok, s₁)) :
    Effect s { s₁ with exodusPrev := devmsc } block
      fun q => if q = propertyMSC ∧ ok = true then delta else 0 := by
  have hback : Effect s₁ { s₁ with exodusPrev := devmsc } block fun _ => 0 := by
    refine Effect.of_eq ?_ rfl rfl rfl rfl rfl rfl
    cases ok with
    | true => exact (assertTally_of_update h).feesUpTo hf
    | false =>
      intro q e he
      rw [(updateTallyMap_refused h).1] at he
      exact hf q e he
  cases ok with
  | true =>
    have t := assertTally_of_update h
    exact ((t.feeStep block).effect hf).trans hback fun q => by simp
  | false =>
    obtain ⟨hfr, hbal, hheld⟩ := updateTallyMap_refused h
    have hcached : ∀ q, getCachedAmount s₁ q = getCachedAmount s q := fun q => by
      rw [hfr]
      rfl
    refine Effect.trans (f := fun _ => 0) ⟨?_, ?_, ?_, ?_, fun a q t _ => hbal a q t, fun q => ?_,
      fun q e he => ?_, fun hs => hs.of_eq hbal hcached⟩ hback fun q => by simp
    · rw [hfr]
    · rw [hfr]
    · rw [hfr]
    · rw [hfr]
    · rw [supply, supply, hheld, hcached, add_zero]
    · rw [hfr] at he
      exact hf q e he

theorem calculateAndUpdateDevmsc_effect (hf : FeesUpTo s block)
    (h : calculateAndUpdateDevmsc s time block = some s') : ∃ minted, Effect s s' block minted := by
  rcases calculateAndUpdateDevmsc_cases h with ⟨-, rfl | h2⟩ | ⟨ok, s₁, -, -, -, h1, h2⟩
  · exact ⟨_, Effect.refl hf⟩
  · exact ⟨_, (notifyTotalTokensChanged_feeStep h2).effect hf⟩
  · have e₁ := vested_effect (s.cfg.devmsc time) hf h1
    exact ⟨_, e₁.trans ((notifyTotalTokensChanged_feeStep h2).effect e₁.feesUpTo) fun _ => rfl⟩

/-- The ledger invariant, when the supply of the first property follows the
vested amount. -/
theorem LedgerInv.vested {devmsc : Int} (hi : LedgerInv s) (hle : devmsc ≤ allReward)
    (hs : Solvent s') (hsp : s'.sp.entries = s.sp.entries) (hcr : s'.crowds = s.crowds)
    (hex : s'.exodusPrev = devmsc)
    (hsup : ∀ q, supply s' q = supply s q + if q = propertyMSC then devmsc - s.exodusPrev else 0) :
    LedgerInv s' := by
  have hhas : ∀ q, hasSP s' q = hasSP s q := fun q => by
    unfold hasSP getSP
    rw [hsp]
    split_ifs <;> rfl
  have hmsc : supply s' propertyMSC ≤ devmsc := by
    rw [hsup, if_pos rfl]
    have := hi.exodus.1
    omega
  refine ⟨hs, fun p => ?_, fun p hp => ?_, fun p e he => ?_, fun a c hc => ?_,
    fun a b c d hc hd => ?_, ?_⟩
  · by_cases hp : p = propertyMSC
    · subst hp
      unfold allReward at hle
      unfold i64Max
      omega
    · rw [hsup, if_neg hp, add_zero]
      exact hi.bounded p
  · by_cases hm : p = propertyMSC
    · simp [hasSP, getSP, hm]
    · rw [hhas]
      rw [hsup, if_neg hm, add_zero] at hp
      exact hi.known p hp
  · rw [hsp] at he
    exact hi.manual p e he
  · rw [hcr] at hc
    rw [hsp]
    exact hi.crowd a c hc
  · rw [hcr] at hc hd
    exact hi.crowd_inj a b c d hc hd
  · rw [hex]
    exact ⟨hmsc, hle⟩

theorem calculateAndUpdateDevmsc_step (hi : LedgerInv s)
    (hf : FeesUpTo s block) (h : calculateAndUpdateDevmsc s time block = some s') :
    Effect s s' block (vestedMint s time) ∧ LedgerInv s' := by
  rcases calculateAndUpdateDevmsc_cases h with ⟨hz, hcase⟩ | ⟨ok, s₁, hlt, hle, hm, h1, h2⟩
  · rw [hz]
    rcases hcase with rfl | h2
    · exact ⟨Effect.refl hf, hi⟩
    · have st := notifyTotalTokensChanged_feeStep h2
      exact ⟨st.effect hf, LedgerStep.inv ⟨st.effect hf, st.spFrame, hi.mintable_zero⟩ hi⟩
  · have hok : ok = true := by
      have hbal := hi.solvent.balance_le_supply s.cfg.exodusAddress propertyMSC
      have hpos := hi.solvent.nonneg s.cfg.exodusAddress propertyMSC .balance (by simp)
      have hex := hi.exodus
      have hsome : ∃ s₂, assertTally s s.cfg.exodusAddress propertyMSC
          (s.cfg.devmsc time - s.exodusPrev) .balance = some s₂ :=
        assertTally_isSome (by omega) (fun _ => by unfold allReward at *; unfold i64Max; omega)
          (fun hc => by omega) (fun _ => by omega) (fun _ hc => by omega)
      obtain ⟨s₂, h3⟩ := hsome
      rw [assertTally, h1] at h3
      cases ok with
      | true => rfl
      | false => simp at h3
    subst hok
    have e₁ := vested_effect (s.cfg.devmsc time) hf h1
    have st := notifyTotalTokensChanged_feeStep h2
    have t := assertTally_of_update h1
    rw [hm]
    have e : Effect s s' block fun q =>
        if q = propertyMSC then s.cfg.devmsc time - s.exodusPrev else 0 :=
      e₁.trans (st.effect e₁.feesUpTo) fun q => by simp
    refine ⟨e, hi.vested hle (e.solvent hi.solvent) ?_ ?_ ?_ e.supply⟩
    · rw [st.frame]
      exact congrArg (fun s => s.sp.entries) t.frame
    · rw [st.frame]
      exact congrArg (fun s => s.crowds) t.frame
    · rw [st.frame]

/-! ### Events -/

theorem checkLiveActivations_frame (s : State) (height : Nat) :
    checkLiveActivations s height =
      { s with
        pendingActivations := (checkLiveActivations s height).pendingActivations
        completedActivations := (checkLiveActivations s height).completedActivations } := by
  unfold checkLiveActivations
  generalize s.pendingActivations.filter _ = live
  induction live generalizing s with
  | nil => rfl
  | cons a rest ih => exact ih _

theorem checkLiveActivations_effect {s : State} {height block : Nat} (hf : FeesUpTo s block) :
    Effect s (checkLiveActivations s height) block (fun _ => 0) ∧
      SpFrame s (checkLiveActivations s height) := by
  apply settled_of_eq hf
  rw [checkLiveActivations_frame]

variable {height : Nat} {clock : Position} {n : Node}

theorem handlerBlockBegin_effect {hash : Hash}
    (hf : FeesUpTo s height) (h : handlerBlockBegin s height time hash = some s') :
    ∃ minted, Effect s s' height minted := by
  obtain ⟨e₁, -⟩ := checkLiveActivations_effect hf
  obtain ⟨minted, e₂⟩ := eraseExpiredLoop_effect e₁.feesUpTo h
  exact ⟨_, e₁.trans e₂ fun _ => rfl⟩

theorem handlerBlockBegin_step {hash : Hash} (hi : LedgerInv s)
    (hf : FeesUpTo s height) (h : handlerBlockBegin s height time hash = some s') :
    LedgerStep s s' height (expiredMint s time) := by
  obtain ⟨e₁, f₁⟩ := checkLiveActivations_effect hf
  have st₁ : LedgerStep s (checkLiveActivations s height) height fun _ => 0 :=
    ⟨e₁, f₁, hi.mintable_zero⟩
  have st₂ := eraseExpiredCrowdsale_step (st₁.inv hi) e₁.feesUpTo h
  have hm : expiredMint (checkLiveActivations s height) time = expiredMint s time := by
    rw [checkLiveActivations_frame]
    rfl
  rw [hm] at st₂
  exact st₁.trans st₂ fun q => (zero_add _).symm

theorem handlerBlockEnd_cases
    (h : handlerBlockEnd s height time = some s') :
    ∃ s₁ s₂, eraseExpiredAccepts s height = some s₁ ∧
      calculateAndUpdateDevmsc s₁ time height = some s₂ ∧ s' = checkExpiredAlerts s₂ height time := by
  simp only [handlerBlockEnd, do_eq_some, pure_eq_some] at h
  obtain ⟨s₁, h1, s₂, h2, rfl⟩ := h
  exact ⟨s₁, s₂, h1, h2, rfl⟩

theorem checkExpiredAlerts_effect (height time : Nat) (hf : FeesUpTo s block) :
    Effect s (checkExpiredAlerts s height time) block (fun _ => 0) ∧
      SpFrame s (checkExpiredAlerts s height time) :=
  settled_of_eq hf rfl

theorem handle_packet {tx : CMPTransaction} {env : TxEnv} (h : handle s (.packet tx env) = some s') :
    ∃ rc, interpretPacket s tx env = some (rc, s') := by
  simpa [handle] using h

/-- What an event does: something on the exchange, something with tokens, or what a packet
asks for. -/
theorem handle_cases (hc : Core s e.block) (h : handle s e = some s') :
    (∃ s₁ minted, ExchangeStep s s₁ ∧ Effect s₁ s' e.block minted) ∨
      ∃ tx env rc, e = .packet tx env ∧ interpretPacket s tx env = some (rc, s') := by
  cases e with
  | blockBegin height time hash =>
    obtain ⟨minted, he⟩ := handlerBlockBegin_effect hc.feesUpTo h
    exact .inl ⟨s, minted, .refl s, he⟩
  | payment block sender outputs =>
    have st := paymentLoop_step h
    exact .inl ⟨s', _, st, .refl (st.core hc).feesUpTo⟩
  | packet tx env =>
    obtain ⟨rc, h⟩ := handle_packet h
    exact .inr ⟨tx, env, rc, rfl, h⟩
  | blockEnd height time =>
    obtain ⟨s₁, s₂, h1, h2, rfl⟩ := handlerBlockEnd_cases h
    have st := eraseExpiredAcceptsLoop_step h1
    obtain ⟨minted, he⟩ := calculateAndUpdateDevmsc_effect (st.core hc).feesUpTo h2
    exact .inl ⟨s₁, _, st, he.trans (checkExpiredAlerts_effect height time he.feesUpTo).1 fun _ => rfl⟩

theorem handle_core (hc : Core s e.block) (h : handle s e = some s') : Core s' e.block := by
  rcases handle_cases hc h with ⟨s₁, minted, st, he⟩ | ⟨tx, env, rc, rfl, hp⟩
  · exact he.core (st.core hc)
  · exact (interpretPacket_step hc.solvent hc.feesUpTo hp).core hc

theorem handle_places (hc : Core s e.block) (h : handle s e = some s')
    {p : PropertyId} {price : ℚ} {x : Position} (ho : (s'.orderAt p price x).isSome) :
    (s.orderAt p price x).isSome ∨ ∃ tx env, e = .packet tx env ∧ x = position tx.block tx.txIdx := by
  rcases handle_cases hc h with ⟨s₁, minted, st, he⟩ | ⟨tx, env, rc, rfl, hp⟩
  · rw [he.orderAt_eq, st.orderAt_eq] at ho
    exact .inl ho
  · rcases (interpretPacket_step hc.solvent hc.feesUpTo hp).places ho with hold | hnew
    · exact .inl hold
    · exact .inr ⟨tx, env, rfl, hnew⟩

/-- Does every payment of the event fit? -/
def fitsEvent (s : State) : Event → Bool
  | .payment block sender outputs => paymentsFit sender outputs block (outputs ++ outputs) s
  | _ => true

/-- Does the event find a free identifier for the property it creates? -/
def freshEvent (s : State) : Event → Bool
  | .packet tx _ => freshId s tx
  | _ => true

theorem handle_dexInv (hc : Core s e.block) (hfit : fitsEvent s e = true)
    (h : handle s e = some s') (hi : DexInv s) : DexInv s' := by
  cases e with
  | blockBegin height time hash =>
    obtain ⟨minted, he⟩ := handlerBlockBegin_effect hc.feesUpTo h
    exact he.dexInv hi
  | payment block sender outputs => exact paymentLoop_inv hi hc.solvent hfit h
  | packet tx env =>
    obtain ⟨rc, h⟩ := handle_packet h
    exact (interpretPacket_step hc.solvent hc.feesUpTo h).dexInv hc.solvent hi
  | blockEnd height time =>
    obtain ⟨s₁, s₂, h1, h2, rfl⟩ := handlerBlockEnd_cases h
    have hc1 := (eraseExpiredAcceptsLoop_step h1).core hc
    obtain ⟨minted, he⟩ := calculateAndUpdateDevmsc_effect hc1.feesUpTo h2
    have hi2 := he.dexInv (eraseExpiredAcceptsLoop_inv hi h1)
    exact (checkExpiredAlerts_effect height time he.feesUpTo).1.dexInv hi2

/-- What an event mints of each property: the withheld bonuses of the
crowdsales that expire, what a successful packet mints, the vested tokens. -/
def eventMint (s : State) (e : Event) (q : PropertyId) : Int :=
  match e with
  | .blockBegin _ time _ => expiredMint s time q
  | .payment _ _ _ => 0
  | .packet tx env =>
    ((interpretPacket s tx env).map fun r => if r.1 < 0 then 0 else packetMint s tx env q).getD 0
  | .blockEnd _ time => vestedMint s time q

theorem handle_ledger (hc : Core s e.block) (hfresh : freshEvent s e = true)
    (h : handle s e = some s') (hi : LedgerInv s) :
    (∀ q, supply s' q = supply s q + eventMint s e q) ∧ LedgerInv s' := by
  cases e with
  | blockBegin height time hash =>
    have st := handlerBlockBegin_step hi hc.feesUpTo h
    exact ⟨st.effect.supply, st.inv hi⟩
  | payment block sender outputs =>
    have st := paymentLoop_step h
    exact ⟨fun q => by rw [st.supply, eventMint, add_zero], st.ledgerInv hi⟩
  | packet tx env =>
    obtain ⟨rc, h⟩ := handle_packet h
    have st := interpretPacket_step hc.solvent hc.feesUpTo h
    refine ⟨fun q => ?_, st.ledgerInv hfresh hi⟩
    rw [st.supply_eq, eventMint, h, Option.map_some, Option.getD_some]
  | blockEnd height time =>
    obtain ⟨s₁, s₂, h1, h2, rfl⟩ := handlerBlockEnd_cases h
    have st₁ := eraseExpiredAcceptsLoop_step h1
    have hi1 := st₁.ledgerInv hi
    obtain ⟨e₂, hi2⟩ := calculateAndUpdateDevmsc_step hi1 (st₁.core hc).feesUpTo h2
    obtain ⟨e₃, f₃⟩ := checkExpiredAlerts_effect height time e₂.feesUpTo
    refine ⟨fun q => ?_, LedgerStep.inv ⟨e₃, f₃, hi2.mintable_zero⟩ hi2⟩
    have hm : vestedMint s₁ time q = vestedMint s time q := by
      rw [st₁.frame]
      rfl
    rw [e₃.supply, e₂.supply, st₁.supply, hm, eventMint, add_zero]

/-! ### Nodes -/

/-- What holds in every reachable state. -/
structure NodeInv (n : Node) : Prop where
  core : Core n.state (ofLex n.clock).1
  book : BookBefore n.state n.clock

theorem Event.isNext_block (h : e.isNext clock = true) :
    (ofLex clock).1 ≤ e.block := by
  cases e with
  | packet tx env =>
    have hle : clock ≤ position tx.block tx.txIdx := of_decide_eq_true h
    rcases Prod.Lex.le_iff.mp hle with hlt | ⟨heq, -⟩
    · exact hlt.le
    · exact heq.le
  | _ => exact of_decide_eq_true h

theorem Event.tick_block (h : e.isNext clock = true) :
    (ofLex (e.tick clock)).1 = e.block := by
  have hb := e.isNext_block h
  cases e with
  | packet tx env => rfl
  | _ =>
    simp only [Event.tick]
    split_ifs with hlt
    · rfl
    · omega

theorem Event.le_tick (h : e.isNext clock = true) :
    clock ≤ e.tick clock := by
  cases e with
  | packet tx env =>
    have hle : clock ≤ position tx.block tx.txIdx := of_decide_eq_true h
    refine hle.trans (Prod.Lex.le_iff.mpr (.inr ⟨rfl, ?_⟩))
    exact Nat.le_succ _
  | _ =>
    simp only [Event.tick]
    split_ifs with hlt
    · exact Prod.Lex.le_iff.mpr (.inl hlt)
    · exact le_rfl

theorem step_eq_some {n' : Node} :
    step n e = some n' ↔
      e.isNext n.clock = true ∧ handle n.state e = some n'.state ∧ n'.clock = e.tick n.clock := by
  unfold step
  split_ifs with h
  · obtain ⟨s', c'⟩ := n'
    simp only [Option.map_eq_some_iff, Node.mk.injEq, h, true_and]
    constructor
    · rintro ⟨s₁, h1, rfl, rfl⟩
      exact ⟨h1, rfl⟩
    · rintro ⟨h1, rfl⟩
      exact ⟨s', h1, rfl, rfl⟩
  · simp [h]

theorem step_inv {n' : Node} (hi : NodeInv n) (h : step n e = some n') : NodeInv n' := by
  obtain ⟨hnext, hh, hclock⟩ := step_eq_some.mp h
  have hc := hi.core.mono (e.isNext_block hnext)
  refine ⟨?_, fun p price x ho => ?_⟩
  · rw [hclock, e.tick_block hnext]
    exact handle_core hc hh
  · rw [hclock]
    rcases handle_places hc hh ho with hold | ⟨tx, env, rfl, rfl⟩
    · exact (hi.book p price x hold).trans_le (Event.le_tick hnext)
    · refine Prod.Lex.lt_iff.mpr (.inr ⟨rfl, ?_⟩)
      exact Nat.lt_succ_self _

/-! ### The first state -/

variable (cfg : Config)

theorem initial_getTokenBalance (a : Address) (p : PropertyId) (t : TallyType) :
    getTokenBalance (State.initial cfg) a p t = 0 := rfl

theorem initial_supply (p : PropertyId) : supply (State.initial cfg) p = 0 := rfl

theorem initial_solvent : Solvent (State.initial cfg) :=
  ⟨fun _ _ _ _ => le_rfl, fun _ _ _ => by simp [initial_getTokenBalance, i64Max], fun _ => le_rfl⟩

theorem initial_inv : NodeInv (Node.initial cfg) := by
  refine ⟨⟨initial_solvent cfg, fun p e he => ?_, fun k k' hk => ?_⟩, fun p price x hx => ?_⟩
  · cases he
  · cases hk
  · simp [Node.initial, State.initial, State.orderAt, State.level] at hx

theorem initial_dexInv : DexInv (State.initial cfg) := by
  refine ⟨fun a p => rfl, fun a p hp => ?_, fun k k' hk => ?_, fun k a hk => ?_⟩
  · simp [initial_getTokenBalance] at hp
  · cases hk
  · simp [State.initial] at hk

theorem initial_ledgerInv : LedgerInv (State.initial cfg) := by
  refine ⟨initial_solvent cfg, fun p => by simp [initial_supply, i64Max], fun p hp => ?_,
    fun p e he => ?_, fun a c hc => ?_, fun a b c d hc => ?_, ?_⟩
  · exact absurd (initial_supply cfg p) hp
  · simp [State.initial] at he
  · simp [State.initial] at hc
  · simp [State.initial] at hc
  · rw [initial_supply]
    exact ⟨le_rfl, by simp [State.initial, allReward]⟩

theorem run_inv {cfg : Config} {es : List Event}
    (h : run step (Node.initial cfg) es = some n) : NodeInv n :=
  run_invariant (fun _ _ _ hi hs => step_inv hi hs) (initial_inv cfg) h

end Rapids.Token
