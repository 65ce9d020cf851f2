import Rapids.Lib.Abort
import Rapids.Token.Frozen
import Rapids.Token.Registry

/-!
# Rapids.Token.PropertyUpdates

**Looking up and updating properties.** The handlers on one property test that
its identifier is valid, which compares it with the next one that is handed out.
They then assert that the property is found, and that its update is stored.

`Asserted` holds the handlers once more, with a name for the assertion that
stops them. Every valid identifier has an entry, in every run (`SpKnown`), also
after the two ranges of identifiers have met; so a property is always found.
An update is refused for the two implied properties only. They are not managed
and no crowdsale sells them, which every handler but one checks. They do have an
issuer, the Exodus address; and the one handler that asks for nothing else, the
change of the issuer, stops the node if it agrees.
-/

namespace Rapids.Token

open Rapids.Lib

variable {p : PropertyId}

/-! ### Handlers with named assertions -/

/-- What stops a handler. -/
inductive Abort
  /-- `assert(pDbSpInfo->getSP(…))` -/
  | getSP
  /-- `assert(pDbSpInfo->updateSP(…))` -/
  | updateSP
  /-- Any other assertion. -/
  | other
  deriving DecidableEq, Repr

/-- Is it an assertion about the property database? -/
def Abort.IsDatabase (why : Abort) : Prop := why ≠ .other

def Asserted.reject (s : State) (checks : List (Bool × Int)) (go : Except Abort (Int × State)) :
    Except Abort (Int × State) :=
  match checks.find? Prod.fst with
  | some check => .ok (check.2, s)
  | none => go

def Asserted.eraseMaxedCrowdsale (s : State) (address : Address) (blockTime : Int)
    (blockHash : Option Hash) : Except Abort State :=
  match s.crowds.find? address with
  | none => .ok s
  | some crowd => do
    let sp ← named .getSP (getSP s crowd.propertyId)
    let hash ← named .other blockHash
    let s ← named .updateSP (updateSP s crowd.propertyId { sp with
      historicalData := crowd.txFundraiserData
      closeEarly := true
      maxTokens := true
      timeclosed := blockTime
      updateBlock := hash })
    return { s with crowds := s.crowds.erase address }

def Asserted.closeIfMaxed (s : State) (tx : Investment) (close : Bool) : Except Abort State :=
  if close then Asserted.eraseMaxedCrowdsale s tx.receiver tx.blockTime tx.blockHash else .ok s

def Asserted.crowdsaleParticipation (s : State) (tx : Investment) : Except Abort (Int × State) :=
  match s.crowds.find? tx.receiver with
  | none => .ok (pktErrorCrowd - 1, s)
  | some crowd =>
    if crowd.propertyDesired ≠ tx.property then .ok (pktErrorCrowd - 2, s)
    else do
      let sp ← named .getSP (getSP s crowd.propertyId)
      let tokens ← named .other (fundraiserTokens s sp crowd tx)
      let s := { s with
        crowds := s.crowds.insert tx.receiver (crowd.participate tx tokens.1 tokens.2.1) }
      let s ← named .other (creditIfPositive s tx.sender crowd.propertyId tokens.1)
      let s ← named .other (creditIfPositive s tx.receiver crowd.propertyId tokens.2.1)
      let s ← named .other (notifyTotalTokensChanged s crowd.propertyId tx.block)
      let s ← Asserted.closeIfMaxed s tx tokens.2.2
      return (if tokens.1 = 0 ∧ tokens.2.1 = 0 then pktErrorCrowd - 3 else 0, s)

def Asserted.grantEffects (s : State) (tx : CMPTransaction) (env : TxEnv) : Except Abort State :=
  if isFeatureActivated s.params Feature.granteffects.id tx.block then .ok s
  else do
    let r ← Asserted.crowdsaleParticipation s (tx.investment env)
    return r.2

def Asserted.closeCrowdsale (s : State) (tx : CMPTransaction) (env : TxEnv) (crowd : CMPCrowd) :
    Except Abort State := do
  let sp ← named .getSP (getSP s tx.property)
  let missedTokens ← named .other (getMissedIssuerBonus s sp crowd)
  let s ← named .updateSP (updateSP s tx.property { sp with
    historicalData := crowd.txFundraiserData
    updateBlock := env.blockHash.getD 0
    closeEarly := true
    timeclosed := tx.blockTime
    txidClose := tx.txid
    missedTokens := missedTokens })
  let s ← named .other (creditIfPositive s sp.issuer tx.property missedTokens)
  return { s with crowds := s.crowds.erase tx.sender }

/-- Tx 53 -/
def Asserted.logicMathCloseCrowdsale (s : State) (tx : CMPTransaction) (env : TxEnv) :
    Except Abort (Int × State) :=
  Asserted.reject s
    [ (env.blockHash.isNone, pktErrorSp - 20),
      (notAllowed s tx tx.property .closeCrowdsale, pktErrorSp - 22),
      (!isPropertyIdValid s tx.property, pktErrorSp - 24) ]
    (match s.crowds.find? tx.sender with
    | none => .ok (pktErrorSp - 40, s)
    | some crowd =>
      Asserted.reject s [(decide (tx.property ≠ crowd.propertyId), pktErrorSp - 41)] do
        let s ← Asserted.closeCrowdsale s tx env crowd
        return (0, s))

/-- Tx 55 -/
def Asserted.logicMathGrantTokens (s : State) (tx : CMPTransaction) (env : TxEnv) :
    Except Abort (Int × State) :=
  Asserted.reject s
    [ (env.blockHash.isNone, pktErrorSp - 20),
      (notAllowed s tx tx.property .grantPropertyTokens, pktErrorTokens - 22),
      (isOutOfRange tx.nValue, pktErrorTokens - 23),
      (!isPropertyIdValid s tx.property, pktErrorTokens - 24) ]
    do
      let sp ← named .getSP (getSP s tx.property)
      Asserted.reject s
        [ (!sp.manual, pktErrorTokens - 42),
          (notIssuer tx sp, pktErrorTokens - 43),
          (decide (toU64 (maxInt8Bytes - getTotalTokens s tx.property) < tx.nValue),
            pktErrorTokens - 44) ]
        do
          let s ← named .updateSP (updateSP s tx.property (sp.record tx env [toI64 tx.nValue, 0]))
          let s ← named .other (assertTally s tx.receiver tx.property (toI64 tx.nValue) .balance)
          let s ← Asserted.grantEffects s tx env
          let s ← named .other (notifyTotalTokensChanged s tx.property tx.block)
          return (0, s)

/-- Tx 56 -/
def Asserted.logicMathRevokeTokens (s : State) (tx : CMPTransaction) (env : TxEnv) :
    Except Abort (Int × State) :=
  Asserted.reject s
    [ (env.blockHash.isNone, pktErrorTokens - 20),
      (notAllowed s tx tx.property .revokePropertyTokens, pktErrorTokens - 22),
      (isOutOfRange tx.nValue, pktErrorTokens - 23),
      (!isPropertyIdValid s tx.property, pktErrorTokens - 24) ]
    do
      let sp ← named .getSP (getSP s tx.property)
      Asserted.reject s
        [ (!sp.manual, pktErrorTokens - 42),
          (insufficient s tx tx.nValue, pktErrorTokens - 25) ]
        do
          let s ← named .other (assertTally s tx.sender tx.property (-toI64 tx.nValue) .balance)
          let s ← named .updateSP (updateSP s tx.property (sp.record tx env [0, toI64 tx.nValue]))
          let s ← named .other (notifyTotalTokensChanged s tx.property tx.block)
          return (0, s)

/-- Tx 70 -/
def Asserted.logicMathChangeIssuer (s : State) (tx : CMPTransaction) (env : TxEnv) :
    Except Abort (Int × State) :=
  Asserted.reject s (managedChecks s tx env .changeIssuerAddress) do
    let sp ← named .getSP (getSP s tx.property)
    Asserted.reject s
      [ (notIssuer tx sp, pktErrorTokens - 43),
        (s.crowds.contains tx.sender, pktErrorTokens - 39),
        (tx.receiver == "", pktErrorTokens - 45),
        (s.crowds.contains tx.receiver, pktErrorTokens - 46) ]
      do
        let s ← named .updateSP (updateSP s tx.property
          { sp.updateIssuer tx.block tx.txIdx tx.receiver with
            issuer := tx.receiver
            updateBlock := env.blockHash.getD 0 })
        return (0, s)

/-- The four handlers about freezing: they look the property up and do not update it. -/
def Asserted.freezing (s : State) (tx : CMPTransaction) (env : TxEnv) (txType : TxType)
    (checks : SPEntry → List (Bool × Int)) (go : Option (Int × State)) : Except Abort (Int × State) :=
  Asserted.reject s (managedChecks s tx env txType) do
    let sp ← named .getSP (getSP s tx.property)
    Asserted.reject s (checks sp) (named .other go)

/-- Tx 71 -/
def Asserted.logicMathEnableFreezing (s : State) (tx : CMPTransaction) (env : TxEnv) :
    Except Abort (Int × State) :=
  Asserted.freezing s tx env .enableFreezing
    (fun sp =>
      [ (!sp.manual, pktErrorTokens - 42),
        (notIssuer tx sp, pktErrorTokens - 43),
        (isFreezingEnabled s tx.property tx.block, pktErrorTokens - 49) ])
    (let liveBlock := if isFeatureActivated s.params Feature.freezenotice.id tx.block then
        s.params.tokenFreezeWaitPeriod + tx.block
      else tx.block
    some (0, enableFreezing s tx.property liveBlock))

/-- Tx 72 -/
def Asserted.logicMathDisableFreezing (s : State) (tx : CMPTransaction) (env : TxEnv) :
    Except Abort (Int × State) :=
  Asserted.freezing s tx env .disableFreezing
    (fun sp =>
      [ (!sp.manual, pktErrorTokens - 42),
        (notIssuer tx sp, pktErrorTokens - 43),
        (!isFreezingEnabled s tx.property tx.block, pktErrorTokens - 47) ])
    ((disableFreezing s tx.property).map fun s => (0, s))

/-- Tx 185 -/
def Asserted.logicMathFreezeTokens (s : State) (tx : CMPTransaction) (env : TxEnv) :
    Except Abort (Int × State) :=
  Asserted.freezing s tx env .freezePropertyTokens
    (fun sp =>
      [ (!sp.manual, pktErrorTokens - 42),
        (notIssuer tx sp, pktErrorTokens - 43),
        (!isFreezingEnabled s tx.property tx.block, pktErrorTokens - 47),
        (isAddressFrozen s tx.receiver tx.property, pktErrorTokens - 50) ])
    (some (0, freezeAddress s tx.receiver tx.property))

/-- Tx 186 -/
def Asserted.logicMathUnfreezeTokens (s : State) (tx : CMPTransaction) (env : TxEnv) :
    Except Abort (Int × State) :=
  Asserted.freezing s tx env .unfreezePropertyTokens
    (fun sp =>
      [ (!sp.manual, pktErrorTokens - 42),
        (notIssuer tx sp, pktErrorTokens - 43),
        (!isFreezingEnabled s tx.property tx.block, pktErrorTokens - 47),
        (!isAddressFrozen s tx.receiver tx.property, pktErrorTokens - 48) ])
    (some (0, unfreezeAddress s tx.receiver tx.property))

/-- The transaction types about one existing property. -/
def TxType.isAboutProperty : TxType → Bool
  | .closeCrowdsale | .grantPropertyTokens | .revokePropertyTokens | .changeIssuerAddress => true
  | .enableFreezing | .disableFreezing | .freezePropertyTokens | .unfreezePropertyTokens => true
  | _ => false

/-- The handler of a transaction type. -/
def Asserted.logicMath (s : State) (tx : CMPTransaction) (env : TxEnv) (txType : TxType) :
    Except Abort (Int × State) :=
  match txType with
  | .closeCrowdsale => Asserted.logicMathCloseCrowdsale s tx env
  | .grantPropertyTokens => Asserted.logicMathGrantTokens s tx env
  | .revokePropertyTokens => Asserted.logicMathRevokeTokens s tx env
  | .changeIssuerAddress => Asserted.logicMathChangeIssuer s tx env
  | .enableFreezing => Asserted.logicMathEnableFreezing s tx env
  | .disableFreezing => Asserted.logicMathDisableFreezing s tx env
  | .freezePropertyTokens => Asserted.logicMathFreezeTokens s tx env
  | .unfreezePropertyTokens => Asserted.logicMathUnfreezeTokens s tx env
  | _ => named .other (Token.logicMath s tx env txType)

/-! ### They are the handlers -/

section Same

variable (s : State) (tx : CMPTransaction) (env : TxEnv)

theorem toOption_reject (checks : List (Bool × Int)) (go : Except Abort (Int × State)) :
    (Asserted.reject s checks go).toOption = reject s checks go.toOption := by
  unfold Asserted.reject reject
  cases checks.find? Prod.fst with
  | none => rfl
  | some check => rfl

theorem toOption_eraseMaxedCrowdsale (address : Address) (blockTime : Int) (blockHash : Option Hash) :
    (Asserted.eraseMaxedCrowdsale s address blockTime blockHash).toOption =
      eraseMaxedCrowdsale s address blockTime blockHash := by
  unfold Asserted.eraseMaxedCrowdsale eraseMaxedCrowdsale
  cases s.crowds.find? address with
  | none => rfl
  | some crowd =>
    simp only [toOption_bind, toOption_named, toOption_pure]
    rfl

theorem toOption_crowdsaleParticipation (inv : Investment) :
    (Asserted.crowdsaleParticipation s inv).toOption = crowdsaleParticipation s inv := by
  unfold Asserted.crowdsaleParticipation crowdsaleParticipation
  cases s.crowds.find? inv.receiver with
  | none => rfl
  | some crowd =>
    simp only [Asserted.closeIfMaxed, toOption_ite, toOption_bind, toOption_named, toOption_pure,
      toOption_ok, toOption_eraseMaxedCrowdsale]
    rfl

theorem toOption_closeCrowdsale (crowd : CMPCrowd) :
    (Asserted.closeCrowdsale s tx env crowd).toOption = closeCrowdsale s tx env crowd := by
  simp only [Asserted.closeCrowdsale, toOption_bind, toOption_named, toOption_pure]
  rfl

theorem toOption_grantEffects :
    (Asserted.grantEffects s tx env).toOption = grantEffects s tx env := by
  simp only [Asserted.grantEffects, toOption_ite, toOption_bind, toOption_ok, toOption_pure,
    toOption_crowdsaleParticipation, grantEffects, Option.map_eq_bind]
  rfl

theorem toOption_freezing (txType : TxType) (checks : SPEntry → List (Bool × Int))
    (go : Option (Int × State)) :
    (Asserted.freezing s tx env txType checks go).toOption =
      reject s (managedChecks s tx env txType)
        ((getSP s tx.property).bind fun sp => reject s (checks sp) go) := by
  simp only [Asserted.freezing, toOption_reject, toOption_bind, toOption_named]
  rfl

theorem toOption_logicMath (txType : TxType) :
    (Asserted.logicMath s tx env txType).toOption = logicMath s tx env txType := by
  cases txType
  case closeCrowdsale =>
    rw [Asserted.logicMath, logicMath, Asserted.logicMathCloseCrowdsale, logicMathCloseCrowdsale,
      toOption_reject]
    cases s.crowds.find? tx.sender with
    | none => rfl
    | some crowd =>
      simp only [toOption_reject, toOption_bind, toOption_pure, toOption_closeCrowdsale]
      rfl
  case grantPropertyTokens =>
    simp only [Asserted.logicMath, Asserted.logicMathGrantTokens, toOption_reject, toOption_bind,
      toOption_named, toOption_pure, toOption_grantEffects]
    rfl
  case revokePropertyTokens =>
    simp only [Asserted.logicMath, Asserted.logicMathRevokeTokens, toOption_reject, toOption_bind,
      toOption_named, toOption_pure]
    rfl
  case changeIssuerAddress =>
    simp only [Asserted.logicMath, Asserted.logicMathChangeIssuer, toOption_reject, toOption_bind,
      toOption_named, toOption_pure]
    rfl
  case enableFreezing => exact toOption_freezing s tx env _ _ _
  case disableFreezing => exact toOption_freezing s tx env _ _ _
  case freezePropertyTokens => exact toOption_freezing s tx env _ _ _
  case unfreezePropertyTokens => exact toOption_freezing s tx env _ _ _
  case offerAcceptABet => rfl
  -- the other types have no names
  all_goals exact toOption_named Abort.other (logicMath s tx env _)

end Same

/-! ### Every valid property is known -/

/-- The identifiers in use are those handed out, and the crowdsales sell such properties. -/
structure SpKnown (s : State) : Prop where
  next : CounterOk 3 s.sp.nextSpid
  nextTest : CounterOk testEcoProperty1 s.sp.nextTestSpid
  ids : ∀ p, (s.sp.entries.find? p).isSome ↔
    (3 ≤ p ∧ p ≤ lastSpid s.sp.nextSpid) ∨ (testEcoProperty1 ≤ p ∧ p ≤ lastSpid s.sp.nextTestSpid)
  crowds : ∀ a c, s.crowds.find? a = some c → 3 ≤ c.propertyId ∧ (s.sp.entries.find? c.propertyId).isSome

section Known

variable {s s' : State}

theorem implied_iff (h0 : p ≠ 0) : p = propertyMSC ∨ p = propertyTMSC ↔ ¬ 3 ≤ p := by
  have hiff : ∀ k : Nat, k ≠ 0 → (k = 1 ∨ k = 2 ↔ ¬ 3 ≤ k) := by
    intro k hk
    omega
  exact hiff p h0

theorem getSP_of_ge (h : 3 ≤ p) : getSP s p = s.sp.entries.find? p := by
  have h0 : p ≠ 0 := Nat.ne_of_gt (lt_of_lt_of_le (by decide) h)
  rw [getSP, if_neg fun hp => (implied_iff h0).mp hp h]

theorem le_lastSpid {p next : Nat} (h : p < next) (hlt : next < 4294967296) : p ≤ lastSpid next := by
  unfold lastSpid
  omega

theorem CounterOk.lt {first next : Nat} (h : CounterOk first next) : next < 4294967296 := by
  unfold CounterOk at h
  omega

theorem SpKnown.getSP_isSome (h : SpKnown s) (hp : isPropertyIdValid s p = true) :
    (getSP s p).isSome = true := by
  unfold isPropertyIdValid at hp
  split_ifs at hp with h0 hmain
  · rw [decide_eq_true_eq] at hp
    by_cases h3 : 3 ≤ p
    · rw [getSP_of_ge h3]
      exact (h.ids p).mpr (.inl ⟨h3, le_lastSpid hp h.next.lt⟩)
    · rw [getSP, if_pos ((implied_iff h0).mpr h3)]
      rfl
  · rw [decide_eq_true_eq] at hp
    have hge : testEcoProperty1 ≤ p := not_lt.mp hmain
    rw [getSP_of_ge (le_trans (by decide) hge)]
    exact (h.ids p).mpr (.inr ⟨hge, le_lastSpid hp h.nextTest.lt⟩)

theorem SpKnown.of_spStep {f : Address → Int} (h : SpKnown s) (hstep : SpStep s s' f) : SpKnown s' := by
  have hsame : ∀ p, (s'.sp.entries.find? p).isSome = (s.sp.entries.find? p).isSome := by
    intro p
    rw [← Option.isSome_map, hstep.entries p, Option.isSome_map]
  refine ⟨?_, ?_, fun p => ?_, fun a c hc => ?_⟩
  · rw [hstep.nextSpid]
    exact h.next
  · rw [hstep.nextTestSpid]
    exact h.nextTest
  · rw [hsame, hstep.nextSpid, hstep.nextTestSpid]
    exact h.ids p
  · obtain ⟨c₀, hc0, hp, -⟩ := hstep.crowds a c hc
    rw [hp, hsame]
    exact h.crowds a c₀ hc0

/-- An identifier that is handed out may have an entry already, which is replaced. -/
theorem SpKnown.of_registers {tx : CMPTransaction} (h : SpKnown s) (hreg : SpRegisters s s' tx) :
    SpKnown s' := by
  obtain ⟨info, -, -, hsp⟩ := hreg.sp
  have hentries : ∀ p, (s'.sp.entries.find? p).isSome ↔
      p = peekNextSPID s tx.ecosystem ∨ (s.sp.entries.find? p).isSome := by
    intro p
    rw [hsp, putSP_entries, OrdMap.find?_insert]
    by_cases hp : p = peekNextSPID s tx.ecosystem
    · simp [hp]
    · simp [hp]
  have hge : 3 ≤ peekNextSPID s tx.ecosystem := by
    have hnew := hreg.newId
    rcases hreg.ecosystem with heco | heco
    · rw [heco] at hnew ⊢
      rcases h.next with h0 | hrange
      · exact absurd h0 hnew
      · exact hrange.1
    · rw [heco] at hnew ⊢
      rcases h.nextTest with h0 | hrange
      · exact absurd h0 hnew
      · exact le_trans (by decide) hrange.1
  obtain ⟨hnext, hnextTest, hids⟩ := ids_putSP info h.next h.nextTest hreg.ecosystem hreg.newId
  rw [← hsp] at hnext hnextTest hids
  refine ⟨hnext, hnextTest, fun p => ?_, fun a c hc => ?_⟩
  · rw [hentries, h.ids]
    exact hids p
  · rcases hreg.crowds a c hc with hold | hopened
    · obtain ⟨hge, hsome⟩ := h.crowds a c hold
      exact ⟨hge, (hentries _).mpr (.inr hsome)⟩
    · rw [hopened.2.1]
      exact ⟨hge, (hentries _).mpr (.inl rfl)⟩

theorem spKnown_initial (cfg : Config) : SpKnown (State.initial cfg) := by
  have hi := registryInv_initial cfg
  refine ⟨hi.next, hi.nextTest, fun p => ?_, fun a c hc => ?_⟩
  · rw [← hi.ids, Option.isSome_map]
  · cases hc

theorem run_spKnown {cfg : Config} {es : List Event} {n : Node}
    (hrun : run step (Node.initial cfg) es = some n) : SpKnown n.state := by
  refine run_invariant (I := fun n : Node => SpKnown n.state) ?_ (spKnown_initial cfg) hrun
  intro n e n' hn hstep
  obtain ⟨-, hhandle, -⟩ := step_eq_some.mp hstep
  rcases handle_spStep hhandle with hquiet | hcreates
  · obtain ⟨f, hquiet⟩ := hquiet
    exact hn.of_spStep hquiet
  · obtain ⟨tx, env, -, -, hreg⟩ := hcreates
    exact hn.of_registers hreg

end Known

/-! ### The handlers do not fail at the database -/

section Handlers

variable {s : State} {tx : CMPTransaction} {env : TxEnv}

theorem other_not_database : ¬ Abort.IsDatabase .other := fun h => h rfl

theorem updateSP_isDatabase : Abort.IsDatabase .updateSP := by
  intro h
  cases h

theorem avoids_reject {bad : Abort → Prop} {checks : List (Bool × Int)} {go : Except Abort (Int × State)}
    (hgo : (∀ c ∈ checks, c.1 = false) → Avoids bad go) : Avoids bad (Asserted.reject s checks go) := by
  unfold Asserted.reject
  cases hfind : checks.find? Prod.fst with
  | some check => exact avoids_ok _
  | none =>
    refine hgo fun c hc => ?_
    simpa using List.find?_eq_none.mp hfind c hc

theorem updateSP_avoids {bad : Abort → Prop} {info : SPEntry}
    (hp : p ≠ propertyMSC ∧ p ≠ propertyTMSC) : Avoids bad (named Abort.updateSP (updateSP s p info)) :=
  avoids_some (Option.isSome_iff_exists.mpr (updateSP_isSome hp.1 hp.2))

theorem not_implied_of_manual {sp : SPEntry} (h : getSP s p = some sp)
    (hm : sp.manual = true) : p ≠ propertyMSC ∧ p ≠ propertyTMSC := by
  rw [← not_or]
  intro hp
  rw [getSP, if_pos hp, Option.some.injEq] at h
  rw [← h] at hm
  cases hm

theorem not_implied_of_ge (h : 3 ≤ p) : p ≠ propertyMSC ∧ p ≠ propertyTMSC := by
  rw [← not_or]
  exact fun hp => (implied_iff (Nat.ne_of_gt (lt_of_lt_of_le (by decide) h))).mp hp h

section
variable (h : SpKnown s)
include h

theorem SpKnown.crowd {a : Address} {c : CMPCrowd} (hc : s.crowds.find? a = some c) :
    (getSP s c.propertyId).isSome = true ∧ c.propertyId ≠ propertyMSC ∧ c.propertyId ≠ propertyTMSC := by
  obtain ⟨hge, hsome⟩ := h.crowds a c hc
  rw [getSP_of_ge hge]
  exact ⟨hsome, not_implied_of_ge hge⟩

theorem eraseMaxedCrowdsale_avoids (address : Address) (blockTime : Int)
    (blockHash : Option Hash) :
    Avoids Abort.IsDatabase (Asserted.eraseMaxedCrowdsale s address blockTime blockHash) := by
  unfold Asserted.eraseMaxedCrowdsale
  cases hc : s.crowds.find? address with
  | none => exact avoids_ok _
  | some crowd =>
    obtain ⟨hfound, himplied⟩ := h.crowd hc
    refine avoids_bind (avoids_some hfound) fun sp _ => ?_
    refine avoids_bind (avoids_named other_not_database _) fun hash _ => ?_
    exact avoids_bind (updateSP_avoids himplied) fun s' _ => avoids_ok _

theorem SpKnown.participate {a : Address} {crowd : CMPCrowd} (hc : s.crowds.find? a = some crowd)
    (inv : Investment) (user issuer : Int) :
    SpKnown { s with crowds := s.crowds.insert a (crowd.participate inv user issuer) } := by
  refine ⟨h.next, h.nextTest, h.ids, fun b c hb => ?_⟩
  rw [OrdMap.find?_insert] at hb
  split_ifs at hb
  · rw [← Option.some.inj hb]
    exact h.crowds a crowd hc
  · exact h.crowds b c hb

theorem crowdsaleParticipation_avoids (inv : Investment) :
    Avoids Abort.IsDatabase (Asserted.crowdsaleParticipation s inv) := by
  unfold Asserted.crowdsaleParticipation
  cases hc : s.crowds.find? inv.receiver with
  | none => exact avoids_ok _
  | some crowd =>
    refine avoids_ite (fun _ => avoids_ok _) fun _ => ?_
    refine avoids_bind (avoids_some (h.crowd hc).1) fun sp _ => ?_
    refine avoids_bind (avoids_named other_not_database _) fun tokens _ => ?_
    have h1 := h.participate hc inv tokens.1 tokens.2.1
    refine avoids_bind (avoids_named other_not_database _) fun s₂ h2 => ?_
    refine avoids_bind (avoids_named other_not_database _) fun s₃ h3 => ?_
    refine avoids_bind (avoids_named other_not_database _) fun s₄ h4 => ?_
    -- the credits and the fees leave the database as it is
    have k₂ := h1.of_spStep (creditIfPositive_spQuiet _ _ _ _ _ (named_eq_ok h2))
    have k₃ := k₂.of_spStep (creditIfPositive_spQuiet _ _ _ _ _ (named_eq_ok h3))
    have k₄ := k₃.of_spStep (notifyTotalTokensChanged_spQuiet _ _ _ _ (named_eq_ok h4))
    refine avoids_bind ?_ fun s₅ _ => avoids_ok _
    exact avoids_ite (fun _ => eraseMaxedCrowdsale_avoids k₄ _ _ _) fun _ => avoids_ok _

theorem grantEffects_avoids : Avoids Abort.IsDatabase (Asserted.grantEffects s tx env) :=
  avoids_ite (fun _ => avoids_ok _) fun _ =>
    avoids_bind (crowdsaleParticipation_avoids h _) fun _ _ => avoids_ok _

theorem SpKnown.found_of_checks {checks : List (Bool × Int)}
    (hok : ∀ c ∈ checks, c.1 = false) (rc : Int) (hmem : (!isPropertyIdValid s tx.property, rc) ∈ checks) :
    (getSP s tx.property).isSome = true :=
  h.getSP_isSome (by simpa using hok _ hmem)

theorem logicMathCloseCrowdsale_avoids :
    Avoids Abort.IsDatabase (Asserted.logicMathCloseCrowdsale s tx env) := by
  refine avoids_reject fun _ => ?_
  cases hc : s.crowds.find? tx.sender with
  | none => exact avoids_ok _
  | some crowd =>
    refine avoids_reject fun hok => ?_
    have hp : tx.property = crowd.propertyId := by simpa using hok _ (.head _)
    obtain ⟨hfound, himplied⟩ := h.crowd hc
    rw [← hp] at hfound himplied
    refine avoids_bind ?_ fun s' _ => avoids_ok _
    refine avoids_bind (avoids_some hfound) fun sp _ => ?_
    refine avoids_bind (avoids_named other_not_database _) fun missed _ => ?_
    refine avoids_bind (updateSP_avoids himplied) fun s₁ _ => ?_
    exact avoids_bind (avoids_named other_not_database _) fun s₂ _ => avoids_ok _

theorem logicMathGrantTokens_avoids :
    Avoids Abort.IsDatabase (Asserted.logicMathGrantTokens s tx env) := by
  refine avoids_reject fun hok => ?_
  refine avoids_bind (avoids_some (h.found_of_checks hok (pktErrorTokens - 24) (by simp))) fun sp hsp => ?_
  refine avoids_reject fun hok' => ?_
  have hmanual : sp.manual = true := by simpa using hok' _ (.head _)
  have himplied := not_implied_of_manual (named_eq_ok hsp) hmanual
  refine avoids_bind (updateSP_avoids himplied) fun s₁ h1 => ?_
  refine avoids_bind (avoids_named other_not_database _) fun s₂ h2 => ?_
  have k₁ := h.of_spStep (updateSP_spQuiet (named_eq_ok h1) (named_eq_ok hsp) rfl rfl (.inl rfl))
  have k₂ := k₁.of_spStep (assertTally_spQuiet _ _ _ _ _ _ (named_eq_ok h2))
  refine avoids_bind (grantEffects_avoids k₂) fun s₃ _ => ?_
  exact avoids_bind (avoids_named other_not_database _) fun s₄ _ => avoids_ok _

theorem logicMathRevokeTokens_avoids :
    Avoids Abort.IsDatabase (Asserted.logicMathRevokeTokens s tx env) := by
  refine avoids_reject fun hok => ?_
  refine avoids_bind (avoids_some (h.found_of_checks hok (pktErrorTokens - 24) (by simp))) fun sp hsp => ?_
  refine avoids_reject fun hok' => ?_
  have hmanual : sp.manual = true := by simpa using hok' _ (.head _)
  have himplied := not_implied_of_manual (named_eq_ok hsp) hmanual
  refine avoids_bind (avoids_named other_not_database _) fun s₁ _ => ?_
  refine avoids_bind (updateSP_avoids himplied) fun s₂ _ => ?_
  exact avoids_bind (avoids_named other_not_database _) fun s₃ _ => avoids_ok _

theorem freezing_avoids {txType : TxType} {checks : SPEntry → List (Bool × Int)}
    {go : Option (Int × State)} :
    Avoids Abort.IsDatabase (Asserted.freezing s tx env txType checks go) := by
  refine avoids_reject fun hok => ?_
  refine avoids_bind (avoids_some (h.found_of_checks hok (pktErrorTokens - 24) (by simp [managedChecks]))) fun sp _ => ?_
  exact avoids_reject fun _ => avoids_named other_not_database _

end

/-! ### Changing the issuer -/

/-- The Exodus address hands over one of the two implied properties, and passes every check. -/
def handsOverImplied (s : State) (tx : CMPTransaction) (env : TxEnv) : Bool :=
  decide (tx.property = propertyMSC ∨ tx.property = propertyTMSC) &&
    ((managedChecks s tx env .changeIssuerAddress).find? Prod.fst).isNone &&
    decide (tx.sender = s.cfg.exodusAddress) && !s.crowds.contains tx.sender &&
    !(tx.receiver == "") && !s.crowds.contains tx.receiver

theorem getIssuer_implied (exodus : Address) (block : Nat) : (impliedToken exodus).getIssuer block = exodus :=
  getIssuer_of_sole block rfl

theorem logicMathChangeIssuer_aborts (himplied : handsOverImplied s tx env = true) :
    Asserted.logicMathChangeIssuer s tx env = .error .updateSP := by
  simp only [handsOverImplied, Bool.and_eq_true, decide_eq_true_eq, Bool.not_eq_true',
    Option.isNone_iff_eq_none] at himplied
  obtain ⟨⟨⟨⟨⟨hp, hchecks⟩, hsender⟩, hcrowd⟩, hempty⟩, hcrowd'⟩ := himplied
  have hissuer : notIssuer tx (impliedToken s.cfg.exodusAddress) = false := by
    rw [notIssuer, getIssuer_implied, hsender]
    simp
  rw [Asserted.logicMathChangeIssuer, Asserted.reject, hchecks, getSP, if_pos hp]
  show Asserted.reject s _ _ = _
  rw [Asserted.reject]
  simp only [List.find?_cons, hissuer, hcrowd, hempty, hcrowd', List.find?_nil, updateSP, if_pos hp]
  rfl

theorem logicMathChangeIssuer_avoids (h : SpKnown s) (himplied : handsOverImplied s tx env = false) :
    Avoids Abort.IsDatabase (Asserted.logicMathChangeIssuer s tx env) := by
  refine avoids_reject fun hok => ?_
  refine avoids_bind (avoids_some (h.found_of_checks hok (pktErrorTokens - 24) (by simp [managedChecks]))) fun sp hsp => ?_
  refine avoids_reject fun hok' => ?_
  have hnot : tx.property ≠ propertyMSC ∧ tx.property ≠ propertyTMSC := by
    rw [← not_or]
    intro hp
    have hsp' := named_eq_ok hsp
    rw [getSP, if_pos hp, Option.some.injEq] at hsp'
    have hnone : (managedChecks s tx env .changeIssuerAddress).find? Prod.fst = none :=
      List.find?_eq_none.mpr fun c hc => by simp [hok c hc]
    simp only [List.forall_mem_cons, ← hsp', notIssuer, getIssuer_implied, bne_eq_false_iff_eq] at hok'
    obtain ⟨hsender, hcrowd, hempty, hcrowd', -⟩ := hok'
    rw [handsOverImplied, hnone] at himplied
    simp [hp, hsender, hempty, hcrowd'] at himplied
    rw [hsender] at hcrowd
    rw [hcrowd] at himplied
    cases himplied
  exact avoids_bind (updateSP_avoids hnot) fun s' _ => avoids_ok _

/-- **Looking up and updating a property cannot stop the node, in any run and for any of these
transactions, unless the Exodus address hands over an implied property. Then it does.** -/
theorem property_updates_iff {cfg : Config} {es : List Event} {n : Node} {txType : TxType}
    (hrun : run step (Node.initial cfg) es = some n) (htype : txType.isAboutProperty = true) :
    Avoids Abort.IsDatabase (Asserted.logicMath n.state tx env txType) ↔
      ¬ (txType = .changeIssuerAddress ∧ handsOverImplied n.state tx env = true) := by
  have h := run_spKnown hrun
  by_cases hchange : txType = .changeIssuerAddress
  · subst hchange
    constructor
    · intro havoids hc
      exact havoids .updateSP (logicMathChangeIssuer_aborts hc.2) updateSP_isDatabase
    · intro hnot
      exact logicMathChangeIssuer_avoids h (by simpa using hnot)
  · refine iff_of_true ?_ fun hc => hchange hc.1
    cases txType
    case closeCrowdsale => exact logicMathCloseCrowdsale_avoids h
    case grantPropertyTokens => exact logicMathGrantTokens_avoids h
    case revokePropertyTokens => exact logicMathRevokeTokens_avoids h
    case changeIssuerAddress => exact absurd rfl hchange
    case enableFreezing => exact freezing_avoids h
    case disableFreezing => exact freezing_avoids h
    case freezePropertyTokens => exact freezing_avoids h
    case unfreezePropertyTokens => exact freezing_avoids h
    all_goals cases htype

/-- After the first grant of the managed property 3, the issuer grants more tokens. -/
theorem property_updates_iff_grant :
    ∃ n, run step (Node.initial regtestCfg) (frozenRun.take 3) = some n ∧
      isPropertyIdValid n.state 3 = true ∧
      (logicMath n.state (frozenTx 55 3 "issuer" "bob" 100) issuanceEnv .grantPropertyTokens).isSome = true ∧
      Avoids Abort.IsDatabase
        (Asserted.logicMath n.state (frozenTx 55 3 "issuer" "bob" 100) issuanceEnv .grantPropertyTokens) := by
  have hrun : ((run step (Node.initial regtestCfg) (frozenRun.take 3)).map fun n =>
      decide (isPropertyIdValid n.state 3 = true ∧
        (logicMath n.state (frozenTx 55 3 "issuer" "bob" 100) issuanceEnv
          .grantPropertyTokens).isSome = true)) = some true := by
    decide +kernel
  obtain ⟨n, hn, hvals⟩ := Option.map_eq_some_iff.mp hrun
  obtain ⟨hvalid, hsome⟩ := of_decide_eq_true hvals
  exact ⟨n, hn, hvalid, hsome, (property_updates_iff hn rfl).mpr fun h => by cases h.1⟩

/-- The Exodus address hands property 1 over to `bob`. -/
def handOverTx : CMPTransaction := { frozenTx 70 1 "exodus" "bob" 0 with property := 1 }

theorem property_updates_abort :
    ¬ ∀ (cfg : Config) (es : List Event) (n : Node) (tx : CMPTransaction) (env : TxEnv) (txType : TxType),
      run step (Node.initial cfg) es = some n → txType.isAboutProperty = true →
      TxType.ofId tx.type = some txType → isPropertyIdValid n.state tx.property = true →
      Avoids Abort.IsDatabase (Asserted.logicMath n.state tx env txType) := by
  intro hall
  have hrun : ((run step (Node.initial regtestCfg) [.blockBegin 1 1500000000 1]).map fun n =>
      decide (isPropertyIdValid n.state 1 = true ∧
        handsOverImplied n.state handOverTx issuanceEnv = true)) = some true := by
    decide +kernel
  obtain ⟨n, hn, hvals⟩ := Option.map_eq_some_iff.mp hrun
  obtain ⟨hvalid, himplied⟩ := of_decide_eq_true hvals
  refine hall _ _ n handOverTx issuanceEnv .changeIssuerAddress hn rfl rfl hvalid .updateSP ?_
    updateSP_isDatabase
  exact logicMathChangeIssuer_aborts himplied

end Handlers

end Rapids.Token
