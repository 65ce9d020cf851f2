import Rapids.Token.Frozen
import Rapids.Token.SpSteps

/-!
# Rapids.Token.Issuing

**Only issuing makes tokens.** In every run the supply of a property grows only if a packet creates
the property, if its issuer grants tokens of it, while a crowdsale sells it, or if it is the one
property that vests (`supply_grows_only`). What a packet registers is kept by everything that
follows it (`property_kept`).

Both follow the amounts that `eventMint` says each event mints: whatever mints a positive amount has
passed the checks of its handler.
-/

namespace Rapids.Token

open Rapids.Lib OrdMap

/-- The ways in which an event makes tokens of a property. -/
inductive Issues (s : State) (p : PropertyId) : Event → Prop
  | creates {tx env} : createsProperty tx = true → p = peekNextSPID s tx.ecosystem → Issues s p (.packet tx env)
  | grants {tx env sp} : TxType.ofId tx.type = some .grantPropertyTokens → p = tx.property →
      getSP s p = some sp → sp.manual = true → sp.getIssuer tx.block = tx.sender → Issues s p (.packet tx env)
  | sells {e a crowd} : s.crowds.find? a = some crowd → crowd.propertyId = p → Issues s p e
  | vests {height time} : p = propertyMSC → Issues s p (.blockEnd height time)

section

variable {s s' : State} {tx : CMPTransaction} {env : TxEnv} {rc : Int} {p : PropertyId} {e : Event}

theorem crowd_of_participation {inv : Investment} (h : 0 < participationMint s inv p) :
    ∃ crowd, s.crowds.find? inv.receiver = some crowd ∧ crowd.propertyId = p := by
  unfold participationMint at h
  cases hc : s.crowds.find? inv.receiver with
  | none => simp [hc] at h
  | some crowd =>
    rw [hc] at h
    dsimp only at h
    split_ifs at h with hp
    · exact ⟨crowd, rfl, hp.2.symm⟩
    · exact absurd h (lt_irrefl 0)

/-- A grant has passed the check of its issuer. -/
theorem logicMathGrantTokens_issuer (h : logicMathGrantTokens s tx env = some (rc, s')) (hrc : ¬ rc < 0) :
    ∃ sp, getSP s tx.property = some sp ∧ sp.manual = true ∧ sp.getIssuer tx.block = tx.sender := by
  rcases reject_cases (by simp [allErrors, pktErrorSp, pktErrorTokens]) h with hr | ⟨-, h⟩
  · exact absurd hr.1 hrc
  obtain ⟨sp, hsp, h⟩ := Option.bind_eq_some_iff.mp h
  rcases reject_cases (by simp [allErrors, pktErrorTokens]) h with hr | ⟨hok, -⟩
  · exact absurd hr.1 hrc
  simp only [List.forall_mem_cons, notIssuer] at hok
  exact ⟨sp, hsp, by simpa using hok.1, by simpa [eq_comm (a := tx.sender)] using hok.2.1⟩

theorem exists_pos_of_sumEntries {κ ν : Type} {f : κ → ν → Int} {l : List (κ × ν)} (h : 0 < sumEntries f l) :
    ∃ x ∈ l, 0 < f x.1 x.2 := by
  induction l with
  | nil => exact absurd h (lt_irrefl 0)
  | cons x rest ih =>
    rw [sumEntries_cons] at h
    by_cases hx : 0 < f x.1 x.2
    · exact ⟨x, .head _, hx⟩
    · obtain ⟨y, hy, hpos⟩ := ih (by omega)
      exact ⟨y, .tail _ hy, hpos⟩

/-- What a packet mints, one of the ways allows. -/
theorem issues_of_packetMint (hf : FeesUpTo s tx.block) (h : interpretPacket s tx env = some (rc, s')) (hrc : ¬ rc < 0)
    (hmint : 0 < packetMint s tx env p) : Issues s p (.packet tx env) := by
  obtain ⟨-, h⟩ := (reject_cases (by simp [allErrors, pktError]) h).resolve_left fun hr => hrc hr.1
  unfold packetMint at hmint
  cases ht : TxType.ofId tx.type with
  | none => simp [ht] at hmint
  | some txType =>
    rw [ht] at h hmint
    cases txType with
    | simpleSend =>
      obtain ⟨crowd, hc, hp⟩ := crowd_of_participation hmint
      exact .sells hc hp
    | createPropertyFixed =>
      dsimp only at hmint
      split_ifs at hmint with hp
      · exact .creates (by simp [createsProperty, ht]) hp
      · exact absurd hmint (lt_irrefl 0)
    | closeCrowdsale =>
      simp only [closeMint] at hmint
      cases hc : s.crowds.find? tx.sender with
      | none => simp [hc] at hmint
      | some crowd =>
        rw [hc] at hmint
        dsimp only at hmint
        split_ifs at hmint with hp
        · exact .sells hc hp.symm
        · exact absurd hmint (lt_irrefl 0)
    | grantPropertyTokens =>
      by_cases hp : p = tx.property
      · obtain ⟨sp, hsp, hmanual, hissuer⟩ := logicMathGrantTokens_issuer h hrc
        exact .grants ht hp (hp ▸ hsp) hmanual hissuer
      · simp only [grantMint, if_neg hp, zero_add, grantEffectsMint] at hmint
        split_ifs at hmint
        · exact absurd hmint (lt_irrefl 0)
        cases hg : granted s tx env with
        | none => simp [hg] at hmint
        | some s₂ =>
          rw [hg, Option.map_some, Option.getD_some] at hmint
          simp only [granted, do_eq_some] at hg
          obtain ⟨sp, -, s₁, h1, h2⟩ := hg
          have hcrowds : s₂.crowds = s.crowds := by
            rw [(assertTally_spec h2).frame, (updateSP_spec h1).2.2.2.2.2]
          obtain ⟨crowd, hc, hp⟩ := crowd_of_participation hmint
          exact .sells (hcrowds ▸ hc) hp
    | revokePropertyTokens =>
      obtain ⟨hsettled, hpos⟩ := logicMathRevokeTokens_settled hf h
      have hnonneg := (hpos (hsettled.resolve_left fun hr => hrc hr.1).1).2.2
      dsimp only at hmint
      split_ifs at hmint <;> omega
    | rapidsPayment =>
      simp only [rapidsMint] at hmint
      cases hi : rapidsInvestment tx env with
      | none => simp [hi] at hmint
      | some inv =>
        rw [hi] at hmint
        obtain ⟨crowd, hc, hp⟩ := crowd_of_participation hmint
        exact .sells hc hp
    | _ => exact absurd hmint (lt_irrefl 0)

end

/-- **Only issuing makes tokens.** In every run whose new properties get free identifiers, an event
that adds to the supply of a property is one of the ways to issue it. -/
theorem supply_grows_only {cfg : Config} {es : List Event} {n n' : Node} {e : Event}
    (hrun : run freshStep (Node.initial cfg) es = some n) (hstep : freshStep n e = some n') {p : PropertyId}
    (hgrows : supply n.state p < supply n'.state p) : Issues n.state p e := by
  obtain ⟨hi, hl⟩ := run_ledgerInv hrun
  have hmint := (freshStep_ledger hi hl hstep).1 p
  have hpos : 0 < eventMint n.state e p := by omega
  obtain ⟨hnext, -, -⟩ := step_eq_some.mp (guarded_eq_some.mp hstep).2
  cases e with
  | blockBegin height time hash =>
    obtain ⟨x, hx, hone⟩ := exists_pos_of_sumEntries hpos
    simp only [expiredOneMint] at hone
    split_ifs at hone with hp
    · exact .sells (mem_entries_iff.mp hx) hp.2.symm
    · exact absurd hone (lt_irrefl 0)
  | payment block sender outputs => exact absurd hpos (lt_irrefl 0)
  | packet tx env =>
    simp only [eventMint] at hpos
    cases hp : interpretPacket n.state tx env with
    | none => simp [hp] at hpos
    | some r =>
      rw [hp, Option.map_some, Option.getD_some] at hpos
      split_ifs at hpos with hrc
      · exact absurd hpos (lt_irrefl 0)
      · exact issues_of_packetMint (hi.core.mono (Event.isNext_block hnext)).feesUpTo hp hrc hpos
  | blockEnd height time =>
    simp only [eventMint, vestedMint] at hpos
    split_ifs at hpos with hp
    · exact .vests hp.1
    · exact absurd hpos (lt_irrefl 0)

/-- **Registered properties are kept**, with their ticker, their transaction and the terms of their
sale, in every run whose new properties get free identifiers. -/
theorem property_kept {n n' : Node} {es : List Event} (hrun : run freshStep n es = some n') {p : PropertyId}
    {entry : SPEntry} (hentry : n.state.sp.entries.find? p = some entry) :
    ∃ entry', n'.state.sp.entries.find? p = some entry' ∧ entry'.registration = entry.registration ∧
      entry'.terms = entry.terms := by
  refine run_invariant (I := fun m : Node => ∃ entry', m.state.sp.entries.find? p = some entry' ∧
    entry'.registration = entry.registration ∧ entry'.terms = entry.terms) ?_ ⟨entry, hentry, rfl, rfl⟩ hrun
  rintro m e m' ⟨old, hold, hreg, hterms⟩ hstep
  obtain ⟨hfresh, hs⟩ := guarded_eq_some.mp hstep
  obtain ⟨-, hh, -⟩ := step_eq_some.mp hs
  rcases handle_spStep hh with ⟨f, hquiet⟩ | ⟨tx, env, rfl, hcreates, hregisters⟩
  · have hr := hquiet.entries p
    have ht := hquiet.terms p
    rw [hold, Option.map_some] at hr ht
    obtain ⟨new, hnew, hr⟩ := Option.map_eq_some_iff.mp hr
    rw [hnew, Option.map_some, Option.some.injEq] at ht
    exact ⟨new, hnew, hr.trans hreg, ht.trans hterms⟩
  · obtain ⟨info, -, -, hsp⟩ := hregisters.sp
    refine ⟨old, ?_, hreg, hterms⟩
    rw [hsp, putSP_entries, find?_insert_ne _ _ ?_, hold]
    rintro rfl
    have hfree : hasSP m.state (peekNextSPID m.state tx.ecosystem) = false := by
      simpa [freshEvent, freshId, hcreates] using hfresh
    rw [hasSP, getSP] at hfree
    split_ifs at hfree
    · cases hfree
    · rw [hold] at hfree
      cases hfree

/-- The issuer of a managed property grants tokens. -/
theorem supply_grows_only_grant :
    ∃ n n', run freshStep (Node.initial regtestCfg) (frozenRun.take 2) = some n ∧
      freshStep n (.packet (frozenTx 55 2 "issuer" "alice" 100) issuanceEnv) = some n' ∧
      Issues n.state 3 (.packet (frozenTx 55 2 "issuer" "alice" 100) issuanceEnv) := by
  have hrun : ((run freshStep (Node.initial regtestCfg) (frozenRun.take 2)).bind fun n =>
      (freshStep n (.packet (frozenTx 55 2 "issuer" "alice" 100) issuanceEnv)).map fun n' =>
        decide (supply n.state 3 < supply n'.state 3)) = some true := by
    decide +kernel
  obtain ⟨n, hn, hlater⟩ := Option.bind_eq_some_iff.mp hrun
  obtain ⟨n', hn', hgrows⟩ := Option.map_eq_some_iff.mp hlater
  exact ⟨n, n', hn, hn', supply_grows_only hn hn' (of_decide_eq_true hgrows)⟩

/-- The property is still the same after the grants. -/
theorem property_kept_granted :
    ∃ n n' entry, run freshStep (Node.initial regtestCfg) (frozenRun.take 2) = some n ∧
      n.state.sp.entries.find? 3 = some entry ∧ run freshStep n (frozenRun.drop 2) = some n' ∧
      ∃ entry', n'.state.sp.entries.find? 3 = some entry' ∧ entry'.registration = entry.registration ∧
        entry'.terms = entry.terms := by
  have hrun : ((run freshStep (Node.initial regtestCfg) (frozenRun.take 2)).bind fun n =>
      (n.state.sp.entries.find? 3).bind fun _ => run freshStep n (frozenRun.drop 2)).isSome = true := by
    decide +kernel
  obtain ⟨n', hn'⟩ := Option.isSome_iff_exists.mp hrun
  obtain ⟨n, hn, hlater⟩ := Option.bind_eq_some_iff.mp hn'
  obtain ⟨entry, hentry, hlater⟩ := Option.bind_eq_some_iff.mp hlater
  exact ⟨n, n', entry, hn, hentry, hlater, property_kept hlater hentry⟩

end Rapids.Token
