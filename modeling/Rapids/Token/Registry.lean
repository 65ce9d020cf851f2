import Rapids.Token.Overrun
import Rapids.Token.SpSteps

/-!
# Rapids.Token.Registry

The **registry of properties**: the identifiers in use are those the two counters
have handed out, and the two indexes are exact.

Three handlers create properties and each looks the ticker up first, so a new
ticker is always new (`SpRegisters`); no other call writes an indexed field
(`SpStep`). What is not looked up is the identifier. The two counters are
32 bits wide and the test ecosystem starts in the middle of the range, so the
main counter runs into it: `registry_run` needs every new property to find its
identifier free, and `registry_overrun` is a run in which one does not.
-/

namespace Rapids.Token

open Rapids.Lib OrdMap

/-! ### The registry -/

/-- The last identifier a counter has handed out; the counters are `uint32_t`. -/
def lastSpid (next : Nat) : Nat := (next + 4294967295) % 4294967296

/-- Identifiers, tickers and transactions of the stored properties. -/
structure Registry (s : State) : Prop where
  ids : ∀ p, (s.sp.entries.find? p).isSome ↔
    (3 ≤ p ∧ p ≤ lastSpid s.sp.nextSpid) ∨ (testEcoProperty1 ≤ p ∧ p ≤ lastSpid s.sp.nextTestSpid)
  unique : ∀ p q e f, s.sp.entries.find? p = some e → s.sp.entries.find? q = some f →
    e.ticker = f.ticker → p = q
  /-- A lookup by ticker yields the one property that has it, or 0. -/
  byTicker : ∀ t p, p ≠ 0 →
    (findSPByTicker s t = p ↔ ∃ e, s.sp.entries.find? p = some e ∧ e.ticker = t)
  /-- A lookup by transaction yields the one property it created, or 0. -/
  byTX : ∀ x p, p ≠ 0 → (findSPByTX s x = p ↔ ∃ e, s.sp.entries.find? p = some e ∧ e.txid = x)

/-- Is a counter in its range? It starts at `first`, and is 0 after the last
identifier. -/
def CounterOk (first next : Nat) : Prop := next = 0 ∨ (first ≤ next ∧ next < 4294967296)

/-- Does an index store each property under the field `key` of its registration,
and nothing else? -/
def ExactIndex {κ : Type} [LinearOrder κ] (sp : CMPSPInfo) (key : String × Hash → κ)
    (index : OrdMap κ PropertyId) : Prop :=
  ∀ x p, index.find? x = some p ↔
    ∃ r, (sp.entries.find? p).map SPEntry.registration = some r ∧ key r = x

/-- The invariant of the registry. -/
structure RegistryInv (sp : CMPSPInfo) : Prop where
  next : CounterOk 3 sp.nextSpid
  nextTest : CounterOk testEcoProperty1 sp.nextTestSpid
  ids : ∀ p, ((sp.entries.find? p).map SPEntry.registration).isSome ↔
    (3 ≤ p ∧ p ≤ lastSpid sp.nextSpid) ∨ (testEcoProperty1 ≤ p ∧ p ≤ lastSpid sp.nextTestSpid)
  ticker : ExactIndex sp Prod.fst sp.tickerIndex
  txid : ExactIndex sp Prod.snd sp.txIndex

section
variable {s s' : State} {sp : CMPSPInfo} {κ : Type} [LinearOrder κ]

theorem RegistryInv.stored_ge (hi : RegistryInv sp) {p : PropertyId}
    (h : ((sp.entries.find? p).map SPEntry.registration).isSome) : 3 ≤ p := by
  rcases (hi.ids p).mp h with h | h
  · exact h.1
  · exact le_trans (by decide) h.1

theorem ExactIndex.getD_eq_iff {key : String × Hash → κ} {index : OrdMap κ PropertyId}
    (h : ExactIndex sp key index) {x : κ} {p : PropertyId} (hp : p ≠ 0) :
    (index.find? x).getD 0 = p ↔
      ∃ e, sp.entries.find? p = some e ∧ key e.registration = x := by
  have hsome : (index.find? x).getD 0 = p ↔ index.find? x = some p := by
    cases index.find? x with
    | none => simp [hp.symm]
    | some q => simp
  rw [hsome, h x p]
  simp only [Option.map_eq_some_iff]
  constructor
  · rintro ⟨r, ⟨e, he, rfl⟩, hk⟩
    exact ⟨e, he, hk⟩
  · rintro ⟨e, he, hk⟩
    exact ⟨_, ⟨e, he, rfl⟩, hk⟩

theorem RegistryInv.registry (hi : RegistryInv s.sp) : Registry s := by
  have hticker : ∀ t p, p ≠ 0 →
      (findSPByTicker s t = p ↔ ∃ e, s.sp.entries.find? p = some e ∧ e.ticker = t) :=
    fun t p hp => hi.ticker.getD_eq_iff hp
  have hne : ∀ p e, s.sp.entries.find? p = some e → p ≠ 0 := by
    rintro p e he rfl
    have hge := hi.stored_ge (p := 0) (by simp [he])
    exact absurd hge (by decide)
  refine ⟨fun p => ?_, fun p q e f he hf hef => ?_, hticker, fun x p hp => hi.txid.getD_eq_iff hp⟩
  · rw [← hi.ids, Option.isSome_map]
  · have h1 := (hticker e.ticker p (hne p e he)).mpr ⟨e, he, rfl⟩
    have h2 := (hticker e.ticker q (hne q f hf)).mpr ⟨f, hf, hef.symm⟩
    exact h1.symm.trans h2

/-! ### Steps -/

theorem RegistryInv.of_spStep {f : Address → Int} (hi : RegistryInv s.sp) (h : SpStep s s' f) :
    RegistryInv s'.sp := by
  refine ⟨?_, ?_, fun p => ?_, fun x p => ?_, fun x p => ?_⟩
  · rw [h.nextSpid]
    exact hi.next
  · rw [h.nextTestSpid]
    exact hi.nextTest
  · rw [h.entries, h.nextSpid, h.nextTestSpid]
    exact hi.ids p
  · rw [h.entries, h.tickerIndex]
    exact hi.ticker x p
  · rw [h.entries, h.txIndex]
    exact hi.txid x p

theorem ExactIndex.insert {key : String × Hash → κ} {index : OrdMap κ PropertyId}
    (h : ExactIndex sp key index) {sp' : CMPSPInfo} {p₀ : PropertyId} {info : SPEntry}
    (hfree : sp.entries.find? p₀ = none) (hnew : index.find? (key info.registration) = none)
    (hsp : sp'.entries = sp.entries.insert p₀ info) :
    ExactIndex sp' key (index.insert (key info.registration) p₀) := by
  intro x p
  rw [find?_insert, hsp, find?_insert]
  by_cases hp : p = p₀
  · subst hp
    rw [if_pos rfl, Option.map_some]
    by_cases hx : x = key info.registration
    · simp [hx]
    · rw [if_neg hx, h x p, hfree]
      simp [Ne.symm hx]
  · rw [if_neg hp]
    by_cases hx : x = key info.registration
    · rw [if_pos hx, hx, ← h, hnew]
      simp [Ne.symm hp]
    · rw [if_neg hx]
      exact h x p

theorem lastSpid_succ {first next : Nat} (hok : CounterOk first next) (hne : next ≠ 0)
    (hfirst : 0 < first) (p : Nat) :
    CounterOk first ((next + 1) % 2 ^ 32) ∧
      ((first ≤ p ∧ p ≤ lastSpid ((next + 1) % 2 ^ 32)) ↔
        p = next ∨ (first ≤ p ∧ p ≤ lastSpid next)) := by
  unfold CounterOk lastSpid at *
  obtain h0 | ⟨hle, hlt⟩ := hok
  · exact absurd h0 hne
  · refine ⟨?_, ?_⟩
    · by_cases hw : next + 1 = 4294967296
      · exact .inl (by omega)
      · exact .inr (by omega)
    · by_cases hw : next + 1 = 4294967296
      · omega
      · omega

theorem ids_putSP {ecosystem : Nat} (info : SPEntry) (hnext : CounterOk 3 s.sp.nextSpid)
    (hnextTest : CounterOk testEcoProperty1 s.sp.nextTestSpid)
    (heco : ecosystem = propertyMSC ∨ ecosystem = propertyTMSC)
    (hne : peekNextSPID s ecosystem ≠ 0) :
    CounterOk 3 (putSP s ecosystem info).2.sp.nextSpid ∧
      CounterOk testEcoProperty1 (putSP s ecosystem info).2.sp.nextTestSpid ∧
      ∀ p, (p = peekNextSPID s ecosystem ∨
          (3 ≤ p ∧ p ≤ lastSpid s.sp.nextSpid) ∨
            (testEcoProperty1 ≤ p ∧ p ≤ lastSpid s.sp.nextTestSpid)) ↔
        (3 ≤ p ∧ p ≤ lastSpid (putSP s ecosystem info).2.sp.nextSpid) ∨
          (testEcoProperty1 ≤ p ∧ p ≤ lastSpid (putSP s ecosystem info).2.sp.nextTestSpid) := by
  rcases heco with rfl | rfl
  · have hsucc := lastSpid_succ hnext hne (by decide)
    exact ⟨(hsucc 0).1, hnextTest, fun p =>
      or_assoc.symm.trans (or_congr_left (hsucc p).2.symm)⟩
  · have hsucc := lastSpid_succ hnextTest hne (by decide)
    exact ⟨hnext, (hsucc 0).1, fun p =>
      or_left_comm.trans (or_congr_right (hsucc p).2.symm)⟩

theorem putSP_indexes (s : State) (ecosystem : Nat) (info : SPEntry) :
    (putSP s ecosystem info).2.sp.txIndex = s.sp.txIndex.insert info.txid (peekNextSPID s ecosystem) ∧
      (putSP s ecosystem info).2.sp.tickerIndex =
        s.sp.tickerIndex.insert info.ticker (peekNextSPID s ecosystem) := by
  unfold putSP
  split_ifs
  · exact ⟨rfl, rfl⟩
  · exact ⟨rfl, rfl⟩
  · exact ⟨rfl, rfl⟩

theorem RegistryInv.of_registers {tx : CMPTransaction} (hi : RegistryInv s.sp)
    (h : SpRegisters s s' tx) (hfree : s.sp.entries.find? (peekNextSPID s tx.ecosystem) = none)
    (hnew : s.sp.txIndex.find? tx.txid = none) : RegistryInv s'.sp := by
  obtain ⟨info, hreg, -, hsp⟩ := h.sp
  obtain ⟨htxid, htick⟩ := putSP_indexes s tx.ecosystem info
  obtain ⟨hticker, htx⟩ := Prod.ext_iff.mp hreg
  have hnone : s.sp.tickerIndex.find? info.registration.1 = none := by
    cases hfind : s.sp.tickerIndex.find? info.registration.1 with
    | none => rfl
    | some p =>
      -- a ticker whose lookup yields 0 belongs to no property
      have hzero : p = 0 := by
        have h0 := h.newTicker
        rw [findSPByTicker, ← show info.registration.1 = tx.ticker from hticker, hfind] at h0
        exact h0
      obtain ⟨r, hr, -⟩ := (hi.ticker _ p).mp hfind
      have hge := hi.stored_ge (by rw [hr]; rfl)
      rw [hzero] at hge
      exact absurd hge (by decide)
  obtain ⟨hn, hnt, hids⟩ := ids_putSP info hi.next hi.nextTest h.ecosystem h.newId
  rw [hsp]
  refine ⟨hn, hnt, fun p => ?_, ?_, ?_⟩
  · rw [← hids, ← hi.ids, putSP_entries, find?_insert]
    by_cases hp : p = peekNextSPID s tx.ecosystem
    · simp [hp]
    · simp [hp]
  · rw [htick]
    exact hi.ticker.insert hfree hnone (putSP_entries s tx.ecosystem info)
  · rw [htxid]
    refine hi.txid.insert hfree ?_ (putSP_entries s tx.ecosystem info)
    rw [show info.registration.2 = tx.txid from htx]
    exact hnew

end

/-! ### Runs -/

section
variable {n n' : Node} {es : List Event}

theorem freshId_free {s : State} {tx : CMPTransaction} (h : freshId s tx = true)
    (hc : createsProperty tx = true) : s.sp.entries.find? (peekNextSPID s tx.ecosystem) = none := by
  simp only [freshId, hc, Bool.not_true, Bool.false_or, Bool.not_eq_true', hasSP, getSP] at h
  split_ifs at h with hp
  · simp at h
  · simpa using h

/-- The transactions whose packets are yet to come have created nothing. -/
def Unprocessed (s : State) (es : List Event) : Prop :=
  ∀ tx ∈ packets es, s.sp.txIndex.find? tx.txid = none

theorem freshStep_registry {e : Event} (hi : RegistryInv n.state.sp) (h : freshStep n e = some n')
    (hnew : Unprocessed n.state (e :: es)) (hids : ((packets (e :: es)).map CMPTransaction.txid).Nodup) :
    RegistryInv n'.state.sp ∧ Unprocessed n'.state es := by
  obtain ⟨hfresh, hstep⟩ := guarded_eq_some.mp h
  obtain ⟨-, hhandle, -⟩ := step_eq_some.mp hstep
  rcases handle_spStep hhandle with ⟨f, hsp⟩ | ⟨tx, env, rfl, hc, hreg⟩
  · refine ⟨hi.of_spStep hsp, fun tx htx => ?_⟩
    rw [hsp.txIndex]
    refine hnew tx ?_
    cases e with
    | packet tx' env => exact .tail _ htx
    | blockBegin height time hash => exact htx
    | payment block sender outputs => exact htx
    | blockEnd height time => exact htx
  · have hnone := hnew tx (.head _)
    refine ⟨hi.of_registers hreg (freshId_free hfresh hc) hnone, fun tx' htx' => ?_⟩
    obtain ⟨info, hinfo, -, hsp⟩ := hreg.sp
    have htxid : info.txid = tx.txid := (Prod.ext_iff.mp hinfo).2
    have hne : tx'.txid ≠ tx.txid := by
      intro heq
      refine (List.nodup_cons.mp hids).1 ?_
      rw [← heq]
      exact List.mem_map_of_mem htx'
    rw [hsp, (putSP_indexes n.state tx.ecosystem info).1, htxid, find?_insert_ne _ _ hne]
    exact hnew tx' (.tail _ htx')

theorem packets_nodup_tail {e : Event} (h : ((packets (e :: es)).map CMPTransaction.txid).Nodup) :
    ((packets es).map CMPTransaction.txid).Nodup := by
  cases e with
  | packet tx env => exact (List.nodup_cons.mp h).2
  | blockBegin height time hash => exact h
  | payment block sender outputs => exact h
  | blockEnd height time => exact h

theorem run_registryInv (hi : RegistryInv n.state.sp) (hnew : Unprocessed n.state es)
    (hids : ((packets es).map CMPTransaction.txid).Nodup) (h : run freshStep n es = some n') :
    RegistryInv n'.state.sp := by
  induction es generalizing n with
  | nil =>
    cases h
    exact hi
  | cons e rest ih =>
    rw [run_cons, Option.bind_eq_some_iff] at h
    obtain ⟨n₁, h1, h⟩ := h
    obtain ⟨hi1, hnew1⟩ := freshStep_registry hi h1 hnew hids
    exact ih hi1 hnew1 (packets_nodup_tail hids) h

theorem registryInv_initial (cfg : Config) : RegistryInv (State.initial cfg).sp := by
  have hlast : lastSpid 3 = 2 := by decide
  have hlast' : lastSpid testEcoProperty1 = 2147483650 := by decide
  have hnone : ∀ {κ : Type} [LinearOrder κ] (key : String × Hash → κ), ExactIndex {} key ∅ := by
    intro κ _ key x p
    constructor
    · intro h
      cases h
    · rintro ⟨r, h, -⟩
      cases h
  show RegistryInv {}
  refine ⟨.inr (by decide), .inr (by decide), fun p => ?_, hnone _, hnone _⟩
  constructor
  · intro h
    cases h
  · rintro (⟨hge, hle⟩ | ⟨hge, hle⟩)
    · exact absurd (le_trans hge (hlast ▸ hle)) (by decide)
    · exact absurd (le_trans hge (hlast' ▸ hle)) (by decide)

/-- **The registry along a run.** In every run in which no transaction is processed
twice and every new property finds its identifier free, the identifiers in use
are those handed out, tickers are unique and both lookups are exact. -/
theorem registry_run {cfg : Config} (hids : ((packets es).map CMPTransaction.txid).Nodup)
    (hrun : run freshStep (Node.initial cfg) es = some n) : Registry n.state :=
  (run_registryInv (registryInv_initial cfg) (fun _ _ => rfl) hids hrun).registry

end

/-- Two blocks with three properties. -/
theorem registry_run_crowding :
    ∃ n, run freshStep (Node.initial regtestCfg) (crowdingBlocks 1) = some n ∧
      n.state.sp.nextSpid = 5 ∧ Registry n.state := by
  have hrun : (run freshStep (Node.initial regtestCfg) (crowdingBlocks 1)).map
      (fun n => n.state.sp.nextSpid) = some 5 := by decide +kernel
  obtain ⟨n, hn, hnext⟩ := Option.map_eq_some_iff.mp hrun
  exact ⟨n, hn, hnext, registry_run (by decide) hn⟩

/-! ### Running into the test ecosystem -/

/-- A test property, all identifiers of the main ecosystem, and one more property. -/
def collidingRun : List Event :=
  [.blockBegin 1 serialTime 1, .packet (managedTx "FIRST" 2 1 1 1) issuanceEnv,
      .blockEnd 1 serialTime] ++
    ((serialBlocks (2 ^ 30) ++ [.blockBegin (2 ^ 30 + 2) serialTime 1]) ++
      [.packet (managedTx "LAST" 1 (2 ^ 30 + 2) 1 2) issuanceEnv])

/-- The state after the first block. -/
def testPropertyState : State :=
  updateDistributionThresholds
    (putSP (State.initial regtestCfg) 2 ((managedTx "FIRST" 2 1 1 1).managedSP issuanceEnv)).2 propertyMSC

theorem idle_testPropertyState : Idle testPropertyState :=
  ⟨rfl, rfl, rfl, rfl, rfl, rfl, rfl, rfl, fun _ h => absurd h List.not_mem_nil⟩

theorem run_testProperty :
    run step (Node.initial regtestCfg)
        [.blockBegin 1 serialTime 1, .packet (managedTx "FIRST" 2 1 1 1) issuanceEnv,
          .blockEnd 1 serialTime] = some ⟨testPropertyState, position 1 2⟩ := by
  have r₁ := run_concat (run_nil step (Node.initial regtestCfg)) (by decide) (idle_initial.blockBegin 1 1)
  have r₂ := run_concat r₁ (by decide) (idle_initial.managed (managedTx "FIRST" 2 1 1 1)
    ⟨rfl, rfl, rfl, rfl, rfl, by decide, rfl, rfl⟩ (.inr rfl) (by decide) rfl (by decide))
  have hidle : Idle (putSP (State.initial regtestCfg) 2
      ((managedTx "FIRST" 2 1 1 1).managedSP issuanceEnv)).2 :=
    ⟨rfl, rfl, rfl, rfl, rfl, rfl, rfl, rfl, fun _ h => absurd h List.not_mem_nil⟩
  have r₃ := run_concat r₂ (by decide) (hidle.blockEnd 1)
  exact r₃

theorem serialIds_nodup (k : Nat) : (1 :: ((List.range k).map (fun n => n + 10) ++ [2])).Nodup := by
  have hrange : ((List.range k).map fun n => n + 10).Nodup :=
    List.nodup_range.map fun a b h => Nat.add_right_cancel h
  rw [List.nodup_cons, List.nodup_append]
  refine ⟨?_, hrange, List.nodup_singleton 2, ?_⟩
  · simp only [List.mem_append, List.mem_map, List.mem_singleton]
    rintro (⟨n, -, hn⟩ | h)
    · omega
    · omega
  · simp only [List.mem_map, List.mem_singleton]
    rintro _ ⟨n, -, rfl⟩ b rfl
    omega

theorem colliding_nodup (k : Nat) {first second last : List Event}
    (hfirst : (packets first).map CMPTransaction.txid = [1]) (hsecond : packets second = [])
    (hlast : (packets last).map CMPTransaction.txid = [2]) :
    ((packets (first ++ ((serialBlocks k ++ second) ++ last))).map CMPTransaction.txid).Nodup := by
  have hserial : ((List.range (2 * k)).map serialTx).map CMPTransaction.txid =
      (List.range (2 * k)).map fun n => n + 10 := by
    rw [List.map_map]
    rfl
  rw [packets_append, packets_append, packets_append, packets_serialBlocks, hsecond, List.append_nil,
    List.map_append, List.map_append, hfirst, hserial, hlast]
  exact serialIds_nodup (2 * k)

/-- **The last property replaces the first.** It has the identifier 0x80000003 and
the ticker `LAST`, and the index still sends `FIRST` there. -/
theorem collidingRun_replaces :
    ∃ n, run step (Node.initial regtestCfg) collidingRun = some n ∧
      findSPByTicker n.state "FIRST" = testEcoProperty1 ∧
      (n.state.sp.entries.find? testEcoProperty1).map SPEntry.ticker = some "LAST" := by
  have hshort : ∀ t : String, t.toList.length ≠ 8 → ∀ m, t ≠ serialTicker m := by
    rintro t ht m rfl
    exact ht (by simp [serialTicker])
  have hunused : ∀ m < 2 ^ 31, testPropertyState.sp.tickerIndex.find? (serialTicker m) = none :=
    fun m _ => find?_insert_ne _ _ (hshort "FIRST" (by decide) m).symm
  obtain ⟨s, hrun, hf⟩ := overrun ⟨testPropertyState, position 1 2⟩ idle_testPropertyState
    rfl rfl hunused
  have hpeek : peekNextSPID s 1 = testEcoProperty1 := hf.next
  have hlast : s.sp.tickerIndex.find? "LAST" = none :=
    hf.tickers "LAST" fun m _ => hshort "LAST" (by decide) m
  have hfirst : s.sp.tickerIndex.find? "FIRST" = some testEcoProperty1 :=
    hf.tickers "FIRST" fun m _ => hshort "FIRST" (by decide) m
  have hh := (hf.idle idle_testPropertyState).managed (managedTx "LAST" 1 (2 ^ 30 + 2) 1 2)
    ⟨rfl, rfl, rfl, rfl, rfl, by decide, rfl, rfl⟩ (.inl rfl) (by decide) hlast
    (by rw [show (managedTx "LAST" 1 (2 ^ 30 + 2) 1 2).ecosystem = 1 from rfl, hpeek]; decide)
  have r := run_concat hrun (packet_isNext rfl (Nat.zero_le _)) hh
  refine ⟨_, run_trans run_testProperty r, ?_, ?_⟩
  · show (find? (insert s.sp.tickerIndex _ _) "FIRST").getD 0 = testEcoProperty1
    rw [find?_insert_ne _ _ (by decide), hfirst]
    rfl
  · rw [putSP_entries, show (managedTx "LAST" 1 (2 ^ 30 + 2) 1 2).ecosystem = 1 from rfl, hpeek,
      find?_insert, if_pos rfl]
    rfl

/-- The registry is broken in that run. -/
theorem registry_overrun :
    ¬ ∀ (cfg : Config) (es : List Event) (n : Node), ((packets es).map CMPTransaction.txid).Nodup →
      run step (Node.initial cfg) es = some n → Registry n.state := by
  intro h
  obtain ⟨n, hrun, hfirst, hentry⟩ := collidingRun_replaces
  have hreg := h regtestCfg collidingRun n (colliding_nodup _ rfl rfl rfl) hrun
  obtain ⟨e, he, hticker⟩ := (hreg.byTicker "FIRST" testEcoProperty1 (by decide)).mp hfirst
  rw [he, Option.map_some, hticker] at hentry
  exact absurd hentry (by decide)

end Rapids.Token
