import Rapids.Token.Rewind

/-!
# Rapids.Token.Overrun

**Using up the identifiers of the main ecosystem.** From any state in which
nothing is open that a block could close, `2 ^ 31` managed properties of the main
ecosystem, two in each block, leave everything as it was but the database and the
distribution thresholds; the next identifier is then the first one of the test
ecosystem. What stands there already is whatever the state began with, so a
failing run is a first block of one's choice followed by `serialBlocks`.
-/

namespace Rapids.Token

open Rapids.Lib

/-! ### Quiet states -/

/-- The time of all blocks of these runs. -/
def serialTime : Nat := 1500000000

/-- A state in which blocks at `serialTime` have nothing to do. -/
structure Idle (s : State) : Prop where
  params : s.params = regTestConsensusParams
  vested : s.cfg.devmsc serialTime = 0
  exodus : s.exodusPrev = 0
  frozen : s.frozen = ∅
  feeCache : s.feeCache = ∅
  accepts : s.accepts = ∅
  pending : s.pendingActivations = []
  alerts : s.alerts = []
  crowds : ∀ e ∈ s.crowds.entries, (serialTime : Int) ≤ e.2.deadline

section
variable {s s₀ s' : State} {n : Nat}

theorem Idle.getCachedAmount_eq (h : Idle s) (p : PropertyId) : getCachedAmount s p = 0 := by
  simp only [getCachedAmount, getCacheHistory, h.feeCache]
  rfl

theorem Idle.blockBegin (h : Idle s) (height : Nat) (hash : Hash) :
    handle s (.blockBegin height serialTime hash) = some s := by
  have hlive : checkLiveActivations s height = s := by
    rw [checkLiveActivations, h.pending]
    rfl
  have hloop : ∀ l : List (Address × CMPCrowd), (∀ e ∈ l, (serialTime : Int) ≤ e.2.deadline) →
      eraseExpiredLoop serialTime hash l s = some s := by
    intro l
    induction l with
    | nil => exact fun _ => rfl
    | cons e rest ih =>
      intro hl
      have hopen : ¬ e.2.deadline < (serialTime : Int) := not_lt.mpr (hl e (.head _))
      rw [eraseExpiredLoop, eraseExpiredOne, if_neg hopen]
      exact ih fun e' he' => hl e' (.tail _ he')
  rw [handle, handlerBlockBegin, hlive, eraseExpiredCrowdsale, hloop _ h.crowds]

theorem Idle.blockEnd (h : Idle s) (height : Nat) :
    handle s (.blockEnd height serialTime) = some (updateDistributionThresholds s propertyMSC) := by
  have haccepts : eraseExpiredAccepts s height = some s := by
    rw [eraseExpiredAccepts, h.accepts]
    rfl
  have hvest : calculateAndUpdateDevmsc s serialTime height =
      some (updateDistributionThresholds s propertyMSC) := by
    unfold calculateAndUpdateDevmsc creditVested
    rw [h.vested, h.exodus, if_neg (by decide), if_neg (by decide), if_neg (by decide),
      if_neg (by decide)]
    exact notifyTotalTokensChanged_of_zero (h.getCachedAmount_eq _)
  have halerts : checkExpiredAlerts (updateDistributionThresholds s propertyMSC) height serialTime =
      updateDistributionThresholds s propertyMSC := by
    have hnil : (updateDistributionThresholds s propertyMSC).alerts = [] := h.alerts
    unfold checkExpiredAlerts
    rw [hnil, List.filter_nil, ← hnil]
  rw [handle, handlerBlockEnd, haccepts]
  simp [hvest, halerts]

theorem idle_initial : Idle (State.initial regtestCfg) :=
  ⟨rfl, rfl, rfl, rfl, rfl, rfl, rfl, rfl, fun _ h => absurd h List.not_mem_nil⟩

/-! ### New managed properties -/

/-- A managed property. -/
def managedTx (ticker : String) (ecosystem block idx : Nat) (txid : Hash) : CMPTransaction where
  txid := txid
  block := block
  blockTime := serialTime
  txIdx := idx
  sender := "issuer"
  type := 54
  ecosystem := ecosystem
  propType := 1
  name := "Managed"
  ticker := ticker

theorem Idle.managed (h : Idle s) (tx : CMPTransaction)
    (htx : tx.rpcOnly = false ∧ tx.interpreted = true ∧ tx.type = 54 ∧ tx.version = 0 ∧
      tx.propType = 1 ∧ tx.name ≠ "" ∧ tx.data = "" ∧ tx.nDonation = 0)
    (heco : tx.ecosystem = 1 ∨ tx.ecosystem = 2) (hvalid : isTokenTickerValid tx.ticker = true)
    (hticker : s.sp.tickerIndex.find? tx.ticker = none) (hid : peekNextSPID s tx.ecosystem ≠ 0) :
    handle s (.packet tx issuanceEnv) = some (putSP s tx.ecosystem (tx.managedSP issuanceEnv)).2 := by
  obtain ⟨hrpc, hint, htype, hver, hprop, hname, hdata, hdon⟩ := htx
  have hty : TxType.ofId tx.type = some .createPropertyManual := by rw [htype]; rfl
  have hfind : findSPByTicker s tx.ticker = 0 := by
    rw [findSPByTicker, hticker]
    rfl
  have hnonempty : tx.ticker ≠ "" := by
    intro hc
    rw [hc] at hvalid
    exact absurd hvalid (by decide)
  have hno : isNoEcosystem tx.ecosystem = false := by
    rcases heco with heco | heco <;> rw [heco] <;> rfl
  have hallowed : notAllowed s tx tx.ecosystem .createPropertyManual = false := by
    rw [notAllowed, h.params, hver]
    rcases heco with heco | heco <;>
      simp [heco, isTransactionTypeAllowed, getRestrictions, regTestConsensusParams,
        baseConsensusParams, propertyRPD, intMax]
  have hmanaged : logicMathCreatePropertyManaged s tx issuanceEnv =
      some (0, (putSP s tx.ecosystem (tx.managedSP issuanceEnv)).2) := by
    unfold logicMathCreatePropertyManaged
    rw [reject_pass]
    · dsimp only
      rw [putSP_fst, if_neg hid]
    · simp [issuanceEnv, hno, hallowed, hprop, hname, hnonempty, hfind, hvalid, hdata, hdon,
        isNoPropertyType, propertyTypeIndivisible, isTokenIPFSValid]
  rw [handle, interpretPacket_pass hrpc hint h.frozen hty, logicMath, hmanaged]
  rfl

end

/-! ### Serial properties -/

/-- The state after `n` serial properties were created from `s₀`. -/
structure Filled (s₀ : State) (n : Nat) (s : State) : Prop where
  frame : s = { s₀ with sp := s.sp, distributionThresholds := s.distributionThresholds }
  next : s.sp.nextSpid = 3 + n
  nextTest : s.sp.nextTestSpid = s₀.sp.nextTestSpid
  entries : ∀ p, 3 + n ≤ p → s.sp.entries.find? p = s₀.sp.entries.find? p
  tickers : ∀ t, (∀ m < n, t ≠ serialTicker m) →
    s.sp.tickerIndex.find? t = s₀.sp.tickerIndex.find? t

section
variable {s s₀ : State} {n : Nat}

section
variable (h : Filled s₀ n s) (h₀ : Idle s₀)
include h h₀

theorem Filled.idle : Idle s := by
  rw [h.frame]
  exact ⟨h₀.params, h₀.vested, h₀.exodus, h₀.frozen, h₀.feeCache, h₀.accepts, h₀.pending, h₀.alerts,
    h₀.crowds⟩

theorem Filled.blockEnd (height : Nat) :
    ∃ s', handle s (.blockEnd height serialTime) = some s' ∧ Filled s₀ n s' := by
  refine ⟨_, (h.idle h₀).blockEnd height, ?_, h.next, h.nextTest, h.entries, h.tickers⟩
  rw [updateDistributionThresholds, h.frame]

theorem Filled.serial (hn : n < 2 ^ 31)
    (hunused : ∀ m < 2 ^ 31, s₀.sp.tickerIndex.find? (serialTicker m) = none) :
    ∃ s', handle s (.packet (serialTx n) issuanceEnv) = some s' ∧ Filled s₀ (n + 1) s' := by
  have hticker : s.sp.tickerIndex.find? (serialTicker n) = none := by
    rw [h.tickers _ fun m hm heq => ?_]
    · exact hunused n hn
    · have := serialTicker_inj hn (hm.trans hn) heq
      omega
  have hid : peekNextSPID s (serialTx n).ecosystem = 3 + n := h.next
  have hne : peekNextSPID s (serialTx n).ecosystem ≠ 0 := by
    rw [hid]
    exact Nat.ne_of_gt (by omega)
  have hfields : (serialTx n).name ≠ "" := (by decide : "Serial" ≠ "")
  refine ⟨_, (h.idle h₀).managed _ ⟨rfl, rfl, rfl, rfl, rfl, hfields, rfl, rfl⟩ (.inl rfl)
    (serialTicker_valid n) hticker hne, ?_⟩
  refine ⟨?_, ?_, h.nextTest, fun p hp => ?_, fun t ht => ?_⟩
  · rw [putSP_frame, h.frame]
  · show (s.sp.nextSpid + 1) % 2 ^ 32 = 3 + (n + 1)
    rw [h.next]
    exact Nat.mod_eq_of_lt (by omega)
  · have hpne : p ≠ 3 + n := by omega
    rw [putSP_entries, hid, OrdMap.find?_insert_ne _ _ hpne]
    exact h.entries p (by omega)
  · have hne' : t ≠ serialTicker n := ht n (Nat.lt_succ_self n)
    exact (OrdMap.find?_insert_ne _ _ hne').trans (h.tickers t fun m hm => ht m (Nat.lt_succ_of_lt hm))

end

/-- The blocks 2 to `k + 1`, with two serial properties each. -/
def serialBlocks : Nat → List Event
  | 0 => []
  | k + 1 => serialBlocks k ++
      [.blockBegin (k + 2) serialTime 1, .packet (serialTx (2 * k)) issuanceEnv,
        .packet (serialTx (2 * k + 1)) issuanceEnv, .blockEnd (k + 2) serialTime]

theorem run_concat {n₀ n : Node} {es : List Event} {e : Event} {s' : State}
    (h : run step n₀ es = some n) (hnext : e.isNext n.clock = true) (hh : handle n.state e = some s') :
    run step n₀ (es ++ [e]) = some ⟨s', e.tick n.clock⟩ := by
  have hs : step n e = some ⟨s', e.tick n.clock⟩ := step_eq_some.mpr ⟨hnext, hh, rfl⟩
  rw [run_append, h, Option.bind_some, run_cons, hs]
  rfl

/-- The node after `k` blocks of serial properties. -/
def FilledAt (n₀ : Node) (k : Nat) : Prop :=
  ∃ n, run step n₀ (serialBlocks k) = some n ∧ Filled n₀.state (2 * k) n.state ∧
    (ofLex n.clock).1 = k + 1

theorem FilledAt.succ {n₀ : Node} {k : Nat} (h₀ : Idle n₀.state)
    (hunused : ∀ m < 2 ^ 31, n₀.state.sp.tickerIndex.find? (serialTicker m) = none)
    (h : FilledAt n₀ k) (hk : k < 2 ^ 30) : FilledAt n₀ (k + 1) := by
  obtain ⟨n, hrun, hf, hclock⟩ := h
  have hb1 : (serialTx (2 * k)).block = k + 2 := by simp only [serialTx]; omega
  have hb2 : (serialTx (2 * k + 1)).block = k + 2 := by simp only [serialTx]; omega
  have hi1 : (serialTx (2 * k)).txIdx = 1 := by simp only [serialTx]; omega
  have hi2 : (serialTx (2 * k + 1)).txIdx = 2 := by simp only [serialTx]; omega
  obtain ⟨s₂, h2, hf2⟩ := hf.serial h₀ (by omega) hunused
  obtain ⟨s₃, h3, hf3⟩ := hf2.serial h₀ (by omega) hunused
  obtain ⟨s₄, h4, hf4⟩ := hf3.blockEnd h₀ (k + 2)
  have ht1 : (Event.blockBegin (k + 2) serialTime 1).tick n.clock = position (k + 2) 0 := by
    simp [Event.tick, Event.block, hclock]
  have ht2 : (Event.packet (serialTx (2 * k)) issuanceEnv).tick (position (k + 2) 0) =
      position (k + 2) 2 := by
    simp [Event.tick, hb1, hi1]
  have r₁ := run_concat hrun (e := .blockBegin (k + 2) serialTime 1)
    (by simp [Event.isNext, Event.block, hclock]) ((hf.idle h₀).blockBegin (k + 2) 1)
  rw [ht1] at r₁
  have r₂ := run_concat r₁ (packet_isNext hb1 (by omega)) h2
  rw [ht2] at r₂
  have r₃ := run_concat r₂ (packet_isNext hb2 hi2.ge) h3
  have hnext : (Event.blockEnd (k + 2) serialTime).isNext
      ((Event.packet (serialTx (2 * k + 1)) issuanceEnv).tick (position (k + 2) 2)) = true := by
    simp [Event.isNext, Event.block, Event.tick, position, hb2]
  have r₄ := run_concat r₃ hnext h4
  simp only [List.append_assoc, List.cons_append, List.nil_append] at r₄
  exact ⟨_, r₄, hf4, Event.tick_block hnext⟩

theorem filledAt_of_le {n₀ : Node} (h₀ : Idle n₀.state) (hnext : n₀.state.sp.nextSpid = 3)
    (hclock : (ofLex n₀.clock).1 = 1)
    (hunused : ∀ m < 2 ^ 31, n₀.state.sp.tickerIndex.find? (serialTicker m) = none) :
    ∀ k ≤ 2 ^ 30, FilledAt n₀ k
  | 0, _ => ⟨n₀, rfl, ⟨rfl, hnext, rfl, fun _ _ => rfl, fun _ _ => rfl⟩, hclock⟩
  | k + 1, hk => (filledAt_of_le h₀ hnext hclock hunused k (by omega)).succ h₀ hunused (by omega)

/-- **Overrun.** After `2 ^ 30` blocks of serial properties the main counter stands
at the first identifier of the test ecosystem, in the block that has just begun. -/
theorem overrun (n₀ : Node) (h₀ : Idle n₀.state) (hnext : n₀.state.sp.nextSpid = 3)
    (hclock : (ofLex n₀.clock).1 = 1)
    (hunused : ∀ m < 2 ^ 31, n₀.state.sp.tickerIndex.find? (serialTicker m) = none) :
    ∃ s, run step n₀ (serialBlocks (2 ^ 30) ++ [.blockBegin (2 ^ 30 + 2) serialTime 1]) =
        some ⟨s, position (2 ^ 30 + 2) 0⟩ ∧
      Filled n₀.state (2 ^ 31) s := by
  obtain ⟨n, hrun, hf, hc⟩ := filledAt_of_le h₀ hnext hclock hunused (2 ^ 30) le_rfl
  have r := run_concat hrun (e := .blockBegin (2 ^ 30 + 2) serialTime 1)
    (by simp [Event.isNext, Event.block, hc]) ((hf.idle h₀).blockBegin (2 ^ 30 + 2) 1)
  have ht : (Event.blockBegin (2 ^ 30 + 2) serialTime 1).tick n.clock = position (2 ^ 30 + 2) 0 := by
    simp [Event.tick, Event.block, hc]
  rw [ht] at r
  exact ⟨n.state, r, hf⟩

theorem packets_serialBlocks (k : Nat) :
    packets (serialBlocks k) = (List.range (2 * k)).map serialTx := by
  induction k with
  | zero => rfl
  | succ k ih =>
    have hrange : List.range (2 * (k + 1)) = List.range (2 * k) ++ [2 * k, 2 * k + 1] := by
      rw [show 2 * (k + 1) = 2 * k + 1 + 1 by omega, List.range_succ, List.range_succ,
        List.append_assoc]
      rfl
    rw [serialBlocks, packets_append, ih, hrange, List.map_append]
    rfl

end

end Rapids.Token
