import Rapids.Token.Overrun

/-!
# Rapids.Token.Reissue

**A property issued twice** to the same account.

The account has all `2 ^ 63 - 1` tokens of the first test property, and parts with them so
that its balance is empty: an order reserves them. After all identifiers of the main
ecosystem are used up, the account creates one more property there, and gets `2 ^ 63 - 1`
tokens of the same identifier again. What the first block left in the book is still there.
-/

namespace Rapids.Token

open Rapids.Lib

/-! ### States to start from -/

/-- A decidable condition for the state in which an overrun may start. -/
def isIdle (s : State) : Bool :=
  decide (s.params = regTestConsensusParams) && s.cfg.devmsc serialTime == 0 && s.exodusPrev == 0 &&
    s.frozen.entries.isEmpty && s.feeCache.entries.isEmpty && s.accepts.entries.isEmpty &&
    s.pendingActivations.isEmpty && s.alerts.isEmpty && s.crowds.entries.isEmpty

/-- The node is in the first block, and has no property of the main ecosystem yet. -/
def canOverrun (n : Node) : Bool :=
  isIdle n.state && n.state.sp.nextSpid == 3 && (ofLex n.clock).1 == 1 &&
    n.state.sp.tickerIndex.entries.all fun e => e.1.toList.length != 8 && e.1 != "LAST"

theorem eq_empty_of_isEmpty {κ ν : Type} [LinearOrder κ] {m : OrdMap κ ν} (h : m.entries.isEmpty = true) :
    m = ∅ := by
  cases m
  cases List.isEmpty_iff.mp h
  rfl

theorem idle_of_isIdle {s : State} (h : isIdle s = true) : Idle s := by
  simp only [isIdle, Bool.and_eq_true, decide_eq_true_iff, beq_iff_eq, List.isEmpty_iff (l := s.alerts),
    List.isEmpty_iff (l := s.pendingActivations)] at h
  obtain ⟨⟨⟨⟨⟨⟨⟨⟨hparams, hvested⟩, hexodus⟩, hfrozen⟩, hfees⟩, haccepts⟩, hpending⟩, halerts⟩, hcrowds⟩ := h
  refine ⟨hparams, hvested, hexodus, eq_empty_of_isEmpty hfrozen, eq_empty_of_isEmpty hfees,
    eq_empty_of_isEmpty haccepts, hpending, halerts, fun e he => ?_⟩
  rw [List.isEmpty_iff.mp hcrowds] at he
  cases he

/-! ### The second issue -/

/-- What follows the first block. -/
def reissueRun (sender : Address) : List Event :=
  (serialBlocks (2 ^ 30) ++ [.blockBegin (2 ^ 30 + 2) serialTime 1]) ++
    [.packet (hoardTx sender "LAST" 1 (2 ^ 30 + 2)) issuanceEnv]

/-- The account's balance grows by all that fits, and the book stays as it was. -/
theorem exists_reissue {cfg : Config} {first : List Event} {n₀ : Node} {sender : Address}
    (hrun : run step (Node.initial cfg) first = some n₀) (hready : canOverrun n₀ = true)
    (hempty : getTokenBalance n₀.state sender testEcoProperty1 .balance = 0) :
    ∃ n, run step (Node.initial cfg) (first ++ reissueRun sender) = some n ∧
      n.state.metadex = n₀.state.metadex ∧ n.state.feeCache = ∅ ∧
      (∀ q, held n.state.tally q =
        held n₀.state.tally q + if q = testEcoProperty1 then i64Max else 0) ∧
      ∀ a q t, getTokenBalance n.state a q t = getTokenBalance n₀.state a q t +
        if a = sender ∧ q = testEcoProperty1 ∧ t = .balance then i64Max else 0 := by
  simp only [canOverrun, Bool.and_eq_true, beq_iff_eq, List.all_eq_true, bne_iff_ne] at hready
  obtain ⟨⟨⟨hidle, hnext⟩, hclock⟩, htickers⟩ := hready
  have h0 := idle_of_isIdle hidle
  have hserial : ∀ m, (serialTicker m).toList.length = 8 := fun m => by simp [serialTicker]
  have hunused : ∀ t : String, (t.toList.length = 8 ∨ t = "LAST") →
      n₀.state.sp.tickerIndex.find? t = none := fun t ht => by
    by_contra hsome
    obtain ⟨p, hp⟩ := Option.ne_none_iff_exists'.mp hsome
    have hmem := htickers (t, p) (OrdMap.mem_entries_iff.mpr hp)
    exact ht.elim hmem.1 hmem.2
  obtain ⟨s, hrun', hf⟩ := overrun n₀ h0 hnext hclock fun m _ => hunused _ (.inl (hserial m))
  have hi := hf.idle h0
  have hlast : s.sp.tickerIndex.find? "LAST" = none := by
    rw [hf.tickers "LAST" fun m _ heq => absurd (hserial m) (by rw [← heq]; decide)]
    exact hunused "LAST" (.inr rfl)
  have hbal : ∀ a q t, getTokenBalance s a q t = getTokenBalance n₀.state a q t := fun a q t => by
    rw [hf.frame]
    rfl
  obtain ⟨s₁, h1, hhoard⟩ := @hoard_handled s sender _ _ (2 ^ 30 + 2) hi.params hi.frozen
    hi.feeCache (.inl rfl) (.inr rfl) hlast hf.next ((hbal _ _ _).trans hempty)
  have st := assertTally_spec h1
  refine ⟨_, run_trans hrun (run_concat hrun' (packet_isNext rfl (Nat.zero_le _)) hhoard), ?_, ?_,
    fun q => ?_, fun a q t => ?_⟩
  · show s₁.metadex = n₀.state.metadex
    rw [st.frame, putSP_frame, hf.frame]
  · show s₁.feeCache = ∅
    rw [st.frame, putSP_frame]
    exact hi.feeCache
  · show held s₁.tally q = _
    rw [st.held, putSP_frame, hf.frame]
    simp
  · show getTokenBalance s₁ a q t = _
    rw [st.balance, ← hbal]
    rfl

/-! ### The supply leaves its range -/

/-- The whole run: the last property takes the identifier of the test property. -/
def reusingRun : List Event :=
  crowdingBlocks (2 ^ 30) ++
    [.blockBegin (2 ^ 30 + 2) 1500000000 1,
      .packet (hoardTx "second" "LAST" 1 (2 ^ 30 + 2)) issuanceEnv]

theorem crowdingBlocks_eq (k : Nat) : crowdingBlocks k = crowdingBlocks 0 ++ serialBlocks k := by
  induction k with
  | zero => rfl
  | succ k ih =>
    show crowdingBlocks k ++ _ = _
    rw [ih, List.append_assoc]
    rfl

theorem reusingRun_supply :
    ∃ n, run step (Node.initial regtestCfg) reusingRun = some n ∧
      supply n.state testEcoProperty1 = i64Max + i64Max := by
  have hfirst : (run step (Node.initial regtestCfg) (crowdingBlocks 0)).map (fun n =>
      (canOverrun n, getTokenBalance n.state "second" testEcoProperty1 .balance,
        held n.state.tally testEcoProperty1)) = some (true, 0, i64Max) := by decide +kernel
  obtain ⟨n₀, hrun, hvals⟩ := Option.map_eq_some_iff.mp hfirst
  simp only [Prod.mk.injEq] at hvals
  obtain ⟨n, hn, -, hfees, hheld, -⟩ := exists_reissue hrun hvals.1 hvals.2.1
  refine ⟨n, ?_, ?_⟩
  · rw [← hn, reusingRun, crowdingBlocks_eq, reissueRun]
    simp only [List.append_assoc]
    rfl
  · rw [supply, hheld, hvals.2.2, getCachedAmount, getCacheHistory, hfees]
    rfl

/-- Without the condition on identifiers, the supply leaves its range. -/
theorem supply_not_conserved :
    ¬ ∀ (cfg : Config) (es : List Event) (n : Node), run step (Node.initial cfg) es = some n →
      (∀ q, 0 ≤ supply n.state q ∧ supply n.state q ≤ i64Max) ∧
        ∀ e n', step n e = some n' →
          ∀ q, supply n'.state q = supply n.state q + eventMint n.state e q := by
  intro h
  obtain ⟨n, hrun, hsup⟩ := reusingRun_supply
  have hle := ((h regtestCfg reusingRun n hrun).1 testEcoProperty1).2
  rw [hsup] at hle
  exact absurd hle (by decide)

end Rapids.Token
