import Rapids.Token.Features

/-!
# Rapids.Token.FeeRollback

**Rolling back the fee cache** (`RollBackCache`, `dbfees.cpp`). The cache of a
property keeps one entry per block that changed it; a rollback to a block drops
the entries of that block and later ones, and the amount before them is again
the most recent entry.

That entry may be gone. While fee debugging is on, every write drops the
entries more than `maxStateHistory` blocks older than itself. So an amount comes
back exactly if debugging is off, or there is none, or every write that is rolled
back lies within that many blocks of an earlier write that stays
(`rollback_restores_iff`).
-/

namespace Rapids.Token

open Rapids.Lib OrdMap

variable {p : PropertyId}

variable {s s' : State} {k block : Nat} {calls : List FeeCall}

/-! ### Rolling back -/

/-- The properties a rollback visits: all identifiers given out, in either
ecosystem. -/
def visitedProperties (s : State) : List PropertyId :=
  List.range' 1 (s.sp.nextSpid - 1) ++ List.range' testEcoProperty1 (s.sp.nextTestSpid - testEcoProperty1)

/-- Roll back one property; nothing to do if its last entry is older. -/
def rollBackProperty (block : Nat) (s : State) (p : PropertyId) : State :=
  match (getCacheHistory s p).last? with
  | none => s
  | some e =>
    if e.1 < block then s
    else
      { s with feeCache := s.feeCache.insert p ((getCacheHistory s p).filter fun e => decide (e.1 < block)) }

/-- `RollBackCache` -/
def rollBackCache (s : State) (block : Nat) : State :=
  (visitedProperties s).foldl (rollBackProperty block) s

/-! ### Calls -/

/-- The calls that write the cache, and anything else that happens between them. -/
inductive FeeCall
  | addFee (p : PropertyId) (block : Nat) (amount : Int)
  | clearCache (p : PropertyId) (block : Nat)
  | other (s : State)

/-- The property and the block a call writes. -/
def FeeCall.target : FeeCall → Option (PropertyId × Nat)
  | .addFee p block _ => some (p, block)
  | .clearCache p block => some (p, block)
  | .other _ => none

def feeStep (s : State) : FeeCall → Option State
  | .addFee p block amount => addFee s p block amount
  | .clearCache p block => some (clearCache s p block)
  | .other s' => if s'.feeCache = s.feeCache ∧ s'.cfg.debugFees = s.cfg.debugFees then some s' else none

/-! ### One write -/

/-- `h'` is `h` with an entry for `block`, and, with debugging on, without the
entries that are too old then. -/
structure Rewritten (debug : Bool) (block : Nat) (h h' : FeeHistory) : Prop where
  others : ∀ k, k ≠ block →
    h'.find? k = if debug = true ∧ k + maxStateHistory < block then none else h.find? k
  written : (h'.find? block).isSome = true

theorem Rewritten.trans {debug : Bool} {h h' h'' : FeeHistory}
    (h1 : Rewritten debug block h h') (h2 : Rewritten debug block h' h'') :
    Rewritten debug block h h'' := by
  refine ⟨fun k hk => ?_, h2.written⟩
  rw [h2.others k hk, h1.others k hk]
  split
  · rfl
  · rfl

theorem pruneHistory_rewritten (h : FeeHistory) (debug : Bool) (block : Nat) (x : Int) :
    Rewritten debug block h (pruneHistory (h.insert block x) debug block) := by
  -- the entry just written is never too old, so pruning is a filter
  have hself : (h.insert block x).find? block = some x := find?_insert_self ..
  have hkept : ∀ k, ((h.insert block x).filter fun e => !(isMatured block e && debug)).find? k =
      if debug = true ∧ k + maxStateHistory < block then none else (h.insert block x).find? k := by
    intro k
    rw [find?_filter]
    cases (h.insert block x).find? k with
    | none => simp
    | some v =>
      by_cases hm : k + maxStateHistory < block
      · cases debug <;> simp [isMatured, hm]
      · simp [isMatured, hm]
  have hprune : ∀ k, (pruneHistory (h.insert block x) debug block).find? k =
      if debug = true ∧ k + maxStateHistory < block then none else (h.insert block x).find? k := by
    intro k
    unfold pruneHistory
    split
    · rename_i hnil
      rw [find?, hnil] at hself
      cases hself
    · rename_i first rest hent
      split
      · -- the oldest entry is recent enough, so all are
        rename_i hfirst
        have hage : block ≤ first.1 + maxStateHistory := by simpa [isMatured] using hfirst
        split
        · rename_i hold
          cases hf : (h.insert block x).find? k with
          | none => rfl
          | some v =>
            have hmem := mem_entries_iff.mpr hf
            have hsorted := (h.insert block x).sorted
            rw [hent] at hmem hsorted
            rcases List.mem_cons.mp hmem with heq | hmem
            · have hk : first.1 = k := by rw [← heq]
              omega
            · have hlt : first.1 < k := (List.pairwise_cons.mp hsorted).1 _ hmem
              omega
        · rfl
      · dsimp only
        split
        · rename_i hempty
          have hb := hkept block
          rw [if_neg (by omega), hself, find?, List.isEmpty_iff.mp hempty] at hb
          cases hb
        · exact hkept k
  constructor
  · intro k hk
    rw [hprune, find?_insert_ne _ _ hk]
  · rw [hprune, if_neg (by omega), hself]
    rfl

/-! ### One call -/

theorem writeCache_rewritten (s : State) (p : PropertyId) (block : Nat) (x : Int) :
    Rewritten s.cfg.debugFees block (getCacheHistory s p) (getCacheHistory (writeCache s p block x) p) ∧
      ∀ q, q ≠ p → getCacheHistory (writeCache s p block x) q = getCacheHistory s q := by
  constructor
  · rw [getCacheHistory_writeCache, if_pos rfl]
    exact pruneHistory_rewritten _ _ _ _
  · intro q hq
    rw [getCacheHistory_writeCache, if_neg hq]

theorem addFee_rewritten {amount : Int}
    (h : addFee s p block amount = some s') :
    s'.cfg = s.cfg ∧ Rewritten s.cfg.debugFees block (getCacheHistory s p) (getCacheHistory s' p) ∧
      ∀ q, q ≠ p → getCacheHistory s' q = getCacheHistory s q := by
  unfold addFee at h
  dsimp only at h
  split at h
  · cases h
  · obtain ⟨hw, hother⟩ := writeCache_rewritten s p block (getCachedAmount s p + amount)
    unfold evalCache at h
    split at h
    · simp only [distributeCache, do_eq_some] at h
      obtain ⟨receivers, -, s₁, h1, h⟩ := h
      split at h
      · cases h
        have hfr := creditReceivers_frame h1
        have hhist : ∀ q, getCacheHistory s₁ q =
            getCacheHistory (writeCache s p block (getCachedAmount s p + amount)) q := by
          intro q
          rw [hfr]
          rfl
        have hcfg : s₁.cfg = s.cfg := by
          rw [hfr]
          rfl
        obtain ⟨hw', hother'⟩ := writeCache_rewritten s₁ p block 0
        rw [hhist, hcfg] at hw'
        exact ⟨hcfg, hw.trans hw', fun q hq => (hother' q hq).trans ((hhist q).trans (hother q hq))⟩
      · cases h
    · cases h
      exact ⟨rfl, hw, hother⟩

theorem feeStep_cases {c : FeeCall} (h : feeStep s c = some s') :
    s'.cfg.debugFees = s.cfg.debugFees ∧ ∀ q,
      (∃ block, c.target = some (q, block) ∧
        Rewritten s.cfg.debugFees block (getCacheHistory s q) (getCacheHistory s' q)) ∨
      ((∀ block, c.target ≠ some (q, block)) ∧ getCacheHistory s' q = getCacheHistory s q) := by
  cases c with
  | addFee p block amount =>
    obtain ⟨hcfg, hw, hother⟩ := addFee_rewritten h
    refine ⟨by rw [hcfg], fun q => ?_⟩
    by_cases hq : q = p
    · subst hq
      exact .inl ⟨block, rfl, hw⟩
    · exact .inr ⟨fun b hc => hq (Prod.mk.inj (Option.some.inj hc)).1.symm, hother q hq⟩
  | clearCache p block =>
    cases h
    obtain ⟨hw, hother⟩ := writeCache_rewritten s p block 0
    refine ⟨rfl, fun q => ?_⟩
    by_cases hq : q = p
    · subst hq
      exact .inl ⟨block, rfl, hw⟩
    · exact .inr ⟨fun b hc => hq (Prod.mk.inj (Option.some.inj hc)).1.symm, hother q hq⟩
  | other s₁ =>
    simp only [feeStep] at h
    split at h
    · rename_i hsame
      cases h
      refine ⟨hsame.2, fun q => .inr ⟨(fun _ hc => nomatch hc), ?_⟩⟩
      rw [getCacheHistory, hsame.1]
      rfl
    · cases h

/-! ### Runs of calls -/

/-- Which blocks the calls write for a property. -/
def writesTo (calls : List FeeCall) (p : PropertyId) (block : Nat) : Prop :=
  ∃ c ∈ calls, c.target = some (p, block)

theorem run_debugFees (h : run feeStep s calls = some s') :
    s'.cfg.debugFees = s.cfg.debugFees :=
  run_invariant (I := fun t => t.cfg.debugFees = s.cfg.debugFees)
    (fun _ _ _ hi h => (feeStep_cases h).1.trans hi) rfl h

/-- Does the call find entries of the block too old? -/
def outdates (p : PropertyId) (k : Nat) (c : FeeCall) : Bool :=
  match c.target with
  | some (q, block) => q == p && decide (k + maxStateHistory < block)
  | none => false

theorem any_outdates_iff :
    calls.any (outdates p k) = true ↔ ∃ block, writesTo calls p block ∧ k + maxStateHistory < block := by
  rw [List.any_eq_true]
  constructor
  · rintro ⟨c, hc, ho⟩
    unfold outdates at ho
    split at ho
    · rename_i q block htarget
      rw [Bool.and_eq_true, beq_iff_eq, decide_eq_true_eq] at ho
      exact ⟨block, ⟨c, hc, ho.1 ▸ htarget⟩, ho.2⟩
    · cases ho
  · rintro ⟨block, ⟨c, hc, htarget⟩, hlt⟩
    exact ⟨c, hc, by simp [outdates, htarget, hlt]⟩

/-- Entries below all blocks written: they stay, unless a write finds them too
old. -/
theorem run_keeps
    (hk : ∀ block, writesTo calls p block → k < block) (h : run feeStep s calls = some s') :
    (getCacheHistory s' p).find? k =
      if (s.cfg.debugFees && calls.any (outdates p k)) = true then none
      else (getCacheHistory s p).find? k := by
  induction calls generalizing s with
  | nil =>
    cases h
    simp
  | cons c rest ih =>
    rw [run_cons, Option.bind_eq_some_iff] at h
    obtain ⟨s₁, h1, h2⟩ := h
    obtain ⟨hdebug, hcases⟩ := feeStep_cases h1
    have hrest : ∀ block, writesTo rest p block → k < block := fun block ⟨t, ht, hb⟩ =>
      hk block ⟨t, .tail _ ht, hb⟩
    rw [ih hrest h2, hdebug, List.any_cons]
    rcases hcases p with ⟨block, htarget, hw⟩ | ⟨hnot, hsame⟩
    · have hlt := hk block ⟨c, .head _, htarget⟩
      have hout : outdates p k c = decide (k + maxStateHistory < block) := by
        simp [outdates, htarget]
      rw [hw.others k (Nat.ne_of_lt hlt), hout]
      cases hd : s.cfg.debugFees with
      | false => simp
      | true =>
        by_cases hold : k + maxStateHistory < block
        · simp [hold]
        · simp [hold]
    · have hout : outdates p k c = false := by
        unfold outdates
        split
        · rename_i q block htarget
          have hq : q ≠ p := by
            rintro rfl
            exact hnot block htarget
          simp [hq]
        · rfl
      rw [hsame, hout, Bool.false_or]

theorem run_entries
    (hnew : (getCacheHistory s p).find? k = none) (h : run feeStep s calls = some s')
    (hsome : ((getCacheHistory s' p).find? k).isSome = true) : writesTo calls p k := by
  induction calls generalizing s with
  | nil =>
    cases h
    rw [hnew] at hsome
    cases hsome
  | cons c rest ih =>
    rw [run_cons, Option.bind_eq_some_iff] at h
    obtain ⟨s₁, h1, h2⟩ := h
    have hmore : ∀ {b}, writesTo rest p b → writesTo (c :: rest) p b := fun ⟨t, ht, hb⟩ =>
      ⟨t, .tail _ ht, hb⟩
    rcases (feeStep_cases h1).2 p with ⟨block, htarget, hw⟩ | ⟨-, hsame⟩
    · by_cases hk : k = block
      · exact ⟨c, .head _, hk ▸ htarget⟩
      · refine hmore (ih ?_ h2)
        rw [hw.others k hk, hnew, ite_self]
    · exact hmore (ih (hsame ▸ hnew) h2)

/-- Blocks never fall from one call to the next. -/
def Ascending (calls : List FeeCall) : Prop :=
  calls.Pairwise fun c c' => ∀ p b p' b', c.target = some (p, b) → c'.target = some (p', b') → b ≤ b'

theorem run_last
    (hord : Ascending calls) (h : run feeStep s calls = some s') (hblock : writesTo calls p block)
    (hmax : ∀ k', k < k' → (getCacheHistory s' p).find? k' = none) : block ≤ k := by
  induction calls generalizing s block with
  | nil =>
    obtain ⟨c, hc, -⟩ := hblock
    cases hc
  | cons c rest ih =>
    rw [run_cons, Option.bind_eq_some_iff] at h
    obtain ⟨s₁, h1, h2⟩ := h
    obtain ⟨hfirst, hord'⟩ := List.pairwise_cons.mp hord
    obtain ⟨t, ht, hb⟩ := hblock
    rcases List.mem_cons.mp ht with rfl | ht
    · by_cases hmore : ∃ b, writesTo rest p b
      · obtain ⟨b, t', ht', hb'⟩ := hmore
        exact (hfirst t' ht' p block p b hb hb').trans (ih hord' h2 ⟨t', ht', hb'⟩)
      · -- the last write of the property
        refine not_lt.mp fun hlt => ?_
        rcases (feeStep_cases h1).2 p with ⟨b, htarget, hw⟩ | ⟨hnot, -⟩
        · obtain rfl : b = block := (Prod.mk.inj (Option.some.inj (htarget.symm.trans hb))).2
          have hkeep := run_keeps (k := b) (fun b' hb' => absurd ⟨b', hb'⟩ hmore) h2
          have hfresh : rest.any (outdates p b) = false := by
            rw [Bool.eq_false_iff, Ne, any_outdates_iff]
            rintro ⟨b', hb', -⟩
            exact hmore ⟨b', hb'⟩
          rw [hfresh, Bool.and_false, if_neg (by simp), hmax b hlt] at hkeep
          have hwritten := hw.written
          rw [← hkeep] at hwritten
          cases hwritten
        · exact hnot block hb
    · exact ih hord' h2 ⟨t, ht, hb⟩

/-! ### What a rollback leaves -/

theorem getCacheHistory_rollBackProperty (s : State) (block : Nat) (p q : PropertyId) (k : Nat) :
    (getCacheHistory (rollBackProperty block s p) q).find? k =
      if q = p ∧ block ≤ k then none else (getCacheHistory s q).find? k := by
  unfold rollBackProperty
  split
  · rename_i hlast
    by_cases hq : q = p
    · subst hq
      rw [last?_eq_none_iff.mp hlast k, ite_self]
    · rw [if_neg fun h => hq h.1]
  · rename_i e hlast
    obtain ⟨L, v⟩ := e
    split
    · -- every entry is older than the block
      rename_i hold
      by_cases hk : q = p ∧ block ≤ k
      · obtain ⟨rfl, hk⟩ := hk
        rw [if_pos ⟨rfl, hk⟩, (last?_eq_some_iff.mp hlast).2 k (Nat.lt_of_lt_of_le hold hk)]
      · rw [if_neg hk]
    · rw [getCacheHistory, find?_insert]
      by_cases hq : q = p
      · subst hq
        rw [if_pos rfl, Option.getD_some, find?_filter]
        by_cases hk : block ≤ k
        · rw [if_pos ⟨rfl, hk⟩]
          simp [Nat.not_lt.mpr hk]
        · rw [if_neg fun h => hk h.2]
          cases (getCacheHistory s q).find? k with
          | none => rfl
          | some x => simp [Nat.lt_of_not_le hk]
      · rw [if_neg hq, if_neg fun h => hq h.1]
        rfl

theorem getCacheHistory_rollBackCache (hp : p ∈ visitedProperties s)
    (block k : Nat) :
    (getCacheHistory (rollBackCache s block) p).find? k =
      if block ≤ k then none else (getCacheHistory s p).find? k := by
  have hfold : ∀ (ps : List PropertyId) (t : State),
      (getCacheHistory (ps.foldl (rollBackProperty block) t) p).find? k =
        if p ∈ ps ∧ block ≤ k then none else (getCacheHistory t p).find? k := by
    intro ps
    induction ps with
    | nil =>
      intro t
      rw [if_neg fun h => List.not_mem_nil h.1]
      rfl
    | cons q rest ih =>
      intro t
      rw [List.foldl_cons, ih, getCacheHistory_rollBackProperty]
      by_cases hk : block ≤ k
      · by_cases hq : p = q
        · simp [hq, hk]
        · simp [hq]
      · simp [hk]
  rw [rollBackCache, hfold]
  simp [hp]

theorem cachedOf_eq_of_last {h : FeeHistory} {v : Int} (hk : h.find? k = some v)
    (hmax : ∀ k', k < k' → h.find? k' = none) : cachedOf h = v := by
  rw [cachedOf, last?_eq_some_iff.mpr ⟨hk, hmax⟩]
  rfl

theorem cachedOf_eq_zero {h : FeeHistory} (hnone : ∀ k, h.find? k = none) : cachedOf h = 0 := by
  rw [cachedOf, last?_eq_none_iff.mpr hnone]
  rfl

/-! ### The amount before the calls -/

section
variable {s₀ s₁ s₂ : State} {before after : List FeeCall} {b : Nat} {p : PropertyId}

theorem find?_rolledBack (hafter : run feeStep s₁ after = some s₂)
    (hlate : ∀ q block, writesTo after q block → b ≤ block) (hp : p ∈ visitedProperties s₂) (hk : k < b) :
    (getCacheHistory (rollBackCache s₂ b) p).find? k =
      if (s₁.cfg.debugFees && after.any (outdates p k)) = true then none
      else (getCacheHistory s₁ p).find? k := by
  rw [getCacheHistory_rollBackCache hp, if_neg (Nat.not_le.mpr hk)]
  exact run_keeps (fun block hb => Nat.lt_of_lt_of_le hk (hlate p block hb)) hafter

/-- **A rollback restores** the amount before the calls it undoes if and only if
debugging is off, or that amount is zero, or each of these calls is at most
`maxStateHistory` blocks after a call that stays. -/
theorem rollback_restores_iff (hempty : s₀.feeCache = ∅) (hbefore : run feeStep s₀ before = some s₁)
    (hafter : run feeStep s₁ after = some s₂) (hord : Ascending (before ++ after))
    (hearly : ∀ q block, writesTo before q block → block < b)
    (hlate : ∀ q block, writesTo after q block → b ≤ block) (hp : p ∈ visitedProperties s₂) :
    getCachedAmount (rollBackCache s₂ b) p = getCachedAmount s₁ p ↔
      s₀.cfg.debugFees = false ∨ getCachedAmount s₁ p = 0 ∨
        ∀ block, writesTo after p block → ∃ block', writesTo before p block' ∧ block ≤ block' + maxStateHistory := by
  have hnew : ∀ k, (getCacheHistory s₀ p).find? k = none := by
    intro k
    rw [getCacheHistory, hempty]
    rfl
  have hgone : ∀ k, b ≤ k → (getCacheHistory (rollBackCache s₂ b) p).find? k = none := by
    intro k hk
    rw [getCacheHistory_rollBackCache hp, if_pos hk]
  have hwritten : ∀ k, (getCacheHistory s₁ p).find? k ≠ none → writesTo before p k := fun k hk =>
    run_entries (hnew k) hbefore (Option.isSome_iff_ne_none.mpr hk)
  -- an entry that was not there is not there afterwards
  have hnone : ∀ k, (getCacheHistory s₁ p).find? k = none →
      (getCacheHistory (rollBackCache s₂ b) p).find? k = none := by
    intro k hk
    by_cases hb : b ≤ k
    · exact hgone k hb
    · rw [find?_rolledBack hafter hlate hp (Nat.lt_of_not_le hb), hk, ite_self]
  rw [getCachedAmount, getCachedAmount]
  cases hlast : (getCacheHistory s₁ p).last? with
  | none =>
    have hall := last?_eq_none_iff.mp hlast
    rw [cachedOf_eq_zero hall, cachedOf_eq_zero fun k => hnone k (hall k)]
    simp
  | some e =>
    obtain ⟨k, v⟩ := e
    obtain ⟨hk, hmax⟩ := last?_eq_some_iff.mp hlast
    have hkw : writesTo before p k := hwritten k (by rw [hk]; simp)
    have hkb : k < b := hearly p k hkw
    rw [cachedOf_eq_of_last hk hmax, ← run_debugFees hbefore]
    have hfind := find?_rolledBack hafter hlate hp hkb
    by_cases hout : (s₁.cfg.debugFees && after.any (outdates p k)) = true
    · -- the last entry is dropped, and with it all older ones
      have hzero : ∀ k', (getCacheHistory (rollBackCache s₂ b) p).find? k' = none := by
        intro k'
        by_cases hlt : k < k'
        · exact hnone k' (hmax k' hlt)
        · rw [find?_rolledBack hafter hlate hp (by omega), if_pos]
          rw [Bool.and_eq_true, any_outdates_iff] at hout ⊢
          obtain ⟨hdebug, block, hw, hage⟩ := hout
          exact ⟨hdebug, block, hw, by omega⟩
      rw [cachedOf_eq_zero hzero]
      rw [Bool.and_eq_true, any_outdates_iff] at hout
      obtain ⟨hdebug, block, hw, hage⟩ := hout
      constructor
      · exact fun h => .inr (.inl h.symm)
      · rintro (h | h | h)
        · rw [hdebug] at h
          cases h
        · exact h.symm
        · obtain ⟨block', hw', hnear⟩ := h block hw
          have hle := run_last (List.pairwise_append.mp hord).1 hbefore hw' hmax
          omega
    · rw [if_neg hout, hk] at hfind
      rw [cachedOf_eq_of_last hfind fun k' hlt => hnone k' (hmax k' hlt)]
      simp only [true_iff]
      cases hdebug : s₁.cfg.debugFees with
      | false => exact .inl rfl
      | true =>
        refine .inr (.inr fun block hw => ⟨k, hkw, ?_⟩)
        rw [hdebug, Bool.true_and, any_outdates_iff] at hout
        exact Nat.not_lt.mp fun hlt => hout ⟨block, hw, hlt⟩

end

/-- A node with fee debugging on, the property 3 and a threshold of 10 for its
fees. -/
def debuggingNode : State :=
  { cfg := { plainConfig .test with debugFees := true }
    params := consensusParams .test
    sp := { nextSpid := 4 }
    distributionThresholds := (∅ : OrdMap PropertyId Int).insert 3 10 }

theorem writesTo_addFee {q : PropertyId} {block' : Nat} {amount : Int}
    (h : writesTo [.addFee p block amount] q block') : q = p ∧ block' = block := by
  obtain ⟨c, hc, htarget⟩ := h
  rw [List.mem_singleton.mp hc] at htarget
  exact ⟨(Prod.mk.inj (Option.some.inj htarget)).1.symm, (Prod.mk.inj (Option.some.inj htarget)).2.symm⟩

theorem ascending_addFees {q : PropertyId} {block' : Nat} {x y : Int} (h : block ≤ block') :
    Ascending ([.addFee p block x] ++ [.addFee q block' y]) := by
  refine List.pairwise_pair.mpr fun p₁ b₁ p₂ b₂ h1 h2 => ?_
  rw [← (Prod.mk.inj (Option.some.inj h1)).2, ← (Prod.mk.inj (Option.some.inj h2)).2]
  exact h

/-- Twenty blocks apart, the fee before a rollback comes back. -/
theorem rollback_restores_near :
    ∃ s₁ s₂, run feeStep debuggingNode [.addFee 3 100 5] = some s₁ ∧
      run feeStep s₁ [.addFee 3 120 1] = some s₂ ∧
      getCachedAmount (rollBackCache s₂ 110) 3 = getCachedAmount s₁ 3 := by
  refine ⟨writeCache debuggingNode 3 100 5, writeCache (writeCache debuggingNode 3 100 5) 3 120 6,
    rfl, rfl, ?_⟩
  refine (@rollback_restores_iff debuggingNode _ _ [.addFee 3 100 5] [.addFee 3 120 1] 110 3
    rfl rfl rfl (ascending_addFees (by decide)) ?_ ?_ (by decide)).mpr ?_
  · intro q block hw
    rw [(writesTo_addFee hw).2]
    decide
  · intro q block hw
    rw [(writesTo_addFee hw).2]
    decide
  · refine .inr (.inr fun block hw => ⟨100, ⟨_, List.mem_singleton.mpr rfl, rfl⟩, ?_⟩)
    rw [(writesTo_addFee hw).2]
    decide

/-- A hundred blocks apart, the second write has dropped the first one, and a
rollback of the second block leaves nothing of the first fee. -/
theorem rollback_loses_fee :
    ¬ ∀ (s₀ s₁ s₂ : State) (before after : List FeeCall) (b e : Nat) (p : PropertyId),
      s₀.feeCache = ∅ → run feeStep s₀ before = some s₁ → run feeStep s₁ after = some s₂ →
      Ascending (before ++ after) → (∀ q block, writesTo before q block → block < b) →
      (∀ q block, writesTo after q block → b ≤ block ∧ block ≤ e) → e ≤ b + maxStateHistory → b ≤ e →
      p ∈ visitedProperties s₂ → getCachedAmount (rollBackCache s₂ b) p = getCachedAmount s₁ p := by
  intro h
  have hlost := h debuggingNode (writeCache debuggingNode 3 100 5)
    (writeCache (writeCache debuggingNode 3 100 5) 3 200 6) [.addFee 3 100 5] [.addFee 3 200 1] 200 200 3
    rfl rfl rfl (ascending_addFees (by decide)) (fun q block hw => by rw [(writesTo_addFee hw).2]; decide)
    (fun q block hw => by rw [(writesTo_addFee hw).2]; decide) (by decide) (by decide) (by decide)
  revert hlost
  decide

end Rapids.Token
