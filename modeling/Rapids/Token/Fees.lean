import Rapids.Token.SpInfo

/-!
# Rapids.Token.Fees

**Pro-rata distribution** (`sto.cpp`), the **fee cache** (`dbfees.cpp`) and the
total supply they preserve.

The cache keeps, for each property, the cached amount after every block that
changed it; the current amount is the entry of the highest block. A write in a
block therefore only takes effect while no entry of a later block exists,
which is `FeesUpTo`. A distribution pays the cached amount out to the owners of
the ecosystem's reserved token and zeroes it.

`supply` is the sum the whole development is about: every bucket but the
pending one, over all addresses, and the cached fee. `FeeStep` says what the
fee operations do to it.
-/

namespace Rapids.Token

open Rapids.Lib OrdMap

variable {s s' : State} {p : PropertyId} {block : Nat} {amount x : Int} {who : Address} {tt : TallyType}

/-! ### 256-bit helpers -/

/-- `ConvertTo256` asserts that the number is not negative. -/
def convertTo256 (x : Int) : Option Nat := if x < 0 then none else some x.toNat

/-- `ConvertTo64` asserts that the number fits. -/
def convertTo64 (x : Nat) : Option Int := if maxInt8Bytes < x then none else some x

/-- `DivideAndRoundUp`; dividing by zero throws. -/
def divideAndRoundUp (numerator denominator : Nat) : Option Nat :=
  if numerator = 0 then some 0
  else if denominator = 0 then none
  else some (1 + (numerator - 1) / denominator)

theorem convertTo64_spec {x : Nat} {y : Int} (h : convertTo64 x = some y) :
    y = x ∧ x ≤ maxInt8Bytes := by
  unfold convertTo64 at h
  split_ifs at h with hx
  exact ⟨by simpa using h.symm, not_lt.mp hx⟩

theorem convertTo256_spec {y : Nat} (h : convertTo256 x = some y) :
    (y : Int) = x := by
  unfold convertTo256 at h
  split_ifs at h with hx
  simp only [Option.some.injEq] at h
  omega

/-! ### Owners and their shares -/

/-- Traversal order of an `OwnerAddrType` from its end: larger amounts first,
equal amounts by ascending address. -/
def ownerBefore (a b : Int × Address) : Prop := b.1 < a.1 ∨ (a.1 = b.1 ∧ a.2 ≤ b.2)

instance : DecidableRel ownerBefore := fun a b =>
  inferInstanceAs (Decidable (b.1 < a.1 ∨ (a.1 = b.1 ∧ a.2 ≤ b.2)))

/-- What every address but the sender owns of a property, in the order of the
tally map. -/
def ownersOf (s : State) (sender : Address) (p : PropertyId) : List (Int × Address) :=
  (s.tally.entries.filter fun e => e.1 != sender).map fun e => (CMPTally.owned e.2 p, e.1)

/-- The shares, largest owner first, until the amount is used up. -/
def stoAllocate (amount totalTokens : Int) :
    List (Int × Address) → Int → Option (List (Int × Address))
  | [], _ => some []
  | (owns, address) :: rest, sent => do
    let temp := (← convertTo256 owns) * (← convertTo256 amount)
    let shouldReceive ← convertTo64 (← divideAndRoundUp temp (← convertTo256 totalTokens))
    let willReallyReceive := if amount - sent < shouldReceive then amount - sent else shouldReceive
    if 0 < willReallyReceive then
      let more ← stoAllocate amount totalTokens rest (sent + willReallyReceive)
      return (willReallyReceive, address) :: more
    else return []

/-- The receivers and what they get, in the order the callers pay them. -/
def stoGetReceivers (s : State) (sender : Address) (p : PropertyId) (amount : Int) :
    Option (List (Int × Address)) := do
  let all := ownersOf s sender p
  let totalTokens := (all.map Prod.fst).sum
  let owners := (all.filter fun o => decide (0 < o.1)).insertionSort ownerBefore
  let receivers ← stoAllocate amount totalTokens owners 0
  return receivers.insertionSort ownerBefore

/-- Credit each receiver's balance. -/
def creditReceivers (s : State) (p : PropertyId) : List (Int × Address) → Option State
  | [] => some s
  | (amount, address) :: rest => do
    let s ← assertTally s address p amount .balance
    creditReceivers s p rest

/-! ### The fee cache -/

/-- `MAX_STATE_HISTORY` -/
def maxStateHistory : Nat := 50

/-- `TOKEN_FEE_THRESHOLD` -/
def tokenFeeThreshold : Int := 100000

/-- Cached fees by block. -/
abbrev FeeHistory := OrdMap Nat Int

def getCacheHistory (s : State) (p : PropertyId) : FeeHistory := (s.feeCache.find? p).getD ∅

/-- The most recent entry; nothing for a property that never generated a fee. -/
def cachedOf (h : FeeHistory) : Int := (h.last?.map Prod.snd).getD 0

def getCachedAmount (s : State) (p : PropertyId) : Int :=
  cachedOf (getCacheHistory s p)

/-- `getTotalTokens` -/
def getTotalTokens (s : State) (p : PropertyId) : Int :=
  match getSP s p with
  | none => 0
  | some e => if e.fixed then e.numTokens else held s.tally p + getCachedAmount s p

/-- Is a history entry too old to be kept? -/
def isMatured (block : Nat) (e : Nat × Int) : Bool := decide (e.1 + maxStateHistory < block)

/-- Drop matured entries, but never all of them. The source drops them only
while fee debugging is on. -/
def pruneHistory (h : FeeHistory) (debug : Bool) (block : Nat) : FeeHistory :=
  match h.entries with
  | [] => h
  | first :: _ =>
    if !isMatured block first then h
    else
      let kept := h.filter fun e => !(isMatured block e && debug)
      if kept.entries.isEmpty then h.filter fun e => some e == h.last? else kept

/-- Write a property's cached amount for a block, then prune. -/
def writeCache (s : State) (p : PropertyId) (block : Nat) (amount : Int) : State :=
  let h := (getCacheHistory s p).insert block amount
  { s with feeCache := s.feeCache.insert p (pruneHistory h s.cfg.debugFees block) }

def clearCache (s : State) (p : PropertyId) (block : Nat) : State := writeCache s p block 0

/-- `RecordFeeDistribution` -/
def recordFeeDistribution (s : State) (d : FeeDistribution) : State :=
  { s with feeHistory := s.feeHistory ++ [d] }

/-- Pay the cached fee out to the owners of the ecosystem's reserved token. -/
def distributeCache (s : State) (p : PropertyId) (block : Nat) : Option State := do
  let cachedAmount := getCachedAmount s p
  let source := if isTestEcosystemProperty p then propertyTMSC else propertyMSC
  let receivers ← stoGetReceivers s "FEEDISTRIBUTION" source cachedAmount
  let s ← creditReceivers s p receivers
  let sent := (receivers.map Prod.fst).sum
  let s := recordFeeDistribution s ⟨p, block, sent, receivers⟩
  if sent = cachedAmount then return clearCache s p block else none

/-- Distribute once the threshold is reached; a property without a threshold
has threshold 0. -/
def evalCache (s : State) (p : PropertyId) (block : Nat) : Option State :=
  if (s.distributionThresholds.find? p).getD 0 ≤ getCachedAmount s p then distributeCache s p block
  else some s

/-- Add a fee. On overflow the node is shut down. -/
def addFee (s : State) (p : PropertyId) (block : Nat) (amount : Int) : Option State :=
  let current := getCachedAmount s p
  if 0 < current ∧ i64Max - current < amount then none
  else evalCache (writeCache s p block (current + amount)) p block

/-- A hundred-thousandth of all tokens, at least one. -/
def updateDistributionThresholds (s : State) (p : PropertyId) : State :=
  let threshold := (getTotalTokens s p).tdiv tokenFeeThreshold
  { s with distributionThresholds :=
      s.distributionThresholds.insert p (if threshold ≤ 0 then 1 else threshold) }

/-- `NotifyTotalTokensChanged` -/
def notifyTotalTokensChanged (s : State) (p : PropertyId) (block : Nat) : Option State :=
  evalCache (updateDistributionThresholds s p) p block

/-! ### Supply -/

/-- All tokens of a property: every bucket but the pending one, and the cached
fee. -/
def supply (s : State) (p : PropertyId) : Int := held s.tally p + getCachedAmount s p

/-- No cached fee belongs to a block after `block`. -/
def FeesUpTo (s : State) (block : Nat) : Prop :=
  ∀ p e, e ∈ (getCacheHistory s p).entries → e.1 ≤ block

theorem FeesUpTo.mono {b b' : Nat} (h : FeesUpTo s b) (hb : b ≤ b') :
    FeesUpTo s b' :=
  fun p e he => (h p e he).trans hb

/-- Every bucket fits 64 bits, and nothing but pending amounts is negative. -/
structure Solvent (s : State) : Prop where
  nonneg : ∀ a q t, t ≠ .pending → 0 ≤ getTokenBalance s a q t
  fits : ∀ a q t, getTokenBalance s a q t ≤ i64Max
  cached : ∀ q, 0 ≤ getCachedAmount s q

theorem Solvent.of_eq (hs : Solvent s)
    (hbal : ∀ a q t, getTokenBalance s' a q t = getTokenBalance s a q t)
    (hcached : ∀ q, getCachedAmount s' q = getCachedAmount s q) : Solvent s' :=
  ⟨fun a q t ht => (hbal a q t).symm ▸ hs.nonneg a q t ht, fun a q t => (hbal a q t).symm ▸ hs.fits a q t,
    fun q => (hcached q).symm ▸ hs.cached q⟩

/-! ### Writing the cache -/

theorem last?_pruneHistory {h : FeeHistory} {debug : Bool}
    (hl : h.last? = some (block, x)) : (pruneHistory h debug block).last? = some (block, x) := by
  have hm : isMatured block (block, x) = false := by simp [isMatured]
  unfold pruneHistory
  split
  · exact hl
  · split
    · exact hl
    · have hk : (h.filter fun e => !(isMatured block e && debug)).last? = some (block, x) :=
        last?_filter hl (by simp [hm])
      dsimp only
      split
      · exact last?_filter hl (by simp [hl])
      · exact hk

theorem mem_of_mem_pruneHistory {h : FeeHistory} {debug : Bool} {e : Nat × Int}
    (he : e ∈ (pruneHistory h debug block).entries) : e ∈ h.entries := by
  unfold pruneHistory at he
  split at he
  · exact he
  · split at he
    · exact he
    · dsimp only at he
      split at he <;> exact List.mem_of_mem_filter he

theorem getCacheHistory_writeCache (s : State) (p q : PropertyId) (block : Nat) (x : Int) :
    getCacheHistory (writeCache s p block x) q =
      if q = p then pruneHistory ((getCacheHistory s p).insert block x) s.cfg.debugFees block
      else getCacheHistory s q := by
  simp only [getCacheHistory, writeCache, find?_insert]
  split_ifs <;> rfl

theorem getCachedAmount_writeCache {q : PropertyId}
    (h : FeesUpTo s block) :
    getCachedAmount (writeCache s p block x) q = if q = p then x else getCachedAmount s q := by
  rw [getCachedAmount, getCacheHistory_writeCache]
  by_cases hq : q = p
  · subst hq
    have hl := last?_insert (v := x) (h q)
    simp [cachedOf, last?_pruneHistory hl]
  · simp [hq, getCachedAmount]

theorem feesUpTo_writeCache (h : FeesUpTo s block) : FeesUpTo (writeCache s p block x) block := by
  intro q e he
  rw [getCacheHistory_writeCache] at he
  split_ifs at he with hq
  · rcases mem_insertEntry (mem_of_mem_pruneHistory he) with rfl | he'
    · exact le_rfl
    · exact h p e he'
  · exact h q e he

/-! ### What the fee operations do -/

/-- A step that moves tokens between balances and the fee cache, and adds
`minted q` tokens of each property `q`, provided that the cache has no entry of
a later block. -/
structure FeeStep (s s' : State) (block : Nat) (minted : PropertyId → Int) : Prop where
  frame : s' = { s with
    tally := s'.tally
    feeCache := s'.feeCache
    distributionThresholds := s'.distributionThresholds
    feeHistory := s'.feeHistory }
  /-- Reserves and pending amounts stay. -/
  reserves : ∀ a q t, t ≠ .balance → getTokenBalance s' a q t = getTokenBalance s a q t
  supply : FeesUpTo s block → ∀ q, supply s' q = supply s q + minted q
  feesUpTo : FeesUpTo s block → FeesUpTo s' block
  solvent : FeesUpTo s block → Solvent s → Solvent s'

theorem FeeStep.refl (s : State) (block : Nat) : FeeStep s s block fun _ => 0 :=
  ⟨rfl, fun _ _ _ _ => rfl, fun _ _ => by simp, id, fun _ => id⟩

theorem FeeStep.trans {s₁ s₂ s₃ : State} {f g k : PropertyId → Int}
    (h : FeeStep s₁ s₂ block f) (h' : FeeStep s₂ s₃ block g) (hk : ∀ q, k q = f q + g q) :
    FeeStep s₁ s₃ block k := by
  refine ⟨?_, fun a q t ht => ?_, fun hf q => ?_, fun hf => h'.feesUpTo (h.feesUpTo hf),
    fun hf hs => h'.solvent (h.feesUpTo hf) (h.solvent hf hs)⟩
  · rw [h'.frame, h.frame]
  · rw [h'.reserves a q t ht, h.reserves a q t ht]
  · rw [h'.supply (h.feesUpTo hf), h.supply hf, hk]
    omega

section
variable (h : TallyStep s s' who p amount tt)
include h

theorem TallyStep.getCachedAmount_eq (q : PropertyId) :
    getCachedAmount s' q = getCachedAmount s q := by
  rw [h.frame]
  rfl

theorem TallyStep.getCacheHistory_eq (q : PropertyId) :
    getCacheHistory s' q = getCacheHistory s q := by
  rw [h.frame]
  rfl

theorem TallyStep.supply_eq (q : PropertyId) :
    Token.supply s' q = Token.supply s q + if q = p ∧ tt ≠ .pending then amount else 0 := by
  rw [Token.supply, Token.supply, h.held, h.getCachedAmount_eq]
  omega

theorem TallyStep.feesUpTo (hf : FeesUpTo s block) :
    FeesUpTo s' block := by
  intro q e he
  rw [h.getCacheHistory_eq] at he
  exact hf q e he

theorem TallyStep.solvent (hs : Solvent s) : Solvent s' := by
  refine ⟨fun a q t ht => ?_, fun a q t => ?_, fun q => ?_⟩
  · rw [h.balance]
    split_ifs with hc
    · obtain ⟨rfl, rfl, rfl⟩ := hc
      exact h.nonneg ht
    · simpa using hs.nonneg a q t ht
  · have hfit := hs.fits a q t
    rw [h.balance]
    split_ifs with hc
    · obtain ⟨rfl, rfl, rfl⟩ := hc
      rcases lt_or_gt_of_ne h.amount_ne with hneg | hpos
      · omega
      · exact h.credit_fits hpos
    · simpa using hfit
  · rw [h.getCachedAmount_eq]
    exact hs.cached q

end

theorem TallyStep.feeStep (h : TallyStep s s' who p amount .balance) (block : Nat) :
    FeeStep s s' block fun q => if q = p then amount else 0 := by
  refine ⟨?_, fun a q t ht => ?_, fun _ q => ?_, fun hf => h.feesUpTo hf, fun _ => h.solvent⟩
  · rw [h.frame]
  · rw [h.balance]
    simp [ht]
  · rw [h.supply_eq]
    simp

/-- `s'` is `s` with `amount` moved from one bucket to another. -/
structure Moved (s s' : State) (p : PropertyId) (amount : Int) (src dst : Bucket) : Prop where
  frame : s' = { s with tally := s'.tally }
  balance : ∀ a q t, getTokenBalance s' a q t = getTokenBalance s a q t +
    (if (a, t) = dst ∧ q = p then amount else 0) - (if (a, t) = src ∧ q = p then amount else 0)
  supply : ∀ q, supply s' q = supply s q
  solvent : Solvent s → Solvent s'

variable {src dst : Bucket}

theorem transferTally_moved
    (hsrc : src.2 ≠ .pending) (hdst : dst.2 ≠ .pending)
    (h : transferTally s p amount src dst = some s') : Moved s s' p amount src dst := by
  simp only [transferTally, do_eq_some] at h
  obtain ⟨s₁, h1, h2⟩ := h
  have st₁ := assertTally_spec h1
  have st₂ := assertTally_spec h2
  refine ⟨?_, fun a q t => ?_, fun q => ?_, fun hs => st₂.solvent (st₁.solvent hs)⟩
  · rw [st₂.frame, st₁.frame]
  · rw [st₂.balance, st₁.balance]
    obtain ⟨a₁, t₁⟩ := src
    obtain ⟨a₂, t₂⟩ := dst
    simp only [Prod.mk.injEq]
    have hd : (a = a₂ ∧ q = p ∧ t = t₂) ↔ ((a = a₂ ∧ t = t₂) ∧ q = p) := by tauto
    have hs : (a = a₁ ∧ q = p ∧ t = t₁) ↔ ((a = a₁ ∧ t = t₁) ∧ q = p) := by tauto
    simp only [hd, hs]
    split_ifs <;> omega
  · rw [st₂.supply_eq, st₁.supply_eq]
    by_cases hq : q = p <;> simp [hq, hsrc, hdst]

theorem Moved.refl : Moved s s p 0 src dst :=
  ⟨rfl, fun _ _ _ => by simp, fun _ => rfl, id⟩

theorem Moved.getCacheHistory_eq
    (h : Moved s s' p amount src dst) (q : PropertyId) :
    getCacheHistory s' q = getCacheHistory s q := by
  rw [h.frame]
  rfl

theorem writeCache_feeStep (hx : Solvent s → 0 ≤ x) :
    FeeStep s (writeCache s p block x) block
      fun q => if q = p then x - getCachedAmount s p else 0 := by
  refine ⟨rfl, fun _ _ _ _ => rfl, fun h q => ?_, feesUpTo_writeCache,
    fun h hs => ⟨hs.nonneg, hs.fits, fun q => ?_⟩⟩
  · rw [supply, supply, getCachedAmount_writeCache h]
    by_cases hq : q = p
    · subst hq
      simp [writeCache]
    · simp [hq, writeCache]
  · rw [getCachedAmount_writeCache h]
    split_ifs
    · exact hx hs
    · exact hs.cached q

theorem creditReceivers_frame {rs : List (Int × Address)}
    (h : creditReceivers s p rs = some s') : s' = { s with tally := s'.tally } := by
  induction rs generalizing s with
  | nil =>
    simp only [creditReceivers, Option.some.injEq] at h
    rw [h]
  | cons r rest ih =>
    obtain ⟨amount, address⟩ := r
    simp only [creditReceivers, do_eq_some] at h
    obtain ⟨s₁, h1, h2⟩ := h
    rw [ih h2, (assertTally_spec h1).frame]

theorem creditReceivers_feeStep {rs : List (Int × Address)}
    (block : Nat) (h : creditReceivers s p rs = some s') :
    FeeStep s s' block fun q => if q = p then (rs.map Prod.fst).sum else 0 := by
  induction rs generalizing s with
  | nil =>
    simp only [creditReceivers, Option.some.injEq] at h
    subst h
    simpa using FeeStep.refl s block
  | cons r rest ih =>
    obtain ⟨amount, address⟩ := r
    simp only [creditReceivers, do_eq_some] at h
    obtain ⟨s₁, h1, h2⟩ := h
    have st := assertTally_spec h1
    refine (st.feeStep block).trans (ih h2) fun q => ?_
    by_cases hq : q = p <;> simp [hq]

theorem recordFeeDistribution_feeStep (s : State) (d : FeeDistribution) (block : Nat) :
    FeeStep s (recordFeeDistribution s d) block fun _ => 0 :=
  ⟨rfl, fun _ _ _ _ => rfl, fun _ _ => (Int.add_zero _).symm, id,
    fun _ hs => hs.of_eq (fun _ _ _ => rfl) fun _ => rfl⟩

theorem distributeCache_feeStep (h : distributeCache s p block = some s') :
    FeeStep s s' block fun _ => 0 := by
  simp only [distributeCache, do_eq_some] at h
  obtain ⟨receivers, -, s₁, h1, h⟩ := h
  split_ifs at h with hsum
  simp only [Option.pure_def, Option.some.injEq] at h
  subst h
  have st := (creditReceivers_feeStep block h1).trans
    (recordFeeDistribution_feeStep s₁ ⟨p, block, (receivers.map Prod.fst).sum, receivers⟩ block)
    fun q => (Int.add_zero _).symm
  refine st.trans (writeCache_feeStep fun _ => le_rfl) fun q => ?_
  have hc : getCachedAmount (recordFeeDistribution s₁
      ⟨p, block, (receivers.map Prod.fst).sum, receivers⟩) p = getCachedAmount s p := by
    rw [creditReceivers_frame h1]
    rfl
  by_cases hq : q = p
  · rw [if_pos hq, if_pos hq, hc, hsum]
    omega
  · simp [hq]

theorem evalCache_feeStep (h : evalCache s p block = some s') :
    FeeStep s s' block fun _ => 0 := by
  unfold evalCache at h
  split_ifs at h
  · exact distributeCache_feeStep h
  · simp only [Option.some.injEq] at h
    subst h
    exact FeeStep.refl s block

theorem addFee_feeStep (ha : 0 ≤ amount) (h : addFee s p block amount = some s') :
    FeeStep s s' block fun q => if q = p then amount else 0 := by
  unfold addFee at h
  dsimp only at h
  split_ifs at h
  have hw : FeeStep s (writeCache s p block (getCachedAmount s p + amount)) block _ :=
    writeCache_feeStep fun hs => by
      have := hs.cached p
      omega
  refine hw.trans (evalCache_feeStep h) fun q => ?_
  by_cases hq : q = p <;> simp [hq]

theorem notifyTotalTokensChanged_feeStep (h : notifyTotalTokensChanged s p block = some s') :
    FeeStep s s' block fun _ => 0 := by
  have h0 : FeeStep s (updateDistributionThresholds s p) block fun _ => 0 :=
    ⟨rfl, fun _ _ _ _ => rfl, fun _ q => by simp [supply, updateDistributionThresholds,
      getCachedAmount, getCacheHistory], id, fun _ hs => hs.of_eq (fun _ _ _ => rfl) fun _ => rfl⟩
  exact h0.trans (evalCache_feeStep h) fun _ => by simp

end Rapids.Token
