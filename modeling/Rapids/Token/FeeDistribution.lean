import Rapids.Token.Book
import Rapids.Token.OwnerShares

/-!
# Rapids.Token.FeeDistribution

**Evaluating the fee cache**: the operations of `CTokenFeeCache` that may distribute it.

`AddFee` and `NotifyTotalTokensChanged` compare the cached amount of a property with its
threshold. An amount that is **due** goes to the holders of the reserved token of the
property's ecosystem, split as in `Rapids.Token.OwnerShares`, so that all of it is handed
out, provided that there is a holder. The source says that there always is one. Where there
is none, nothing is handed out, and `assert(sent_so_far == cachedAmount)` fails.
-/

namespace Rapids.Token

open Rapids.Lib

/-! ### Outcomes -/

/-- The reserved token whose holders receive the fees of a property. -/
def baseToken (p : PropertyId) : PropertyId :=
  if isTestEcosystemProperty p then propertyTMSC else propertyMSC

/-- Someone holds it, other than the name that stands for the distribution. -/
def BaseHeld (s : State) (p : PropertyId) : Prop :=
  ∃ a, a ≠ "FEEDISTRIBUTION" ∧ 0 < holding s.tally a (baseToken p)

/-- The operations that evaluate the cache of a property in a block. -/
inductive FeeOp
  | addFee (amount : Int)
  | notify

/-- Carry it out. -/
def FeeOp.call (s : State) (p : PropertyId) (block : Nat) : FeeOp → Option State
  | .addFee amount => Rapids.Token.addFee s p block amount
  | .notify => notifyTotalTokensChanged s p block

/-- The cached amount that is evaluated. -/
def FeeOp.amount (s : State) (p : PropertyId) : FeeOp → Int
  | .addFee amount => getCachedAmount s p + amount
  | .notify => getCachedAmount s p

/-- The threshold it is compared with. -/
def FeeOp.threshold (s : State) (p : PropertyId) : FeeOp → Int
  | .addFee _ => (s.distributionThresholds.find? p).getD 0
  | .notify => ((updateDistributionThresholds s p).distributionThresholds.find? p).getD 0

/-- Something is cached, and it reaches the threshold. -/
def FeeOp.IsDue (s : State) (p : PropertyId) (op : FeeOp) : Prop :=
  op.threshold s p ≤ op.amount s p ∧ 0 < op.amount s p

/-- What an address receives. -/
def receivedBy (rs : List (Int × Address)) (a : Address) : Int :=
  ((rs.filter fun r => r.2 == a).map Prod.fst).sum

/-- `s'` is `s` with the amount distributed exactly: split between the holders of the
reserved token, credited, recorded, and no longer cached. -/
structure Distributed (s s' : State) (p : PropertyId) (block : Nat) (amount : Int) : Prop where
  receivers : ∃ rs, ExactShares s.tally "FEEDISTRIBUTION" (baseToken p) amount rs ∧
    (∀ a q t, getTokenBalance s' a q t =
      getTokenBalance s a q t + if q = p ∧ t = .balance then receivedBy rs a else 0) ∧
    s'.feeHistory = s.feeHistory ++ [⟨p, block, amount, rs⟩]
  cached : ∀ q, getCachedAmount s' q = if q = p then 0 else getCachedAmount s q

/-- No tokens moved, and the amount is cached. -/
structure Unmoved (s s' : State) (p : PropertyId) (amount : Int) : Prop where
  balance : ∀ a q t, getTokenBalance s' a q t = getTokenBalance s a q t
  cached : ∀ q, getCachedAmount s' q = if q = p then amount else getCachedAmount s q

/-- **What is expected of an evaluation**: it completes, and distributes the amount exactly
if it is due. -/
def Settles (s : State) (p : PropertyId) (block : Nat) (op : FeeOp) : Prop :=
  ∃ s', op.call s p block = some s' ∧
    ((op.IsDue s p ∧ Distributed s s' p block (op.amount s p)) ∨
      (¬ op.IsDue s p ∧ Unmoved s s' p (op.amount s p)))

section
variable {s s' : State} {p : PropertyId} {block : Nat} {rs : List (Int × Address)}

/-! ### Credits -/

theorem receivedBy_cons (r : Int × Address) (a : Address) :
    receivedBy (r :: rs) a = (if a = r.2 then r.1 else 0) + receivedBy rs a := by
  unfold receivedBy
  rw [List.filter_cons]
  by_cases ha : a = r.2
  · rw [if_pos ha, if_pos (by simp [ha]), List.map_cons, List.sum_cons]
  · rw [if_neg ha, if_neg (by simpa using Ne.symm ha), zero_add]

theorem creditReceivers_balance (h : creditReceivers s p rs = some s') (a : Address) (q : PropertyId)
    (t : TallyType) : getTokenBalance s' a q t =
      getTokenBalance s a q t + if q = p ∧ t = .balance then receivedBy rs a else 0 := by
  induction rs generalizing s with
  | nil =>
    cases h
    simp [receivedBy]
  | cons r rest ih =>
    obtain ⟨amount, address⟩ := r
    simp only [creditReceivers, do_eq_some] at h
    obtain ⟨s₁, h1, h⟩ := h
    rw [ih h, (assertTally_spec h1).balance, receivedBy_cons]
    by_cases hbucket : q = p ∧ t = .balance
    · rw [if_pos hbucket, if_pos hbucket]
      by_cases ha : a = address
      · rw [if_pos ⟨ha, hbucket⟩, if_pos ha]
        omega
      · rw [if_neg fun hc => ha hc.1, if_neg ha]
        omega
    · rw [if_neg hbucket, if_neg hbucket, if_neg fun hc => hbucket hc.2]
      omega

theorem creditReceivers_isSome (hs : Solvent s) (hpos : ∀ r ∈ rs, 1 ≤ r.1)
    (hroom : ∀ a, getTokenBalance s a p .balance + (rs.map Prod.fst).sum ≤ i64Max) :
    ∃ s', creditReceivers s p rs = some s' := by
  induction rs generalizing s with
  | nil => exact ⟨s, rfl⟩
  | cons r rest ih =>
    obtain ⟨amount, address⟩ := r
    have hamount : 1 ≤ amount := hpos _ (.head _)
    have hrest : ∀ r ∈ rest, 1 ≤ r.1 := fun r hr => hpos r (.tail _ hr)
    have hsum : 0 ≤ (rest.map Prod.fst).sum := by
      refine List.sum_nonneg fun x hx => ?_
      obtain ⟨r, hr, rfl⟩ := List.mem_map.mp hx
      have := hrest r hr
      omega
    have hbal := hs.nonneg address p .balance (by decide)
    have hfit := hroom address
    rw [List.map_cons, List.sum_cons] at hfit
    obtain ⟨s₁, h1⟩ := @assertTally_isSome s address p amount .balance (by omega) (fun _ => by omega)
      (fun _ => by omega) (fun _ => by omega) (fun _ _ => by omega)
    have st := assertTally_spec h1
    obtain ⟨s', h'⟩ := ih (st.solvent hs) hrest fun a => by
      have hle := hroom a
      rw [List.map_cons, List.sum_cons] at hle
      rw [st.balance]
      split_ifs <;> omega
    exact ⟨s', by simp [creditReceivers, h1, h']⟩

/-! ### Distributing -/

theorem Solvent.nonnegTally (hs : Solvent s) : NonnegTally s.tally := by
  intro a t ha q tt htt
  have hbucket := hs.nonneg a q tt htt
  rwa [getTokenBalance, ha] at hbucket

theorem baseHeld_iff (hs : Solvent s) :
    BaseHeld s p ↔ 0 < heldByOthers s.tally "FEEDISTRIBUTION" (baseToken p) :=
  (heldByOthers_pos_iff hs.nonnegTally).symm

theorem baseHeld_congr
    (h : ∀ a t, getTokenBalance s' a (baseToken p) t = getTokenBalance s a (baseToken p) t) :
    BaseHeld s' p ↔ BaseHeld s p := by
  have hholding : ∀ (x : State) a, holding x.tally a (baseToken p) =
      getTokenBalance x a (baseToken p) .balance + getTokenBalance x a (baseToken p) .sellofferReserve +
        getTokenBalance x a (baseToken p) .acceptReserve + getTokenBalance x a (baseToken p) .metadexReserve := by
    intro x a
    unfold holding getTokenBalance
    cases x.tally.find? a <;> rfl
  simp [BaseHeld, hholding, h]

theorem distributeCache_eq (hs : Solvent s) (hfits : getCachedAmount s p ≤ i64Max) :
    distributeCache s p block =
      (creditReceivers s p (shares s.tally "FEEDISTRIBUTION" (baseToken p) (getCachedAmount s p))).bind
        fun s₁ =>
          if ((shares s.tally "FEEDISTRIBUTION" (baseToken p) (getCachedAmount s p)).map Prod.fst).sum =
              getCachedAmount s p then
            some (clearCache (recordFeeDistribution s₁ ⟨p, block,
              ((shares s.tally "FEEDISTRIBUTION" (baseToken p) (getCachedAmount s p)).map Prod.fst).sum,
              shares s.tally "FEEDISTRIBUTION" (baseToken p) (getCachedAmount s p)⟩) p block)
          else none := by
  have hreceivers := @stoReceivers_eq s.tally s.tally.entries "FEEDISTRIBUTION" (baseToken p) _ hs.nonnegTally
    (hs.cached p) hfits (List.Perm.refl _)
  rw [← stoGetReceivers_eq] at hreceivers
  unfold baseToken at hreceivers ⊢
  simp [distributeCache, hreceivers]

theorem clearCache_cached (hf : FeesUpTo s block) (q : PropertyId) :
    getCachedAmount (clearCache s p block) q = if q = p then 0 else getCachedAmount s q :=
  getCachedAmount_writeCache hf

theorem distributeCache_distributed (hs : Solvent s) (hf : FeesUpTo s block) (hheld : BaseHeld s p)
    (hpos : 0 < getCachedAmount s p)
    (hroom : ∀ a, getTokenBalance s a p .balance + getCachedAmount s p ≤ i64Max) :
    ∃ s', distributeCache s p block = some s' ∧ Distributed s s' p block (getCachedAmount s p) := by
  have hfits : getCachedAmount s p ≤ i64Max := by
    have hbal := hs.nonneg "" p .balance (by decide)
    have hle := hroom ""
    omega
  have hexact := shares_exact hs.nonnegTally ((baseHeld_iff hs).mp hheld) hpos
  have hsum := hexact.sum
  obtain ⟨s₁, h1⟩ := creditReceivers_isSome hs (fun r hr => (hexact.bounded r hr).1) fun a => by
    rw [hsum]
    exact hroom a
  have hframe := creditReceivers_frame h1
  set rs := shares s.tally "FEEDISTRIBUTION" (baseToken p) (getCachedAmount s p) with hrs
  have hf1 : FeesUpTo (recordFeeDistribution s₁ ⟨p, block, (rs.map Prod.fst).sum, rs⟩) block := by
    rw [hframe]
    exact hf
  refine ⟨clearCache (recordFeeDistribution s₁ ⟨p, block, (rs.map Prod.fst).sum, rs⟩) p block, ?_,
    ⟨rs, hexact, fun a q t => ?_, ?_⟩, fun q => ?_⟩
  · rw [distributeCache_eq hs hfits, ← hrs, h1, Option.bind_some, if_pos hsum]
  · exact creditReceivers_balance h1 a q t
  · show s₁.feeHistory ++ _ = _
    rw [hframe, hsum]
  · rw [clearCache_cached hf1, hframe]
    rfl

theorem distributeCache_not_held (hs : Solvent s) (hheld : ¬ BaseHeld s p) (hpos : 0 < getCachedAmount s p)
    (hfits : getCachedAmount s p ≤ i64Max) : distributeCache s p block = none := by
  have hnone : shares s.tally "FEEDISTRIBUTION" (baseToken p) (getCachedAmount s p) = [] :=
    shares_of_no_holder hs.nonnegTally fun hc => hheld ((baseHeld_iff hs).mpr hc)
  rw [distributeCache_eq hs hfits, hnone, creditReceivers, Option.bind_some, if_neg]
  simpa using hpos.ne

theorem distributeCache_zero (hs : Solvent s) (hf : FeesUpTo s block) (hzero : getCachedAmount s p = 0) :
    ∃ s', distributeCache s p block = some s' ∧ Unmoved s s' p 0 := by
  have hnone : shares s.tally "FEEDISTRIBUTION" (baseToken p) (getCachedAmount s p) = [] := by
    rw [hzero]
    exact shares_zero
  refine ⟨clearCache (recordFeeDistribution s ⟨p, block, 0, []⟩) p block, ?_, fun a q t => ?_, fun q => ?_⟩
  · rw [distributeCache_eq hs (by rw [hzero]; decide), hnone, creditReceivers, Option.bind_some,
      if_pos (by simpa using hzero.symm)]
    rfl
  · rfl
  · exact clearCache_cached hf q

/-! ### Evaluating -/

/-- Where every balance has room for the cached amount, it is due to someone or stays. -/
theorem evalCache_settles_iff {threshold amount : Int} (hs : Solvent s) (hf : FeesUpTo s block)
    (hamount : getCachedAmount s p = amount)
    (hthreshold : (s.distributionThresholds.find? p).getD 0 = threshold)
    (hroom : ∀ a, getTokenBalance s a p .balance + amount ≤ i64Max) :
    (∃ s', evalCache s p block = some s' ∧
      ((threshold ≤ amount ∧ 0 < amount) ∧ Distributed s s' p block amount ∨
        ¬ (threshold ≤ amount ∧ 0 < amount) ∧ Unmoved s s' p amount)) ↔
    ((threshold ≤ amount ∧ 0 < amount) → BaseHeld s p) := by
  subst hamount hthreshold
  unfold evalCache
  by_cases hdue : (s.distributionThresholds.find? p).getD 0 ≤ getCachedAmount s p
  · rw [if_pos hdue]
    rcases eq_or_lt_of_le (hs.cached p) with hzero | hpos
    · -- nothing is cached
      have hnot : ¬ 0 < getCachedAmount s p := hzero.not_lt
      obtain ⟨s', h', hsame⟩ := @distributeCache_zero s p block hs hf hzero.symm
      rw [hzero] at hsame
      exact ⟨fun _ hc => absurd hc.2 hnot, fun _ => ⟨s', h', .inr ⟨fun hc => hnot hc.2, hsame⟩⟩⟩
    · constructor
      · intro h _
        obtain ⟨s', h', -⟩ := h
        by_contra hheld
        have hbal := hs.nonneg "" p .balance (by decide)
        have hle := hroom ""
        rw [distributeCache_not_held hs hheld hpos (by omega)] at h'
        cases h'
      · intro h
        obtain ⟨s', h', hdist⟩ := @distributeCache_distributed s p block hs hf (h ⟨hdue, hpos⟩) hpos hroom
        exact ⟨s', h', .inl ⟨⟨hdue, hpos⟩, hdist⟩⟩
  · rw [if_neg hdue]
    have hsame : Unmoved s s p (getCachedAmount s p) := by
      refine ⟨fun _ _ _ => rfl, fun q => ?_⟩
      split_ifs with hq
      · rw [hq]
      · rfl
    exact ⟨fun _ hc => absurd hc.1 hdue, fun _ => ⟨s, rfl, .inr ⟨fun hc => hdue hc.1, hsame⟩⟩⟩

variable {amount : Int}

/-- What counts of the state before an evaluation is the tally, the history, and the cached
amounts of the other properties. -/
theorem getTokenBalance_congr {s₁ : State} (htally : s₁.tally = s.tally) (a : Address) (q : PropertyId)
    (t : TallyType) : getTokenBalance s₁ a q t = getTokenBalance s a q t := by
  unfold getTokenBalance
  rw [htally]

theorem cached_congr {s₁ : State} (x : Int)
    (hcached : ∀ q, q ≠ p → getCachedAmount s₁ q = getCachedAmount s q) :
    (∀ q, getCachedAmount s' q = if q = p then x else getCachedAmount s₁ q) ↔
      ∀ q, getCachedAmount s' q = if q = p then x else getCachedAmount s q := by
  refine forall_congr' fun q => ?_
  by_cases hq : q = p
  · rw [if_pos hq, if_pos hq]
  · rw [if_neg hq, if_neg hq, hcached q hq]

theorem distributed_congr {s₁ : State} (htally : s₁.tally = s.tally)
    (hhistory : s₁.feeHistory = s.feeHistory)
    (hcached : ∀ q, q ≠ p → getCachedAmount s₁ q = getCachedAmount s q) :
    Distributed s₁ s' p block amount ↔ Distributed s s' p block amount := by
  have hbal := getTokenBalance_congr htally
  have hother := @cached_congr s s' p s₁ 0 hcached
  constructor
  · rintro ⟨hreceivers, hnew⟩
    simp only [htally, hbal, hhistory] at hreceivers
    exact ⟨hreceivers, hother.mp hnew⟩
  · rintro ⟨hreceivers, hnew⟩
    simp only [← htally, ← hbal, ← hhistory] at hreceivers
    exact ⟨hreceivers, hother.mpr hnew⟩

theorem unmoved_congr {s₁ : State} (htally : s₁.tally = s.tally)
    (hcached : ∀ q, q ≠ p → getCachedAmount s₁ q = getCachedAmount s q) :
    Unmoved s₁ s' p amount ↔ Unmoved s s' p amount := by
  have hbal := getTokenBalance_congr htally
  have hother := @cached_congr s s' p s₁ amount hcached
  constructor
  · intro h
    exact ⟨fun a q t => (h.balance a q t).trans (hbal a q t), hother.mp h.cached⟩
  · intro h
    exact ⟨fun a q t => (h.balance a q t).trans (hbal a q t).symm, hother.mpr h.cached⟩

theorem addFee_eq (hs : Solvent s) (hf : FeesUpTo s block) (hamount : 0 ≤ amount)
    (hroom : ∀ a, getTokenBalance s a p .balance + (getCachedAmount s p + amount) ≤ i64Max) :
    ∃ s₁, addFee s p block amount = evalCache s₁ p block ∧ Solvent s₁ ∧ FeesUpTo s₁ block ∧
      s₁.tally = s.tally ∧ s₁.feeHistory = s.feeHistory ∧
      s₁.distributionThresholds = s.distributionThresholds ∧
      ∀ q, getCachedAmount s₁ q = if q = p then getCachedAmount s p + amount else getCachedAmount s q := by
  have hbal := hs.nonneg "" p .balance (by decide)
  have hle := hroom ""
  have hcached := hs.cached p
  have hwrite : FeeStep s (writeCache s p block (getCachedAmount s p + amount)) block _ :=
    writeCache_feeStep fun _ => by omega
  refine ⟨writeCache s p block (getCachedAmount s p + amount), ?_, hwrite.solvent hf hs, hwrite.feesUpTo hf,
    rfl, rfl, rfl, fun q => getCachedAmount_writeCache hf⟩
  unfold addFee
  rw [if_neg (by omega)]

theorem addFee_settles_iff (hs : Solvent s) (hf : FeesUpTo s block) (hamount : 0 ≤ amount)
    (hroom : ∀ a, getTokenBalance s a p .balance + (getCachedAmount s p + amount) ≤ i64Max) :
    Settles s p block (.addFee amount) ↔ ((FeeOp.addFee amount).IsDue s p → BaseHeld s p) := by
  obtain ⟨s₁, hcall, hs1, hf1, htally, hhistory, hthresholds, hnew⟩ := addFee_eq hs hf hamount hroom
  have hothers : ∀ q, q ≠ p → getCachedAmount s₁ q = getCachedAmount s q := fun q hq =>
    (hnew q).trans (if_neg hq)
  have hsameBalance := getTokenBalance_congr htally
  have heval := @evalCache_settles_iff s₁ p block _ _ hs1 hf1 ((hnew p).trans (if_pos rfl)) rfl fun a => by
    rw [hsameBalance]
    exact hroom a
  have hdist : ∀ s' x, Distributed s₁ s' p block x ↔ Distributed s s' p block x := fun _ _ =>
    distributed_congr htally hhistory hothers
  have hsame : ∀ s' x, Unmoved s₁ s' p x ↔ Unmoved s s' p x := fun _ _ => unmoved_congr htally hothers
  have hheld : BaseHeld s₁ p ↔ BaseHeld s p := baseHeld_congr fun a t => hsameBalance a _ t
  rw [hheld, hthresholds] at heval
  simp only [hdist, hsame] at heval
  unfold Settles
  rw [show (FeeOp.addFee amount).call s p block = addFee s p block amount from rfl, hcall]
  exact heval

/-- Whether it settles or not, a fee that is due finds a holder if it does not abort. -/
theorem addFee_isSome_iff (hs : Solvent s) (hf : FeesUpTo s block) (hamount : 0 ≤ amount)
    (hroom : ∀ a, getTokenBalance s a p .balance + (getCachedAmount s p + amount) ≤ i64Max) :
    (addFee s p block amount).isSome = true ↔ ((FeeOp.addFee amount).IsDue s p → BaseHeld s p) := by
  constructor
  · intro h hdue
    by_contra hheld
    obtain ⟨s₁, hcall, hs1, -, htally, -, hthresholds, hnew⟩ := addFee_eq hs hf hamount hroom
    have hcached : getCachedAmount s₁ p = getCachedAmount s p + amount := (hnew p).trans (if_pos rfl)
    have hheld1 : ¬ BaseHeld s₁ p := by
      unfold BaseHeld
      rw [htally]
      exact hheld
    have hbal := hs.nonneg "" p .balance (by decide)
    have hle := hroom ""
    rw [hcall, evalCache, if_pos (by rw [hcached, hthresholds]; exact hdue.1),
      distributeCache_not_held hs1 hheld1 (by rw [hcached]; exact hdue.2) (by omega)] at h
    cases h
  · intro h
    obtain ⟨s', h', -⟩ := (addFee_settles_iff hs hf hamount hroom).mpr h
    exact Option.isSome_iff_exists.mpr ⟨s', h'⟩

theorem addFee_other (h : addFee s p block amount = some s') :
    s'.distributionThresholds = s.distributionThresholds ∧
      ∀ a q t, q ≠ p → getTokenBalance s' a q t = getTokenBalance s a q t := by
  unfold addFee at h
  dsimp only at h
  split_ifs at h
  unfold evalCache at h
  split_ifs at h
  · simp only [distributeCache, do_eq_some, Option.pure_def] at h
    obtain ⟨receivers, -, s₁, h1, h⟩ := h
    split_ifs at h
    cases h
    refine ⟨?_, fun a q t hq => ?_⟩
    · show s₁.distributionThresholds = _
      rw [creditReceivers_frame h1]
      rfl
    · refine (creditReceivers_balance h1 a q t).trans ?_
      rw [if_neg fun hc => hq hc.1, add_zero]
      rfl
  · cases h
    exact ⟨rfl, fun _ _ _ _ => rfl⟩

theorem notify_settles_iff (hs : Solvent s) (hf : FeesUpTo s block)
    (hroom : ∀ a, getTokenBalance s a p .balance + getCachedAmount s p ≤ i64Max) :
    Settles s p block .notify ↔ (FeeOp.notify.IsDue s p → BaseHeld s p) := by
  set s₁ := updateDistributionThresholds s p with hs1
  have heval := @evalCache_settles_iff s₁ p block _ _
    (hs.of_eq (fun _ _ _ => rfl) fun _ => rfl) hf rfl rfl hroom
  have hdist : ∀ s' x, Distributed s₁ s' p block x ↔ Distributed s s' p block x := fun _ _ =>
    distributed_congr rfl rfl fun _ _ => rfl
  have hsame : ∀ s' x, Unmoved s₁ s' p x ↔ Unmoved s s' p x := fun _ _ =>
    unmoved_congr rfl fun _ _ => rfl
  simp only [hdist, hsame] at heval
  exact heval

end

end Rapids.Token
