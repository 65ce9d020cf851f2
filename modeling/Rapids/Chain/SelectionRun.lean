import Mathlib.Logic.Equiv.List
import Rapids.Chain.SelectionArrival

/-!
# Rapids.Chain.SelectionRun

**The candidates over whole runs** of `AcceptBlock`, `ActivateBestChain`,
`InvalidateBlock` and `ReconsiderBlock`.

Every call keeps the candidates complete (`candidates_stay_complete`), but for these:

* `ReconsiderBlock` takes the marks from all ancestors of the block, yet offers only
  the block and its descendants as candidates, and leaves the marks on other
  descendants of these ancestors.
* The genesis block cannot be disconnected, so invalidating it stops half-way.
* A disk or database error ends a call with the tip at a fork.
* `nChainTx` is a counter of 32 bits, and its zero means that data is missing.
-/

namespace Rapids.Chain.Selection

variable {T : BlockTree} {f : Faults} {s s' : Selection} {a e : Lineage}

/-! ### `InvalidateBlock` -/

/-- What `InvalidateBlock` keeps while it takes the tip down. -/
structure Sinking (T : BlockTree) (s : Selection) (p : Lineage) : Prop where
  indexed : Indexed s []
  failed : (s.entry p).failedValid = true
  data : ∀ a, a <:+ s.tip → (s.entry a).haveData = true
  active : ∀ a, a <:+ s.tip → ¬ p <:+ a → (s.entry a).failed = false ∧ (a ≠ [] → T.connects a = true)

/-- Mark the tip as a descendant and disconnect it. -/
def sink (s : Selection) (c : Nat) (t : Lineage) : Selection :=
  { (s.modify (c :: t) fun e => { e with failedChild := true }).eraseCandidate (c :: t) with tip := t }

theorem sink_entry {c : Nat} {t : Lineage} : (s.sink c t).entry a =
    if a = c :: t then { s.entry (c :: t) with failedChild := true } else s.entry a :=
  modify_entry fun e => { e with failedChild := true }

theorem Sinking.sink {p t : Lineage} {c : Nat} (hs : Sinking T s p) (htip : s.tip = c :: t)
    (hp : p <:+ c :: t) : Sinking T (s.sink c t) p := by
  have hd : SameData s (s.sink c t) := by
    have hm : SameData s (s.modify (c :: t) fun e => { e with failedChild := true }) :=
      modify_sameData ⟨rfl, rfl, rfl, rfl, rfl, le_rfl⟩
    exact ⟨hm.1, hm.2, hm.3, hm.4, hm.5, hm.6, hm.7, hm.8⟩
  have hvalid : ∀ a, ((s.sink c t).entry a).failedValid = (s.entry a).failedValid := by
    intro a
    rw [sink_entry]
    split_ifs with h
    · rw [h]
    · rfl
  have hup : ∀ a, a <:+ t → a <:+ s.tip := fun a ha => htip ▸ ha.trans (List.suffix_cons c t)
  refine ⟨?_, (hvalid p).trans hs.failed, ?_, ?_⟩
  · refine hs.indexed.of_sameData hd ?_ ?_ ?_
    · intro e he
      have hne : e ≠ c :: t := by
        rintro rfl
        exact he (hs.indexed.known (hs.data _ (htip ▸ List.suffix_refl _)))
      rw [sink_entry, if_neg hne]
    · intro e he
      by_cases heq : e = c :: t
      · exact ⟨p, heq ▸ hp, (hvalid p).trans hs.failed⟩
      · rw [sink_entry, if_neg heq] at he
        obtain ⟨a, ha, hv⟩ := hs.indexed.child e he
        exact ⟨a, ha, (hvalid a).trans hv⟩
    · intro e he
      exact hs.indexed.candidate_linked e (List.mem_of_mem_filter he)
  · intro a ha
    exact (hd.haveData a).trans (hs.data a (hup a ha))
  · intro a ha hpa
    have hne : a ≠ c :: t := fun heq => not_cons_suffix_self c t (heq ▸ ha)
    rw [sink_entry, if_neg hne]
    exact hs.active a (hup a ha) hpa

theorem Sinking.invalidateLoop {p t : Lineage} (hs : Sinking T s p) (hp : p ≠ []) (htip : s.tip = t)
    (hf : ∀ b, b <:+ t → p <:+ b → f.disconnect b = false) :
    ∃ s', invalidateLoop f p t s = (true, s') ∧ Sinking T s' p ∧ ¬ p <:+ s'.tip := by
  induction t generalizing s with
  | nil =>
    have hno : ¬ p <:+ [] := fun h => hp (List.suffix_nil.mp h)
    rw [Selection.invalidateLoop, if_neg hno]
    exact ⟨s, rfl, hs, htip ▸ hno⟩
  | cons c t ih =>
    rw [Selection.invalidateLoop]
    by_cases hsuf : p <:+ c :: t
    · have hdisc : f.disconnects (c :: t) = true := by
        simp [Faults.disconnects, hf (c :: t) (List.suffix_refl _) hsuf]
      rw [if_pos hsuf]
      rw [if_pos hdisc]
      exact ih (hs.sink htip hsuf) rfl fun b hb => hf b (hb.trans (List.suffix_cons c t))
    · rw [if_neg hsuf]
      exact ⟨s, rfl, hs, htip ▸ hsuf⟩

/-- **A block is invalidated** by hand. -/
theorem Settled.invalidateBlock {p : Lineage} (hs : Settled T s) (hknown : p ∈ s.nodes) (hp : p ≠ [])
    (hf : ∀ b, b <:+ s.tip → p <:+ b → f.disconnect b = false) :
    Settled T (invalidateBlock T f s p).2 := by
  have hsink : Sinking T (s.fail p) p := by
    refine ⟨hs.indexed.fail hknown, ?_, ?_, ?_⟩
    · rw [fail_entry, if_pos rfl]
    · intro a ha
      rw [(fail_sameData s p).haveData]
      exact (hs.held.active a ha).1
    · intro a ha hpa
      have hne : a ≠ p := fun heq => hpa (heq ▸ List.suffix_refl p)
      rw [fail_entry, if_neg hne]
      exact (hs.held.active a ha).2
  obtain ⟨s₁, hloop, hs1, htip⟩ := hsink.invalidateLoop hp rfl hf
  have hloop' : Selection.invalidateLoop f p
      ((s.modify p fun e => { e with failedValid := true }).eraseCandidate p).tip
      ((s.modify p fun e => { e with failedValid := true }).eraseCandidate p) = (true, s₁) := hloop
  have hsound : Sound T s₁ s₁.tip := by
    intro a ha
    exact ⟨hs1.data a ha, hs1.active a ha fun h => htip (h.trans ha)⟩
  unfold Selection.invalidateBlock
  dsimp only
  rw [hloop']
  refine ⟨?_, hsound, hsound, ?_⟩
  · refine hs1.indexed.of_sameData ⟨rfl, rfl, fun _ => rfl, fun _ => rfl, fun _ => rfl, fun _ => rfl,
      fun _ => rfl, fun _ => le_rfl⟩ (fun _ _ => rfl) hs1.indexed.child ?_
    intro e he
    rcases List.mem_append.mp he with he | he
    · exact hs1.indexed.candidate_linked e he
    · have hvalid := (List.mem_filter.mp (List.mem_of_mem_filter he)).2
      simp only [Bool.and_eq_true, decide_eq_true_eq] at hvalid
      exact hvalid.1.2
  · -- Whatever is good enough for the new tip is put back.
    intro e hl hfe hk
    have hdata := hs1.indexed.data hl (List.suffix_refl e)
    by_cases hmem : e ∈ s₁.candidates
    · exact List.mem_append_left _ hmem
    · refine List.mem_append_right _ (List.mem_filter.mpr ⟨List.mem_filter.mpr ⟨?_, ?_⟩, ?_⟩)
      · exact hs1.indexed.known hdata
      · have hcomp : workComparator T s₁ e s₁.tip = false := workComparator_eq_false.mpr hk
        have hlevel := hs1.indexed.valid e hdata
        have hfe' : (s₁.entry e).failed = false := hfe
        have hl' : (s₁.entry e).nChainTx ≠ 0 := hl
        simp [hcomp, IndexEntry.isValid, hfe', hlevel, hl']
      · simpa using hmem

/-! ### `ReconsiderBlock` -/

/-- Reconsidering a block leaves nothing behind: an ancestor that is marked is not
good enough to be a candidate, and what is marked elsewhere has a reason of its own. -/
structure Reconsiderable (T : BlockTree) (s : Selection) (p : Lineage) : Prop where
  ancestors : ∀ a, a <:+ p → a ≠ p → (s.entry a).failed = true → (s.entry a).nChainTx ≠ 0 →
    workComparator T s a s.tip = true
  others : ∀ e, (s.entry e).failed = true → ¬ p <:+ e → ¬ e <:+ p →
    ∃ a, a <:+ e ∧ (s.entry a).failedValid = true ∧ ¬ a <:+ p

section Reconsider

variable {p : Lineage}

theorem reconsiderBlock_entry (a : Lineage) : (reconsiderBlock T s p).entry a = (s.entry a).unfail ∨
    (reconsiderBlock T s p).entry a = s.entry a ∧ ¬ a <:+ p ∧
      ¬ (a ∈ s.nodes ∧ (s.entry a).isValid blockValidTransactions = false ∧ p <:+ a) := by
  unfold reconsiderBlock
  simp only [List.mem_filter, Bool.and_eq_true, Bool.not_eq_true', decide_eq_true_eq]
  split_ifs with h1 h2 h2
  · exact .inl rfl
  · exact .inl rfl
  · exact .inl rfl
  · exact .inr ⟨rfl, h1, h2⟩

theorem reconsiderBlock_sameData (T : BlockTree) (s : Selection) (p : Lineage) :
    SameData s (reconsiderBlock T s p) := by
  refine ⟨rfl, rfl, ?_, ?_, ?_, ?_, ?_, ?_⟩
  all_goals
    intro a
    rcases reconsiderBlock_entry a with h | ⟨h, -⟩
    · rw [h]
      simp [IndexEntry.unfail]
    · rw [h]

theorem reconsiderBlock_failed (hi : Indexed s []) (h : ((reconsiderBlock T s p).entry a).failed = true) :
    (reconsiderBlock T s p).entry a = s.entry a ∧ ¬ a <:+ p ∧ ¬ p <:+ a := by
  rcases reconsiderBlock_entry a with heq | ⟨heq, hap, hno⟩
  · rw [heq] at h
    simp [IndexEntry.failed, IndexEntry.unfail] at h
  · refine ⟨heq, hap, fun hpa => hno ⟨?_, ?_, hpa⟩⟩
    · by_contra hn
      rw [heq, hi.blank a hn] at h
      cases h
    · rw [heq] at h
      simp [IndexEntry.isValid, h]

theorem reconsiderBlock_off (hap : ¬ a <:+ p) (hpa : ¬ p <:+ a) :
    (reconsiderBlock T s p).entry a = s.entry a := by
  unfold reconsiderBlock
  dsimp only
  rw [if_neg hap, if_neg]
  intro hm
  simp only [List.mem_filter, Bool.and_eq_true, decide_eq_true_eq] at hm
  exact hpa hm.2.2

theorem mem_reconsiderBlock_candidates : e ∈ (reconsiderBlock T s p).candidates ↔
    e ∈ s.candidates ∨ e ∈ s.nodes ∧ (s.entry e).isValid blockValidTransactions = false ∧ p <:+ e ∧
      (s.entry e).unfail.isValid blockValidTransactions = true ∧ (s.entry e).nChainTx ≠ 0 ∧
      sortKey T s s.tip < sortKey T s e := by
  -- The state after the first loop, in which the candidates are chosen.
  let below := s.nodes.filter fun e =>
    !(s.entry e).isValid blockValidTransactions && decide (p <:+ e)
  let s₁ : Selection :=
    { s with entry := fun a => if a ∈ below then (s.entry a).unfail else s.entry a }
  have hkey : ∀ a, sortKey T s₁ a = sortKey T s a := by
    intro a
    simp only [s₁, sortKey]
    split_ifs <;> rfl
  have hbelow : e ∈ below ↔ e ∈ s.nodes ∧ (s.entry e).isValid blockValidTransactions = false ∧ p <:+ e := by
    simp [below]
  have hentry : e ∈ below → s₁.entry e = (s.entry e).unfail := fun he => if_pos he
  have hdef : (reconsiderBlock T s p).candidates = s.candidates ++ (below.filter fun e =>
      (s₁.entry e).isValid blockValidTransactions && (s₁.entry e).nChainTx ≠ 0 &&
        workComparator T s₁ s₁.tip e).filter (· ∉ s.candidates) := rfl
  rw [hdef, List.mem_append, List.mem_filter, List.mem_filter]
  simp only [Bool.and_eq_true, decide_eq_true_eq, workComparator_iff, hkey]
  constructor
  · rintro (he | ⟨⟨he, ⟨hv, hn⟩, hk⟩, -⟩)
    · exact .inl he
    · rw [hentry he] at hv hn
      obtain ⟨h1, h2, h3⟩ := hbelow.mp he
      exact .inr ⟨h1, h2, h3, hv, hn, hk⟩
  · rintro (he | ⟨h1, h2, h3, hv, hn, hk⟩)
    · exact .inl he
    · by_cases hmem : e ∈ s.candidates
      · exact .inl hmem
      · have he := hbelow.mpr ⟨h1, h2, h3⟩
        rw [hentry he]
        exact .inr ⟨⟨he, ⟨hv, hn⟩, hk⟩, hmem⟩

/-- **A block is reconsidered.** -/
theorem Settled.reconsiderBlock (hs : Settled T s) (hr : Reconsiderable T s p) :
    Settled T (reconsiderBlock T s p) := by
  have hi := hs.indexed
  have hd := reconsiderBlock_sameData T s p
  have hclean : ∀ a, (s.entry a).failed = false → ((Selection.reconsiderBlock T s p).entry a).failed = false := by
    intro a ha
    by_contra hne
    rw [Bool.not_eq_false] at hne
    rw [(reconsiderBlock_failed hi hne).1, ha] at hne
    cases hne
  have hsound : Sound T (Selection.reconsiderBlock T s p) s.tip := by
    intro a ha
    obtain ⟨hdata, hf, hconn⟩ := hs.held.active a ha
    exact ⟨(hd.haveData a).trans hdata, hclean a hf, hconn⟩
  refine ⟨?_, hsound, hsound, ?_⟩
  · refine hi.of_sameData hd ?_ ?_ ?_
    · intro e he
      rcases reconsiderBlock_entry e with heq | ⟨heq, -⟩
      · rw [heq, hi.blank e he]
        rfl
      · exact heq
    · intro e he
      have hfe : ((Selection.reconsiderBlock T s p).entry e).failed = true := by
        simp [IndexEntry.failed, he]
      obtain ⟨heq, hep, hpe⟩ := reconsiderBlock_failed hi hfe
      obtain ⟨a, ha, hv, hap⟩ := hr.others e (heq ▸ hfe) hpe hep
      refine ⟨a, ha, ?_⟩
      rw [reconsiderBlock_off hap fun hpa => hpe (hpa.trans ha)]
      exact hv
    · intro e he
      rcases mem_reconsiderBlock_candidates.mp he with he | he
      · exact hi.candidate_linked e he
      · exact he.2.2.2.2.1
  · intro e hl hf hk
    rw [hd.nChainTx] at hl
    have hk' : sortKey T s s.tip ≤ sortKey T s e := by
      rw [← hd.sortKey_eq, ← hd.sortKey_eq]
      exact hk
    have hdata := hi.data hl (List.suffix_refl e)
    rw [mem_reconsiderBlock_candidates]
    cases hfe : (s.entry e).failed with
    | false => exact .inl (hs.held.complete e hl hfe hk')
    | true =>
      right
      -- The marks were taken, so the block is on the lineage.
      have hpe : p <:+ e := by
        by_contra hpe
        by_cases hep : e <:+ p
        · have hne : e ≠ p := fun heq => hpe (heq ▸ List.suffix_refl e)
          have hworse := hr.ancestors e hep hne hfe hl
          rw [workComparator_iff] at hworse
          exact absurd hk' (not_le.mpr hworse)
        · rw [reconsiderBlock_off hep hpe, hfe] at hf
          cases hf
      have htip : s.tip ≠ e := by
        rintro rfl
        rw [(hs.held.active _ (List.suffix_refl _)).2.1] at hfe
        cases hfe
      refine ⟨hi.known hdata, ?_, hpe, ?_, hl, lt_of_le_of_ne hk' fun heq => ?_⟩
      · simp [IndexEntry.isValid, hfe]
      · exact decide_eq_true (hi.valid e hdata)
      · exact htip (sortKey_injective T s heq)

end Reconsider

/-! ### Runs -/

/-- Does the call name an entry of the index? -/
def Request.Known (s : Selection) : Request → Prop
  | .accept _ => True
  | .activate => True
  | .invalidate pindex => pindex ∈ s.nodes
  | .reconsider pindex => pindex ∈ s.nodes

/-- What makes a call keep the candidates complete, in the state it finds. -/
def Request.Safe (T : BlockTree) (f : Faults) (s : Selection) : Request → Prop
  | .accept d =>
    ((s.entry d.block).haveData = false → Counted s d.block d.nTx) ∧
      ∀ h p, d.block = h :: p → (s.entry p).failed = true → T.checkpoint p = true →
        Reconsiderable T s p ∧ f.Absent
  | .activate => f.Absent
  | .invalidate pindex => pindex ≠ [] ∧ ∀ b, b <:+ s.tip → pindex <:+ b → f.disconnect b = false
  | .reconsider pindex => Reconsiderable T s pindex

/-- The states that calls lead to which meet a condition. -/
inductive Reachable (T : BlockTree) (ok : Faults → Selection → Request → Prop) : Selection → Prop
  | initial : Reachable T ok (initial T)
  | call {s s' : Selection} {f : Faults} {fuel : Nat} {req : Request} {result : Bool}
      (hs : Reachable T ok s) (hknown : req.Known s) (hok : ok f s req)
      (h : perform T f fuel s req = some (result, s')) : Reachable T ok s'

theorem settled_initial (T : BlockTree) : Settled T (initial T) := by
  have hroot : (initial T).entry [] = ⟨T.proof [] % 2 ^ 256, 1, 1, 1, blockValidTransactions, true, false, false⟩ :=
    rfl
  have hother : ∀ e, e ≠ [] → (initial T).entry e = IndexEntry.blank := by
    intro e he
    simp [initial, Function.update_of_ne he]
  have hmarks : ∀ e, ((initial T).entry e).failed = false := by
    intro e
    by_cases he : e = []
    · rw [he, hroot]
      rfl
    · rw [hother e he]
      rfl
  have hdata : ∀ e, ((initial T).entry e).haveData = true ↔ e = [] := by
    intro e
    by_cases he : e = []
    · simp [he, hroot]
    · simp [he, hother e he, IndexEntry.blank]
  have hlinked : ∀ e, ((initial T).entry e).nChainTx ≠ 0 ↔ e = [] := by
    intro e
    by_cases he : e = []
    · simp [he, hroot]
    · simp [he, hother e he, IndexEntry.blank]
  have hsound : Sound T (initial T) [] := by
    intro a ha
    obtain rfl := List.suffix_nil.mp ha
    exact ⟨(hdata []).mpr rfl, hmarks [], fun h => absurd rfl h⟩
  refine ⟨⟨.head _, ?_, ?_, ?_, ?_, ?_, ?_, ?_, List.nodup_nil, ?_, ?_⟩, hsound, hsound, ?_⟩
  · intro h p hmem
    cases List.mem_singleton.mp hmem
  · intro e he
    exact hother e fun heq => he (List.mem_singleton.mpr heq)
  · intro e he
    rw [List.mem_singleton.mp he, hroot]
    exact Nat.le_succ 2
  · intro e he
    rw [(hdata e).mp he, hroot]
  · intro e
    rw [hlinked]
    constructor
    · rintro rfl
      refine ⟨fun a ha => (hdata a).mpr (List.suffix_nil.mp ha), fun q hq => absurd hq List.not_mem_nil⟩
    · rintro ⟨h, -⟩
      exact (hdata e).mp (h e (List.suffix_refl e))
  · intro e he
    rw [(hlinked e).mp he]
    simp [branchTx, hroot]
  · intro p e
    refine iff_of_false List.not_mem_nil ?_
    rintro ⟨h, rfl, hd, -⟩
    cases (hdata _).mp hd
  · intro e he
    have hfail := hmarks e
    rw [IndexEntry.failed, he, Bool.or_true] at hfail
    cases hfail
  · intro e he
    rw [List.mem_singleton.mp he, hlinked]
  · intro e he _ _
    rw [(hlinked e).mp he]
    exact .head _

/-- **One call** keeps the candidates complete. -/
theorem Settled.perform (hs : Settled T s) {req : Request} {fuel : Nat} {result : Bool}
    (hknown : req.Known s) (hok : req.Safe T f s) (h : perform T f fuel s req = some (result, s')) :
    Settled T s' := by
  have hactivate : ∀ s₁ res s₂, Settled T s₁ → f.Absent → activateBestChain T f fuel s₁ = some (res, s₂) →
      Settled T s₂ := by
    intro s₁ res s₂ hs1 habsent hrun
    have hdone := hs1.held.activate_done hs1.indexed hrun (.inr habsent)
    exact ⟨hdone.indexed, hdone.held⟩
  cases req with
  | accept d =>
    obtain ⟨hcount, hcheck⟩ := hok
    simp only [Selection.perform, acceptBlock] at h
    split at h
    · rename_i hblock
      simp only [Option.some.injEq] at h
      rw [show s' = (Selection.acceptBlockData T s d).2 by rw [h]]
      exact hs.acceptBlockData d (fun h p heq => by rw [hblock] at heq; cases heq) hcount
    · rename_i h1 p hblock
      split_ifs at h with hp hfail hcp
      · obtain ⟨hr, habsent⟩ := hcheck h1 p hblock hfail hcp
        obtain ⟨⟨res, s₂⟩, hrun, heq⟩ := Option.map_eq_some_iff.mp h
        obtain ⟨-, rfl⟩ := Prod.mk.inj heq
        exact hactivate _ _ _ (hs.reconsiderBlock hr) habsent hrun
      · simp only [Option.some.injEq, Prod.mk.injEq] at h
        exact h.2 ▸ hs
      · simp only [Option.some.injEq] at h
        rw [show s' = (Selection.acceptBlockData T s d).2 by rw [h]]
        refine hs.acceptBlockData d (fun c q heq => ?_) hcount
        obtain ⟨-, rfl⟩ := List.cons.inj (hblock.symm.trans heq)
        exact ⟨hp, by simpa using hfail⟩
      · simp only [Option.some.injEq, Prod.mk.injEq] at h
        exact h.2 ▸ hs
  | activate => exact hactivate s result s' hs hok h
  | invalidate p =>
    simp only [Selection.perform, Option.some.injEq] at h
    rw [show s' = (Selection.invalidateBlock T f s p).2 by rw [h]]
    exact hs.invalidateBlock hknown hok.1 hok.2
  | reconsider p =>
    simp only [Selection.perform, Option.some.injEq, Prod.mk.injEq] at h
    exact h.2 ▸ hs.reconsiderBlock hok

theorem Reachable.settled (h : Reachable T (fun f s req => req.Safe T f s) s) : Settled T s := by
  induction h with
  | initial => exact settled_initial T
  | call _ hknown hok h ih => exact ih.perform hknown hok h

/-! ### The candidates are complete -/

/-- A block that could be the tip: its data and that of all ancestors is there, and
none of them failed. `BLOCK_FAILED_CHILD` alone does not count, as it only says that
an ancestor failed. -/
def Eligible (s : Selection) (e : Lineage) : Prop :=
  e ∈ s.nodes ∧ ∀ a, a <:+ e → (s.entry a).haveData = true ∧ (s.entry a).failedValid = false

/-- Every eligible block that is not worse than the tip is a candidate, and the tip is. -/
def CandidatesComplete (T : BlockTree) (s : Selection) : Prop :=
  (∀ e, Eligible s e → workComparator T s e s.tip = false → e ∈ s.candidates) ∧ s.tip ∈ s.candidates

/-- The tip is the best eligible block. -/
def BestTip (T : BlockTree) (s : Selection) : Prop :=
  Eligible s s.tip ∧ ∀ e, Eligible s e → workComparator T s s.tip e = false

theorem Indexed.eligible (hi : Indexed s []) (he : Eligible s e) :
    (s.entry e).nChainTx ≠ 0 ∧ (s.entry e).failed = false := by
  refine ⟨hi.linked fun a ha => (he.2 a ha).1, ?_⟩
  rw [IndexEntry.failed, (he.2 e (List.suffix_refl e)).2, Bool.false_or]
  by_contra hne
  obtain ⟨a, ha, hv⟩ := hi.child e (by simpa using hne)
  rw [(he.2 a ha).2] at hv
  cases hv

theorem Settled.candidatesComplete (hs : Settled T s) : CandidatesComplete T s := by
  refine ⟨fun e he hcomp => ?_, hs.held.mem hs.indexed⟩
  obtain ⟨hl, hf⟩ := hs.indexed.eligible he
  exact hs.held.complete e hl hf (workComparator_eq_false.mp hcomp)

theorem Done.bestTip (h : Done T s) : BestTip T s := by
  refine ⟨⟨?_, fun a ha => ?_⟩, fun e he => workComparator_eq_false.mpr ?_⟩
  · exact h.indexed.known (h.held.active _ (List.suffix_refl _)).1
  · obtain ⟨hdata, hf, -⟩ := h.held.active a ha
    exact ⟨hdata, (Bool.or_eq_false_iff.mp hf).1⟩
  · obtain ⟨hl, hf⟩ := h.indexed.eligible he
    rcases le_total (sortKey T s s.tip) (sortKey T s e) with hle | hle
    · exact h.max e (h.held.complete e hl hf hle)
    · exact hle

/-- **The active chain is well selected.** In every state that safe calls lead to,
the candidates are complete; `FindMostWorkChain` returns; `ActivateBestChain` returns,
whatever goes wrong in it; and if it returns true, the tip is the best eligible block. -/
theorem candidates_stay_complete (h : Reachable T (fun f s req => req.Safe T f s) s) :
    CandidatesComplete T s ∧ (∃ r, findMostWorkChain T s = some r) ∧
      (∀ f, ∃ fuel r, activateBestChain T f fuel s = some r) ∧
      ∀ f fuel s', activateBestChain T f fuel s = some (true, s') → BestTip T s' ∧ CandidatesComplete T s' := by
  have hs := h.settled
  refine ⟨hs.candidatesComplete, ?_, fun f => ?_, fun f fuel s' hrun => ?_⟩
  · obtain ⟨x, s', hfind, -⟩ := findMostWorkChain_spec hs.indexed hs.held
    exact ⟨_, hfind⟩
  · obtain ⟨n, ok, s', hrun, -⟩ := hs.held.finishes (f := f) hs.indexed
    exact ⟨n, _, hrun⟩
  · have hdone := hs.held.activate_done hs.indexed hrun (.inl rfl)
    exact ⟨hdone.bestTip, (Settled.mk hdone.indexed hdone.held).candidatesComplete⟩

/-- Blocks of equal work, of which one is invalid: the third of a chain. -/
def smallTree : BlockTree where
  address := ⟨Encodable.encode, Encodable.encode_injective⟩
  proof _ := 1
  connects b := b != [3, 2, 1]
  checkpoint _ := false

/-- No errors. -/
def noFaults : Faults := ⟨fun _ => false, fun _ => false, false⟩

/-- A block of one transaction that passes all checks of `AcceptBlock`. -/
def delivery (b : Lineage) : Delivery := ⟨b, 1, true, true, .valid, true, true⟩

theorem counted_first : Counted (initial smallTree) [1] 1 := by
  intro e he
  have hone : ∀ a, (((initial smallTree).recordData [1] 1).entry a).haveData = true → a = [] ∨ a = [1] := by
    intro a ha
    by_contra hne
    obtain ⟨hnil, hfirst⟩ := not_or.mp hne
    rw [recordData_ne 1 hfirst] at ha
    simp [initial, Function.update_of_ne hnil, IndexEntry.blank] at ha
  rcases hone e (he e (List.suffix_refl e)) with rfl | rfl
  · decide
  · decide

/-- Safe calls: the first block arrives and becomes active. -/
theorem candidates_stay_complete_first_block :
    ∃ s, Reachable smallTree (fun f s req => req.Safe smallTree f s) s ∧ s.tip = [1] ∧
      CandidatesComplete smallTree s := by
  have hrun : ((perform smallTree noFaults 10 (initial smallTree) (.accept (delivery [1]))).bind fun r =>
      perform smallTree noFaults 10 r.2 .activate).map (fun r => r.2.tip) = some [1] := by decide +kernel
  obtain ⟨⟨ok, s⟩, hrun, htip⟩ := Option.map_eq_some_iff.mp hrun
  obtain ⟨⟨ok₁, s₁⟩, haccept, hactivate⟩ := Option.bind_eq_some_iff.mp hrun
  have hsafe : Request.Safe smallTree noFaults (initial smallTree) (.accept (delivery [1])) :=
    ⟨fun _ => counted_first, fun _ _ _ _ hcheckpoint => nomatch hcheckpoint⟩
  have hknown : Request.Known (initial smallTree) (.accept (delivery [1])) := trivial
  have h₁ := Reachable.call Reachable.initial hknown hsafe haccept
  have habsent : Request.Safe smallTree noFaults s₁ .activate := fun _ => ⟨rfl, rfl⟩
  have hknown₁ : Request.Known s₁ .activate := trivial
  have h₂ := Reachable.call h₁ hknown₁ habsent hactivate
  exact ⟨s, h₂, htip, (candidates_stay_complete h₂).1⟩

instance (s : Selection) (req : Request) : Decidable (req.Known s) :=
  match req with
  | .accept _ => isTrue trivial
  | .activate => isTrue trivial
  | .invalidate pindex => inferInstanceAs (Decidable (pindex ∈ s.nodes))
  | .reconsider pindex => inferInstanceAs (Decidable (pindex ∈ s.nodes))

/-- Calls one after the other, each with fuel for ten rounds. -/
def performAll (T : BlockTree) (f : Faults) : List Request → Selection → Option Selection
  | [], s => some s
  | req :: rest, s =>
    if req.Known s then (perform T f 10 s req).bind fun r => performAll T f rest r.2 else none

theorem Reachable.performAll {reqs : List Request} (hs : Reachable T (fun _ _ _ => True) s)
    (h : performAll T f reqs s = some s') : Reachable T (fun _ _ _ => True) s' := by
  induction reqs generalizing s with
  | nil =>
    cases h
    exact hs
  | cons req rest ih =>
    rw [Selection.performAll] at h
    split_ifs at h with hknown
    obtain ⟨⟨ok, s₁⟩, hperform, hrest⟩ := Option.bind_eq_some_iff.mp h
    exact ih (Reachable.call hs hknown trivial hperform) hrest

/-- Three blocks arrive and two become active. The first is invalidated and the third,
which is invalid, reconsidered: all three lose their marks, but only the third is a
candidate. Activation takes the tip up to the second block and drops the third. -/
def reconsiderThird : List Request :=
  [.accept (delivery [1]), .accept (delivery [2, 1]), .accept (delivery [3, 2, 1]), .activate,
    .invalidate [1], .reconsider [3, 2, 1], .activate]

/-- No candidate is left, not even the tip. -/
theorem reconsiderThird_loses_tip :
    ∃ s, Reachable smallTree (fun _ _ _ => True) s ∧ s.tip = [2, 1] ∧ s.candidates = [] ∧
      ¬ CandidatesComplete smallTree s := by
  have hrun : (performAll smallTree noFaults reconsiderThird (initial smallTree)).map
      (fun s => (s.tip, s.candidates)) = some ([2, 1], []) := by decide +kernel
  obtain ⟨s, hrun, heq⟩ := Option.map_eq_some_iff.mp hrun
  obtain ⟨htip, hcand⟩ := Prod.mk.inj heq
  refine ⟨s, Reachable.performAll Reachable.initial hrun, htip, hcand, fun hc => ?_⟩
  have hmem := hc.2
  rw [hcand] at hmem
  cases hmem

end Rapids.Chain.Selection
