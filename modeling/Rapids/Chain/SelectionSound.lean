import Rapids.Chain.Selection

/-!
# Rapids.Chain.SelectionSound

**The candidates hold every block that could become the tip.**

Three facts carry the proof. The index keeps `nChainTx` set exactly where all data
up to the block is there (`Indexed`), also in the middle of the queue of
`ReceivedBlockTransactions`. Marks of failure on descendants always stand above a
block that failed itself. And while `ActivateBestChain` moves the tip, down to a fork
and up again, the candidates are complete from the best tip on that there was so far
(`Held`), not from the tip of the moment: a branch that turns out invalid leaves the
tip lower than it was, and then the way back is still among the candidates.

Activation ends because a round that does not end it either finds one more block
invalid or takes the tip further up to the same best candidate.
-/

namespace Rapids.Chain.Selection

variable {T : BlockTree} {f : Faults} {s s' : Selection} {a b e r x : Lineage}

/-! ### Lineages -/

theorem exists_cons_suffix (h : a <:+ e) (hne : a ≠ e) : ∃ c, c :: a <:+ e := by
  induction e with
  | nil => exact absurd (List.suffix_nil.mp h) hne
  | cons c p ih =>
    rcases List.suffix_cons_iff.mp h with rfl | hp
    · exact absurd rfl hne
    · by_cases hap : a = p
      · exact ⟨c, hap ▸ List.suffix_refl _⟩
      · obtain ⟨d, hd⟩ := ih hp hap
        exact ⟨d, hd.trans (List.suffix_cons c p)⟩

theorem not_cons_suffix_self (c : Nat) (a : Lineage) : ¬ c :: a <:+ a := by
  intro h
  have hlen := h.length_le
  rw [List.length_cons] at hlen
  omega

/-! ### The order of the candidates -/

theorem workComparator_iff : workComparator T s a b = true ↔ sortKey T s a < sortKey T s b := by
  simp only [workComparator, sortKey, Prod.Lex.toLex_lt_toLex, OrderDual.toDual_lt_toDual,
    OrderDual.toDual_inj]
  split_ifs <;> simp <;> omega

theorem workComparator_eq_false : workComparator T s a b = false ↔ sortKey T s b ≤ sortKey T s a := by
  rw [← not_lt, ← workComparator_iff, Bool.not_eq_true]

theorem sortKey_injective (T : BlockTree) (s : Selection) : Function.Injective (sortKey T s) := by
  intro a b h
  simp only [sortKey, EmbeddingLike.apply_eq_iff_eq, Prod.mk.injEq] at h
  exact h.2.2

theorem bestCandidate_spec (h : bestCandidate T s = some x) :
    x ∈ s.candidates ∧ ∀ e ∈ s.candidates, sortKey T s e ≤ sortKey T s x :=
  ⟨List.argmax_mem h, fun _ he => List.le_of_mem_argmax he h⟩

theorem bestCandidate_of_max (hx : x ∈ s.candidates)
    (hmax : ∀ e ∈ s.candidates, sortKey T s e ≤ sortKey T s x) : bestCandidate T s = some x := by
  cases hb : bestCandidate T s with
  | none => simp [List.argmax_eq_none.mp hb] at hx
  | some y =>
    obtain ⟨hy, hle⟩ := bestCandidate_spec hb
    rw [sortKey_injective T s (le_antisymm (hmax y hy) (hle x hx))]

/-! ### The index -/

/-- The transactions of a branch, as a number without bound. -/
def branchTx (s : Selection) (e : Lineage) : Nat := (e.tails.map fun a => (s.entry a).nTx).sum

/-- The index is well formed, where the blocks of `queue` are waiting to be linked. -/
structure Indexed (s : Selection) (queue : List Lineage) : Prop where
  root : [] ∈ s.nodes
  parent : ∀ h p, h :: p ∈ s.nodes → p ∈ s.nodes
  blank : ∀ e, e ∉ s.nodes → s.entry e = IndexEntry.blank
  level : ∀ e ∈ s.nodes, blockValidTree ≤ (s.entry e).validity
  valid : ∀ e, (s.entry e).haveData = true → blockValidTransactions ≤ (s.entry e).validity
  /-- `nChainTx` is set exactly if the data of all ancestors is there. -/
  linked_iff : ∀ e, (s.entry e).nChainTx ≠ 0 ↔
    (∀ a, a <:+ e → (s.entry a).haveData = true) ∧ ∀ q ∈ queue, ¬ q <:+ e
  count : ∀ e, (s.entry e).nChainTx ≠ 0 → (s.entry e).nChainTx = branchTx s e % 2 ^ 32
  unlinked_iff : ∀ p e, (p, e) ∈ s.unlinked ↔
    ∃ h, e = h :: p ∧ (s.entry e).haveData = true ∧ (s.entry p).nChainTx = 0
  unlinked_nodup : s.unlinked.Nodup
  /-- A descendant is marked only above a block that failed itself. -/
  child : ∀ e, (s.entry e).failedChild = true → ∃ a, a <:+ e ∧ (s.entry a).failedValid = true
  candidate_linked : ∀ e ∈ s.candidates, (s.entry e).nChainTx ≠ 0

theorem Indexed.data (h : Indexed s []) (he : (s.entry e).nChainTx ≠ 0) (ha : a <:+ e) :
    (s.entry a).haveData = true :=
  ((h.linked_iff e).mp he).1 a ha

theorem Indexed.linked (h : Indexed s []) (he : ∀ a, a <:+ e → (s.entry a).haveData = true) :
    (s.entry e).nChainTx ≠ 0 :=
  (h.linked_iff e).mpr ⟨he, fun _ hq => absurd hq List.not_mem_nil⟩

theorem Indexed.known (h : Indexed s []) (he : (s.entry e).haveData = true) : e ∈ s.nodes := by
  by_contra hn
  rw [h.blank e hn] at he
  cases he

/-- The two states differ only in marks, levels of validity, candidates and tip. -/
structure SameData (s s' : Selection) : Prop where
  nodes : s'.nodes = s.nodes
  unlinked : s'.unlinked = s.unlinked
  work : ∀ e, (s'.entry e).nChainWork = (s.entry e).nChainWork
  sequence : ∀ e, (s'.entry e).nSequenceId = (s.entry e).nSequenceId
  nTx : ∀ e, (s'.entry e).nTx = (s.entry e).nTx
  nChainTx : ∀ e, (s'.entry e).nChainTx = (s.entry e).nChainTx
  haveData : ∀ e, (s'.entry e).haveData = (s.entry e).haveData
  validity : ∀ e, (s.entry e).validity ≤ (s'.entry e).validity

theorem SameData.sortKey_eq (h : SameData s s') (e : Lineage) : sortKey T s' e = sortKey T s e := by
  simp [sortKey, h.work, h.sequence]

theorem SameData.branchTx_eq (h : SameData s s') (e : Lineage) : branchTx s' e = branchTx s e := by
  simp [branchTx, h.nTx]

theorem Indexed.of_sameData {queue : List Lineage} (h : Indexed s queue) (d : SameData s s')
    (hblank : ∀ e, e ∉ s.nodes → s'.entry e = s.entry e)
    (hchild : ∀ e, (s'.entry e).failedChild = true → ∃ a, a <:+ e ∧ (s'.entry a).failedValid = true)
    (hcand : ∀ e ∈ s'.candidates, (s.entry e).nChainTx ≠ 0) : Indexed s' queue where
  root := d.nodes ▸ h.root
  parent := d.nodes ▸ h.parent
  blank e he := by
    rw [d.nodes] at he
    rw [hblank e he, h.blank e he]
  level e he := (h.level e (d.nodes ▸ he)).trans (d.validity e)
  valid e he := (h.valid e (d.haveData e ▸ he)).trans (d.validity e)
  linked_iff e := by
    simp only [d.nChainTx, d.haveData]
    exact h.linked_iff e
  count e he := by
    rw [d.nChainTx] at he ⊢
    rw [d.branchTx_eq]
    exact h.count e he
  unlinked_iff p e := by
    simp only [d.unlinked, d.haveData, d.nChainTx]
    exact h.unlinked_iff p e
  unlinked_nodup := d.unlinked ▸ h.unlinked_nodup
  child := hchild
  candidate_linked e he := by
    rw [d.nChainTx]
    exact hcand e he

/-! ### What activation keeps -/

/-- The branch can be active: its data is there, no block on it is marked, and all
of them are valid. -/
def Sound (T : BlockTree) (s : Selection) (e : Lineage) : Prop :=
  ∀ a, a <:+ e → (s.entry a).haveData = true ∧ (s.entry a).failed = false ∧ (a ≠ [] → T.connects a = true)

/-- The candidates are complete from `r` on, and `r` can be active again. -/
structure Held (T : BlockTree) (s : Selection) (r : Lineage) : Prop where
  active : Sound T s s.tip
  best : Sound T s r
  complete : ∀ e, (s.entry e).nChainTx ≠ 0 → (s.entry e).failed = false →
    sortKey T s r ≤ sortKey T s e → e ∈ s.candidates

theorem Sound.suffix (h : Sound T s e) (ha : a <:+ e) : Sound T s a := fun b hb => h b (hb.trans ha)

theorem Held.mem (hi : Indexed s []) (h : Held T s r) : r ∈ s.candidates :=
  h.complete r (hi.linked fun a ha => (h.best a ha).1) (h.best r (List.suffix_refl r)).2.1 le_rfl

/-- How many blocks are not marked. -/
def unfailed (s : Selection) : Nat := s.nodes.countP fun e => !(s.entry e).failed

theorem countP_unfailed_le (hf : ∀ e, (s.entry e).failed = true → (s'.entry e).failed = true)
    (l : List Lineage) : (l.countP fun e => !(s'.entry e).failed) ≤ l.countP fun e => !(s.entry e).failed := by
  refine List.countP_mono_left fun e _ he => ?_
  cases hs : (s.entry e).failed with
  | false => rfl
  | true =>
    rw [hf e hs] at he
    cases he

section
variable (hn : s'.nodes = s.nodes) (hf : ∀ e, (s.entry e).failed = true → (s'.entry e).failed = true)
include hn hf

theorem unfailed_le
    : unfailed s' ≤ unfailed s := by
  unfold unfailed
  rw [hn]
  exact countP_unfailed_le hf _

theorem unfailed_lt
    (he : e ∈ s.nodes)
    (hs : (s.entry e).failed = false) (hs' : (s'.entry e).failed = true) : unfailed s' < unfailed s := by
  obtain ⟨l₁, l₂, hl⟩ := List.append_of_mem he
  have h1 := countP_unfailed_le hf l₁
  have h2 := countP_unfailed_le hf l₂
  unfold unfailed
  rw [hn, hl]
  simp only [List.countP_append, List.countP_cons, hs, hs', Bool.not_true, Bool.not_false]
  simp only [Bool.false_eq_true, if_false, if_true]
  omega

end

/-! ### `FindMostWorkChain` -/

theorem contains_iff : s.contains a = true ↔ a <:+ s.tip := by simp [contains]

theorem offActive_cons (c : Nat) (p : Lineage) :
    s.offActive (c :: p) = if s.contains (c :: p) then [] else (c :: p) :: s.offActive p := by
  rw [offActive, List.tails, List.takeWhile_cons]
  cases s.contains (c :: p) <;> rfl

theorem offActive_nil : s.offActive [] = [] := by
  have h : s.contains [] = true := contains_iff.mpr (List.nil_suffix)
  simp [offActive, h]

theorem mem_offActive : a ∈ s.offActive e ↔ a <:+ e ∧ ¬ a <:+ s.tip := by
  induction e with
  | nil =>
    rw [offActive_nil, List.suffix_nil]
    refine iff_of_false List.not_mem_nil ?_
    rintro ⟨rfl, h⟩
    exact h List.nil_suffix
  | cons c p ih =>
    rw [offActive_cons]
    split_ifs with hc
    · refine iff_of_false List.not_mem_nil ?_
      rintro ⟨h, hn⟩
      exact hn (h.trans (contains_iff.mp hc))
    · rw [List.mem_cons, ih, List.suffix_cons_iff]
      rw [contains_iff] at hc
      constructor
      · rintro (rfl | ⟨h, hn⟩)
        · exact ⟨.inl rfl, hc⟩
        · exact ⟨.inr h, hn⟩
      · rintro ⟨rfl | h, hn⟩
        · exact .inl rfl
        · exact .inr ⟨h, hn⟩

theorem suffix_of_mem_takeWhile (ht : b ∈ s.offActive e)
    (ha : a ∈ (s.offActive e).takeWhile (· ≠ b)) : b <:+ a := by
  induction e with
  | nil => simp [offActive_nil] at ht
  | cons c p ih =>
    rw [offActive_cons] at ht ha
    split_ifs at ht ha with hc
    · cases ht
    · rw [List.takeWhile_cons] at ha
      split_ifs at ha with hb
      · simp only [ne_eq, decide_not, Bool.not_eq_true', decide_eq_false_iff_not] at hb
        have htp : b ∈ s.offActive p := (List.mem_cons.mp ht).resolve_left fun h => hb h.symm
        rcases List.mem_cons.mp ha with rfl | ha
        · exact (mem_offActive.mp htp).1.trans (List.suffix_cons c p)
        · exact ih htp ha
      · cases ha

theorem mem_takeWhile_or_eq (ht : b ∈ s.offActive e) :
    e ∈ (s.offActive e).takeWhile (· ≠ b) ∨ e = b := by
  cases e with
  | nil => simp [offActive_nil] at ht
  | cons c p =>
    rw [offActive_cons] at ht ⊢
    split_ifs at ht ⊢ with hc
    · cases ht
    · by_cases hb : c :: p = b
      · exact .inr hb
      · left
        rw [List.takeWhile_cons, if_pos (by simpa using hb)]
        exact .head _

/-- A branch that could be taken: the best candidate, with nothing wrong on it. -/
structure Connecting (T : BlockTree) (s : Selection) (r x : Lineage) : Prop where
  indexed : Indexed s []
  held : Held T s r
  mem : x ∈ s.candidates
  max : ∀ e ∈ s.candidates, sortKey T s e ≤ sortKey T s x
  clean : ∀ a, a <:+ x → (s.entry a).haveData = true ∧ (s.entry a).failed = false

section RemoveChain

variable (hi : Indexed s []) (hh : Held T s r) (hx : (s.entry x).nChainTx ≠ 0)
  (ht : b ∈ s.offActive x) (hb : (s.entry b).failed = true)
include hb in
theorem removeChain_entry (a : Lineage) : (s.removeChain (s.offActive x) b).entry a =
    if a ∈ (s.offActive x).takeWhile (· ≠ b) then { s.entry a with failedChild := true } else s.entry a := by
  simp [removeChain, if_pos hb]

include hb in
theorem removeChain_failed (h : (s.entry a).failed = true) :
    ((s.removeChain (s.offActive x) b).entry a).failed = true := by
  rw [removeChain_entry hb]
  split_ifs
  · simp [IndexEntry.failed]
  · exact h

include hb in
theorem removeChain_sameData : SameData s (s.removeChain (s.offActive x) b) := by
  refine ⟨?_, ?_, ?_, ?_, ?_, ?_, ?_, ?_⟩
  · simp [removeChain, hb]
  · simp [removeChain, hb]
  all_goals
    intro a
    rw [removeChain_entry hb]
    split_ifs <;> simp

include hb in
theorem mem_removeChain_candidates : a ∈ (s.removeChain (s.offActive x) b).candidates ↔
    a ∈ s.candidates ∧ a ∉ (s.offActive x).takeWhile (· ≠ b) ∧ a ≠ b := by
  simp [removeChain, hb]

include hb in
theorem removeChain_failedValid (a : Lineage) :
    ((s.removeChain (s.offActive x) b).entry a).failedValid = (s.entry a).failedValid := by
  rw [removeChain_entry hb]
  split_ifs <;> rfl

theorem removeChain_tip : (s.removeChain (s.offActive x) b).tip = s.tip := by
  unfold removeChain
  dsimp only
  split_ifs <;> rfl

include hi hx ht hb in
theorem removeChain_indexed : Indexed (s.removeChain (s.offActive x) b) [] := by
  refine hi.of_sameData (removeChain_sameData hb) ?_ ?_ ?_
  · intro a ha
    rw [removeChain_entry hb, if_neg]
    intro hm
    have hax := (mem_offActive.mp ((List.takeWhile_sublist _).subset hm)).1
    exact ha (hi.known (hi.data hx hax))
  · intro a ha
    simp only [removeChain_failedValid hb]
    rw [removeChain_entry hb] at ha
    split_ifs at ha with hm
    · have hba := suffix_of_mem_takeWhile ht hm
      cases hv : (s.entry b).failedValid with
      | true => exact ⟨b, hba, hv⟩
      | false =>
        obtain ⟨c, hc, hcv⟩ := hi.child b (by simpa [IndexEntry.failed, hv] using hb)
        exact ⟨c, hc.trans hba, hcv⟩
    · exact hi.child a ha
  · intro a ha
    exact hi.candidate_linked a ((mem_removeChain_candidates hb).mp ha).1

include hh ht hb in
theorem removeChain_held : Held T (s.removeChain (s.offActive x) b) r := by
  have hd := removeChain_sameData (x := x) hb
  have hsound : ∀ e, Sound T s e → (∀ a, a <:+ e → a ∉ (s.offActive x).takeWhile (· ≠ b)) →
      Sound T (s.removeChain (s.offActive x) b) e := by
    intro e he hout a ha
    rw [removeChain_entry hb, if_neg (hout a ha)]
    exact he a ha
  refine ⟨?_, ?_, ?_⟩
  · rw [removeChain_tip]
    refine hsound _ hh.active fun a ha hm => ?_
    exact (mem_offActive.mp ((List.takeWhile_sublist _).subset hm)).2 ha
  · refine hsound _ hh.best fun a ha hm => ?_
    have hbr := (hh.best b ((suffix_of_mem_takeWhile ht hm).trans ha)).2.1
    rw [hb] at hbr
    cases hbr
  · intro e hl hf hk
    have hout : e ∉ (s.offActive x).takeWhile (· ≠ b) := by
      intro hm
      rw [removeChain_entry hb, if_pos hm] at hf
      simp [IndexEntry.failed] at hf
    have hfe : (s.entry e).failed = false := by
      cases hs : (s.entry e).failed with
      | false => rfl
      | true => exact absurd (removeChain_failed hb hs) (by rw [hf]; exact Bool.false_ne_true)
    refine (mem_removeChain_candidates hb).mpr ⟨hh.complete e ?_ hfe ?_, hout, ?_⟩
    · rw [← hd.nChainTx]
      exact hl
    · rw [← hd.sortKey_eq, ← hd.sortKey_eq]
      exact hk
    · rintro rfl
      rw [hb] at hfe
      cases hfe

include ht hb in
theorem removeChain_length (hm : x ∈ s.candidates) :
    (s.removeChain (s.offActive x) b).candidates.length < s.candidates.length := by
  have hout : x ∉ (s.removeChain (s.offActive x) b).candidates := by
    rw [mem_removeChain_candidates hb]
    rintro ⟨-, h, hne⟩
    exact (mem_takeWhile_or_eq ht).elim h hne
  have heq : (s.removeChain (s.offActive x) b).candidates =
      s.candidates.filter fun a => !(a ∈ (s.offActive x).takeWhile (· ≠ b) || a = b) := by
    simp [removeChain, if_pos hb]
  rw [heq] at hout ⊢
  refine lt_of_le_of_ne (List.length_filter_le _ _) fun hlen => hout ?_
  rw [List.length_filter_eq_length_iff] at hlen
  exact List.mem_filter.mpr ⟨hm, hlen x hm⟩

end RemoveChain

theorem Indexed.assertion (hi : Indexed s []) (hx : ∀ a, a <:+ x → (s.entry a).haveData = true) :
    ((s.offActive x).take ((s.offActive x).findIdx s.unusable + 1)).all
      (fun a => (s.entry a).nChainTx ≠ 0 || a = []) = true := by
  refine List.all_eq_true.mpr fun a ha => ?_
  have hax := (mem_offActive.mp ((List.take_sublist _ _).subset ha)).1
  have hl : (s.entry a).nChainTx ≠ 0 := hi.linked fun c hc => hx c (hc.trans hax)
  simp [hl]

variable {n : Nat} {bs : List Lineage} {fork : Lineage}

/-- **The walk ends at a branch that could be taken.** What it removes from the
candidates it marks, so the candidates stay complete. -/
theorem findMostWork_spec (hi : Indexed s []) (hh : Held T s r) (hn : s.candidates.length < n) :
    ∃ x s', findMostWork T n s = some (some x, s') ∧ Connecting T s' r x ∧ s'.tip = s.tip ∧
      unfailed s' ≤ unfailed s := by
  induction n generalizing s with
  | zero => exact absurd hn (Nat.not_lt_zero _)
  | succ n ih =>
    have hr := hh.mem hi
    cases hbest : bestCandidate T s with
    | none => simp [List.argmax_eq_none.mp hbest] at hr
    | some x =>
      obtain ⟨hx, hmax⟩ := bestCandidate_spec hbest
      have hl := hi.candidate_linked x hx
      rw [findMostWork, hbest]
      dsimp only
      rw [if_pos (hi.assertion fun a ha => hi.data hl ha)]
      cases hfind : (s.offActive x).find? s.unusable with
      | none =>
        refine ⟨x, s, rfl, ⟨hi, hh, hx, hmax, fun a ha => ⟨hi.data hl ha, ?_⟩⟩, rfl, le_rfl⟩
        by_cases hact : a <:+ s.tip
        · exact (hh.active a hact).2.1
        · have husable := List.find?_eq_none.mp hfind a (mem_offActive.mpr ⟨ha, hact⟩)
          simp only [unusable, Bool.or_eq_true, not_or, Bool.not_eq_true] at husable
          exact husable.1
      | some b =>
        have ht := List.mem_of_find?_eq_some hfind
        have hb : (s.entry b).failed = true := by
          have hun := List.find?_some hfind
          simpa [unusable, hi.data hl (mem_offActive.mp ht).1] using hun
        have hlen := removeChain_length ht hb hx
        obtain ⟨y, s', hs', hc, htip, hle⟩ :=
          ih (removeChain_indexed hi hl ht hb) (removeChain_held hh ht hb) (by omega)
        refine ⟨y, s', hs', hc, htip.trans removeChain_tip, hle.trans ?_⟩
        exact unfailed_le (removeChain_sameData hb).nodes fun _ => removeChain_failed hb

theorem findMostWorkChain_spec (hi : Indexed s []) (hh : Held T s r) :
    ∃ x s', findMostWorkChain T s = some (some x, s') ∧ Connecting T s' r x ∧ s'.tip = s.tip ∧
      unfailed s' ≤ unfailed s :=
  findMostWork_spec hi hh (Nat.lt_succ_self _)

theorem Connecting.findMostWorkChain (h : Connecting T s r x) :
    Selection.findMostWorkChain T s = some (some x, s) := by
  have hbest := bestCandidate_of_max h.mem h.max
  have hfind : (s.offActive x).find? s.unusable = none := by
    refine List.find?_eq_none.mpr fun a ha => ?_
    have hclean := h.clean a (mem_offActive.mp ha).1
    simp [unusable, hclean.1, hclean.2]
  rw [Selection.findMostWorkChain, findMostWork, hbest]
  dsimp only
  rw [if_pos (h.indexed.assertion fun a ha => (h.clean a ha).1), hfind]

/-! ### One entry changes -/

theorem modify_entry (g : IndexEntry → IndexEntry) :
    (s.modify b g).entry a = if a = b then g (s.entry b) else s.entry a :=
  Function.update_apply ..

theorem modify_sameData {g : IndexEntry → IndexEntry}
    (hg : (g (s.entry b)).nChainWork = (s.entry b).nChainWork ∧
      (g (s.entry b)).nSequenceId = (s.entry b).nSequenceId ∧ (g (s.entry b)).nTx = (s.entry b).nTx ∧
      (g (s.entry b)).nChainTx = (s.entry b).nChainTx ∧ (g (s.entry b)).haveData = (s.entry b).haveData ∧
      (s.entry b).validity ≤ (g (s.entry b)).validity) : SameData s (s.modify b g) := by
  obtain ⟨h1, h2, h3, h4, h5, h6⟩ := hg
  refine ⟨rfl, rfl, ?_, ?_, ?_, ?_, ?_, ?_⟩
  all_goals
    intro e
    rw [modify_entry]
    split_ifs with he
    · subst he
      assumption
    · rfl

theorem IndexEntry.raiseValidity_eq (e : IndexEntry) (n : Nat) :
    ∃ v, e.raiseValidity n = { e with validity := v } ∧ e.validity ≤ v ∧ (e.failed = false → n ≤ v) := by
  unfold Rapids.Chain.IndexEntry.raiseValidity
  split_ifs with hf hv
  · exact ⟨e.validity, rfl, le_rfl, fun h => absurd (hf.symm.trans h) (by decide)⟩
  · exact ⟨n, rfl, hv.le, fun _ => le_rfl⟩
  · exact ⟨e.validity, rfl, le_rfl, fun _ => not_lt.mp hv⟩

theorem raise_sameData (s : Selection) (b : Lineage) (n : Nat) :
    SameData s (s.modify b fun e => e.raiseValidity n) := by
  obtain ⟨v, hv, hle, -⟩ := IndexEntry.raiseValidity_eq (s.entry b) n
  refine modify_sameData ?_
  rw [hv]
  exact ⟨rfl, rfl, rfl, rfl, rfl, hle⟩

theorem raise_marks (s : Selection) (b a : Lineage) (n : Nat) :
    ((s.modify b fun e => e.raiseValidity n).entry a).failedValid = (s.entry a).failedValid ∧
      ((s.modify b fun e => e.raiseValidity n).entry a).failedChild = (s.entry a).failedChild := by
  rw [modify_entry]
  split_ifs with h
  · subst h
    obtain ⟨v, hv, -⟩ := IndexEntry.raiseValidity_eq (s.entry a) n
    rw [hv]
    exact ⟨rfl, rfl⟩
  · exact ⟨rfl, rfl⟩

/-- A new tip on the way to the best candidate: what is pruned is worse than the
tip, and so is not needed. -/
theorem Connecting.of_prune (h : Connecting T s r x) (hb : b <:+ x) (htail : b.tail <:+ s.tip)
    (hconn : T.connects b = true) (d : SameData s s') (hblank : ∀ e, e ∉ s.nodes → s'.entry e = s.entry e)
    (hmarks : ∀ e, (s'.entry e).failedValid = (s.entry e).failedValid ∧
      (s'.entry e).failedChild = (s.entry e).failedChild)
    (htip : s'.tip = b)
    (hcand : ∀ e, e ∈ s'.candidates ↔ e ∈ s.candidates ∧ sortKey T s b ≤ sortKey T s e) :
    ∃ r', Connecting T s' r' x := by
  have hfail : ∀ e, (s'.entry e).failed = (s.entry e).failed := fun e => by
    simp [IndexEntry.failed, hmarks]
  have hkey := d.sortKey_eq (T := T)
  have hsound : ∀ e, Sound T s e → Sound T s' e := fun e he a ha => by
    rw [d.haveData, hfail]
    exact he a ha
  have hbsound : Sound T s b := by
    intro a ha
    refine ⟨(h.clean a (ha.trans hb)).1, (h.clean a (ha.trans hb)).2, fun hne => ?_⟩
    cases b with
    | nil => exact absurd (List.suffix_nil.mp ha) hne
    | cons c p =>
      rcases List.suffix_cons_iff.mp ha with rfl | hp
      · exact hconn
      · exact (h.held.active a (hp.trans htail)).2.2 hne
  have hbl : (s.entry b).nChainTx ≠ 0 := h.indexed.linked fun a ha => (hbsound a ha).1
  have hbf : (s.entry b).failed = false := (hbsound b (List.suffix_refl b)).2.1
  have hrx : sortKey T s r ≤ sortKey T s x := h.max r (h.held.mem h.indexed)
  have hbx : sortKey T s b ≤ sortKey T s x := by
    rcases le_total (sortKey T s r) (sortKey T s b) with hrb | hbr
    · exact h.max b (h.held.complete b hbl hbf hrb)
    · exact hbr.trans hrx
  have hindexed : Indexed s' [] := by
    refine h.indexed.of_sameData d hblank ?_ ?_
    · intro e he
      simp only [hmarks] at he ⊢
      exact h.indexed.child e he
    · intro e he
      exact h.indexed.candidate_linked e ((hcand e).mp he).1
  -- The better of the old mark and the new tip.
  have hheld : ∃ r', Held T s' r' := by
    rcases le_total (sortKey T s r) (sortKey T s b) with hrb | hbr
    · refine ⟨b, htip ▸ hsound b hbsound, hsound b hbsound, fun e hl hf hk => ?_⟩
      rw [d.nChainTx] at hl
      rw [hfail] at hf
      rw [hkey, hkey] at hk
      exact (hcand e).mpr ⟨h.held.complete e hl hf (hrb.trans hk), hk⟩
    · refine ⟨r, htip ▸ hsound b hbsound, hsound r h.held.best, fun e hl hf hk => ?_⟩
      rw [d.nChainTx] at hl
      rw [hfail] at hf
      rw [hkey, hkey] at hk
      exact (hcand e).mpr ⟨h.held.complete e hl hf hk, hbr.trans hk⟩
  obtain ⟨r', hr'⟩ := hheld
  refine ⟨r', hindexed, hr', (hcand x).mpr ⟨h.mem, hbx⟩, fun e he => ?_, fun a ha => ?_⟩
  · rw [hkey, hkey]
    exact h.max e ((hcand e).mp he).1
  · rw [d.haveData, hfail]
    exact h.clean a ha

theorem Connecting.connect (h : Connecting T s r x) (hb : b <:+ x) (htail : b.tail = s.tip)
    (hconn : T.connects b = true) :
    ∃ s' r', pruneBlockIndexCandidates T
        { s.modify b fun e => e.raiseValidity blockValidScripts with tip := b } = some s' ∧
      Connecting T s' r' x ∧ s'.tip = b ∧ unfailed s' ≤ unfailed s := by
  have hd := raise_sameData s b blockValidScripts
  have hm := fun a => raise_marks s b a blockValidScripts
  let s₁ : Selection := { s.modify b fun e => e.raiseValidity blockValidScripts with tip := b }
  let s₂ : Selection := { s₁ with candidates := s.candidates.filter fun e => !workComparator T s₁ e b }
  have hd2 : SameData s s₂ := ⟨hd.1, hd.2, hd.3, hd.4, hd.5, hd.6, hd.7, hd.8⟩
  have hcand : ∀ e, e ∈ s₂.candidates ↔ e ∈ s.candidates ∧ sortKey T s b ≤ sortKey T s e := by
    intro e
    have hkey : ∀ e, sortKey T s₁ e = sortKey T s e := hd.sortKey_eq
    simp [s₂, workComparator_eq_false, hkey]
  have hblank : ∀ e, e ∉ s.nodes → s₂.entry e = s.entry e := by
    intro e he
    have hbn : b ∈ s.nodes := h.indexed.known (h.clean b hb).1
    have hne : e ≠ b := fun heq => he (heq ▸ hbn)
    show (s.modify b fun e => e.raiseValidity blockValidScripts).entry e = s.entry e
    rw [modify_entry, if_neg hne]
  obtain ⟨r', hr'⟩ := h.of_prune hb (htail ▸ List.suffix_refl _) hconn hd2 hblank hm rfl hcand
  refine ⟨s₂, r', ?_, hr', rfl, unfailed_le hd.nodes fun e he => ?_⟩
  · have hne : s₂.candidates ≠ [] := List.ne_nil_of_mem hr'.mem
    exact if_neg hne
  · have hfe : (s₂.entry e).failed = (s.entry e).failed := by
      simp only [IndexEntry.failed]
      exact congrArg₂ _ (hm e).1 (hm e).2
    exact hfe.trans he

/-- Mark a block as invalid and drop it from the candidates. -/
def fail (s : Selection) (b : Lineage) : Selection :=
  (s.modify b fun e => { e with failedValid := true }).eraseCandidate b

theorem fail_entry : (s.fail b).entry a =
    if a = b then { s.entry b with failedValid := true } else s.entry a :=
  modify_entry fun e => { e with failedValid := true }

theorem fail_failed (h : (s.entry a).failed = true) : ((s.fail b).entry a).failed = true := by
  rw [fail_entry]
  split_ifs
  · simp [IndexEntry.failed]
  · exact h

theorem fail_sameData (s : Selection) (b : Lineage) : SameData s (s.fail b) := by
  have hd : SameData s (s.modify b fun e => { e with failedValid := true }) :=
    modify_sameData ⟨rfl, rfl, rfl, rfl, rfl, le_rfl⟩
  exact ⟨hd.1, hd.2, hd.3, hd.4, hd.5, hd.6, hd.7, hd.8⟩

theorem mem_fail_candidates : a ∈ (s.fail b).candidates ↔ a ∈ s.candidates ∧ a ≠ b := by
  simp [fail, eraseCandidate, modify]

theorem Indexed.fail (h : Indexed s []) (hb : b ∈ s.nodes) : Indexed (s.fail b) [] := by
  refine h.of_sameData (fail_sameData s b) ?_ ?_ ?_
  · intro e he
    have hne : e ≠ b := fun heq => he (heq ▸ hb)
    rw [fail_entry, if_neg hne]
  · intro e he
    have hold : (s.entry e).failedChild = true := by
      rw [fail_entry] at he
      split_ifs at he with heq
      · exact heq ▸ he
      · exact he
    obtain ⟨a, ha, hv⟩ := h.child e hold
    refine ⟨a, ha, ?_⟩
    rw [fail_entry]
    split_ifs
    · rfl
    · exact hv
  · intro e he
    exact h.candidate_linked e (mem_fail_candidates.mp he).1

theorem Sound.fail (h : Sound T s e) (hb : ¬ b <:+ e) : Sound T (s.fail b) e := by
  intro a ha
  have hne : a ≠ b := fun heq => hb (heq ▸ ha)
  rw [fail_entry, if_neg hne]
  exact h a ha

/-- The candidates stay complete when a block off the best tip and off the active
chain fails. -/
theorem Held.fail (h : Held T s r) (htip : ¬ b <:+ s.tip) (hr : ¬ b <:+ r) : Held T (s.fail b) r := by
  have hd := fail_sameData s b
  refine ⟨h.active.fail htip, h.best.fail hr, fun e hl hf hk => ?_⟩
  have hne : e ≠ b := by
    rintro rfl
    simp [fail_entry, IndexEntry.failed] at hf
  rw [fail_entry, if_neg hne] at hf
  rw [hd.nChainTx] at hl
  rw [hd.sortKey_eq, hd.sortKey_eq] at hk
  exact mem_fail_candidates.mpr ⟨h.complete e hl hf hk, hne⟩

theorem Connecting.invalid (h : Connecting T s r x) (hb : b <:+ x) (hne : b ≠ [])
    (hconn : T.connects b = false) :
    Indexed (s.fail b) [] ∧ Held T (s.fail b) r ∧ unfailed (s.fail b) < unfailed s := by
  have hoff : ∀ e, Sound T s e → ¬ b <:+ e := by
    intro e he hbe
    have hc := (he b hbe).2.2 hne
    rw [hconn] at hc
    cases hc
  have hbn : b ∈ s.nodes := h.indexed.known (h.clean b hb).1
  refine ⟨h.indexed.fail hbn, h.held.fail (hoff _ h.held.active) (hoff _ h.held.best), ?_⟩
  refine unfailed_lt rfl (fun _ => fail_failed) hbn (h.clean b hb).2 ?_
  simp [fail_entry, IndexEntry.failed]

/-! ### `ActivateBestChainStep` -/

/-- The blocks go up one by one from a tip. -/
def Ascends : Lineage → List Lineage → Prop
  | _, [] => True
  | t, b :: rest => b ≠ [] ∧ b.tail = t ∧ Ascends b rest

/-- How a loop over blocks to connect ends: a system error, one more invalid block, or
a tip further up. -/
def Progress (T : BlockTree) (f : Faults) (s : Selection) (x : Lineage) (bs : List Lineage) (v : Verdict)
    (s' : Selection) : Prop :=
  (v = .fail ∧ ∃ b, f.connect b = true) ∨
  (v = .stop ∧ ∃ r', Indexed s' [] ∧ Held T s' r' ∧ s'.tip ≠ x ∧ unfailed s' < unfailed s) ∨
  ∃ r', Connecting T s' r' x ∧ unfailed s' ≤ unfailed s ∧
    (v = .stop ∧ s'.tip ∈ bs ∨ v = .next ∧ s'.tip = bs.getLastD s.tip)

theorem connectBatch_progress (h : Connecting T s r x) (old : Lineage)
    (hbs : ∀ b ∈ bs, b <:+ x) (hasc : Ascends s.tip bs) :
    ∃ v s', connectBatch T f old bs s = some (v, s') ∧ Progress T f s x bs v s' := by
  induction bs generalizing s r with
  | nil => exact ⟨.next, s, rfl, .inr (.inr ⟨r, h, le_rfl, .inr ⟨rfl, rfl⟩⟩)⟩
  | cons b rest ih =>
    obtain ⟨hne, htail, hrest⟩ := hasc
    have hbx := hbs b (.head _)
    rw [connectBatch]
    by_cases hfault : f.connect b = true
    · refine ⟨.fail, s, by simp [connectTip, hfault], .inl ⟨rfl, b, hfault⟩⟩
    by_cases hconn : T.connects b = true
    · obtain ⟨s₁, r₁, hprune, hc1, htip1, hle1⟩ := h.connect hbx htail hconn
      simp only [connectTip, hfault, hconn, if_true, Bool.false_eq_true, if_false, hprune]
      split_ifs
      · exact ⟨.stop, s₁, rfl, .inr (.inr ⟨r₁, hc1, hle1, .inl ⟨rfl, htip1 ▸ (.head _)⟩⟩)⟩
      · obtain ⟨v, s', hs', hp⟩ := ih hc1 (fun c hc => hbs c (.tail _ hc)) (htip1 ▸ hrest)
        refine ⟨v, s', hs', ?_⟩
        rcases hp with hp | ⟨hv, r', hi', hh', hx', hlt⟩ | ⟨r', hc', hle', hv⟩
        · exact .inl hp
        · exact .inr (.inl ⟨hv, r', hi', hh', hx', hlt.trans_le hle1⟩)
        · refine .inr (.inr ⟨r', hc', hle'.trans hle1, ?_⟩)
          rcases hv with ⟨hv, hmem⟩ | ⟨hv, hlast⟩
          · exact .inl ⟨hv, .tail _ hmem⟩
          · refine .inr ⟨hv, ?_⟩
            rw [hlast, htip1]
            cases rest <;> rfl
    · rw [Bool.not_eq_true] at hconn
      refine ⟨.stop, s.fail b, by simp [connectTip, hfault, hconn, Selection.fail], .inr (.inl ?_)⟩
      obtain ⟨hi', hh', hlt⟩ := h.invalid hbx hne hconn
      refine ⟨rfl, r, hi', hh', fun heq => ?_, hlt⟩
      have hlen := hbx.length_le
      have hpos := List.length_pos_iff.mpr hne
      have htl : b.tail.length = x.length := congrArg List.length (htail.trans heq)
      rw [List.length_tail] at htl
      omega

theorem Ascends.append {t : Lineage} {cs : List Lineage} (h : Ascends t (bs ++ cs)) :
    Ascends t bs ∧ Ascends (bs.getLastD t) cs := by
  induction bs generalizing t with
  | nil => exact ⟨trivial, h⟩
  | cons b rest ih =>
    obtain ⟨hne, htail, hrest⟩ := h
    obtain ⟨hr, hc⟩ := ih hrest
    refine ⟨⟨hne, htail, hr⟩, ?_⟩
    cases rest <;> exact hc

theorem getLastD_append (bs cs : List Lineage) (t : Lineage) :
    (bs ++ cs).getLastD t = cs.getLastD (bs.getLastD t) := by
  cases cs with
  | nil => simp
  | cons c rest => simp [List.getLastD_eq_getLast?]

theorem connectBatches_progress (h : Connecting T s r x) (old : Lineage)
    (hn : bs.length ≤ n) (hbs : ∀ b ∈ bs, b <:+ x) (hasc : Ascends s.tip bs) :
    ∃ v s', connectBatches T f old n bs s = some (v, s') ∧ Progress T f s x bs v s' := by
  induction n generalizing s r bs with
  | zero =>
    obtain rfl : bs = [] := List.length_eq_zero_iff.mp (Nat.le_zero.mp hn)
    exact ⟨.next, s, rfl, .inr (.inr ⟨r, h, le_rfl, .inr ⟨rfl, rfl⟩⟩)⟩
  | succ n ih =>
    rw [connectBatches]
    split_ifs with hnil
    · subst hnil
      exact ⟨.next, s, rfl, .inr (.inr ⟨r, h, le_rfl, .inr ⟨rfl, rfl⟩⟩)⟩
    · have hsplit := List.take_append_drop 32 bs
      rw [← hsplit] at hasc
      obtain ⟨hasc1, hasc2⟩ := hasc.append
      have htake : ∀ b ∈ bs.take 32, b ∈ bs := fun b => (List.take_sublist 32 bs).subset (a := b)
      have hdrop : ∀ b ∈ bs.drop 32, b ∈ bs := fun b => (List.drop_sublist 32 bs).subset (a := b)
      obtain ⟨v, s₁, hs1, hp⟩ := connectBatch_progress (f := f) h old (fun b hb => hbs b (htake b hb)) hasc1
      rw [hs1]
      rcases hp with ⟨rfl, hp⟩ | ⟨rfl, hp⟩ | ⟨r₁, hc1, hle1, ⟨rfl, hmem⟩ | ⟨rfl, hlast⟩⟩
      · exact ⟨.fail, s₁, rfl, .inl ⟨rfl, hp⟩⟩
      · exact ⟨.stop, s₁, rfl, .inr (.inl ⟨rfl, hp⟩)⟩
      · exact ⟨.stop, s₁, rfl, .inr (.inr ⟨r₁, hc1, hle1, .inl ⟨rfl, htake _ hmem⟩⟩)⟩
      · have hlen : (bs.drop 32).length ≤ n := by
          have hpos := List.length_pos_iff.mpr hnil
          rw [List.length_drop]
          omega
        obtain ⟨v, s', hs', hp⟩ := ih hc1 hlen (fun b hb => hbs b (hdrop b hb)) (hlast ▸ hasc2)
        refine ⟨v, s', hs', ?_⟩
        rcases hp with hp | ⟨hv, r', hi', hh', hx', hlt⟩ | ⟨r', hc', hle', hv⟩
        · exact .inl hp
        · exact .inr (.inl ⟨hv, r', hi', hh', hx', hlt.trans_le hle1⟩)
        · refine .inr (.inr ⟨r', hc', hle'.trans hle1, ?_⟩)
          rcases hv with ⟨hv, hmem⟩ | ⟨hv, hlast'⟩
          · exact .inl ⟨hv, hdrop _ hmem⟩
          · refine .inr ⟨hv, ?_⟩
            rw [hlast', hlast, ← getLastD_append, hsplit]

theorem findFork_suffix (s : Selection) (e : Lineage) : s.findFork e <:+ e ∧ s.findFork e <:+ s.tip := by
  induction e with
  | nil => exact ⟨List.suffix_refl _, List.nil_suffix⟩
  | cons c p ih =>
    rw [findFork]
    split_ifs with hc
    · exact ⟨List.suffix_refl _, contains_iff.mp hc⟩
    · exact ⟨ih.1.trans (List.suffix_cons c p), ih.2⟩

theorem suffix_findFork (ha : a <:+ e) (ht : a <:+ s.tip) : a <:+ s.findFork e := by
  induction e with
  | nil => exact ha
  | cons c p ih =>
    rw [findFork]
    split_ifs with hc
    · exact ha
    · rcases List.suffix_cons_iff.mp ha with rfl | hp
      · exact absurd (contains_iff.mpr ht) hc
      · exact ih hp

theorem disconnectTo_spec {t : Lineage} (hfork : fork <:+ t) (htip : s.tip = t) :
    disconnectTo f fork t s = (true, { s with tip := fork }) ∨
      (disconnectTo f fork t s).1 = false ∧ ∃ b, f.disconnect b = true := by
  induction t generalizing s with
  | nil =>
    obtain rfl := List.suffix_nil.mp hfork
    left
    simp [disconnectTo, ← htip]
  | cons c p ih =>
    rw [disconnectTo]
    split_ifs with heq hd
    · subst heq
      left
      rw [← htip]
    · have hp : fork <:+ p := (List.suffix_cons_iff.mp hfork).resolve_left fun h => heq h.symm
      exact ih (s := { s with tip := p }) hp rfl
    · right
      simp only [Faults.disconnects, ne_eq, List.cons_ne_nil, not_false_eq_true, decide_true,
        Bool.true_and, Bool.not_eq_true', Bool.not_eq_false] at hd
      exact ⟨rfl, c :: p, hd⟩

theorem branchAbove_cons {p : Lineage} (c : Nat) (h : fork <:+ p) :
    branchAbove fork (c :: p) = branchAbove fork p ++ [c :: p] := by
  have hlen := h.length_le
  have hsub : (c :: p).length - fork.length = (p.length - fork.length) + 1 := by
    rw [List.length_cons]
    omega
  rw [branchAbove, hsub, List.tails, List.take_succ_cons, List.reverse_cons, branchAbove]

theorem branchAbove_self (e : Lineage) : branchAbove e e = [] := by simp [branchAbove]

theorem branchAbove_spec (h : fork <:+ e) :
    Ascends fork (branchAbove fork e) ∧ (∀ b ∈ branchAbove fork e, b <:+ e ∧ fork.length < b.length) ∧
      (branchAbove fork e).getLastD fork = e := by
  induction e with
  | nil =>
    obtain rfl := List.suffix_nil.mp h
    rw [branchAbove_self]
    exact ⟨trivial, fun b hb => absurd hb List.not_mem_nil, rfl⟩
  | cons c p ih =>
    rcases List.suffix_cons_iff.mp h with rfl | hp
    · rw [branchAbove_self]
      exact ⟨trivial, fun b hb => absurd hb List.not_mem_nil, rfl⟩
    · obtain ⟨hasc, hmem, hlast⟩ := ih hp
      rw [branchAbove_cons c hp]
      refine ⟨?_, ?_, ?_⟩
      · have happ : ∀ t bs, Ascends t bs → bs.getLastD t = p → Ascends t (bs ++ [c :: p]) := by
          intro t bs
          induction bs generalizing t with
          | nil => exact fun _ hp => ⟨List.cons_ne_nil c p, hp.symm, trivial⟩
          | cons b rest ih =>
            rintro ⟨hne, htail, hrest⟩ hl
            exact ⟨hne, htail, ih b hrest (by cases rest <;> exact hl)⟩
        exact happ fork _ hasc hlast
      · intro b hb
        rcases List.mem_append.mp hb with hb | hb
        · exact ⟨(hmem b hb).1.trans (List.suffix_cons c p), (hmem b hb).2⟩
        · obtain rfl := List.mem_singleton.mp hb
          have hle := hp.length_le
          exact ⟨List.suffix_refl _, by rw [List.length_cons]; omega⟩
      · simp

/-- **One round.** A round that meets no system error finds a block invalid, or
ends at the best candidate, or above the fork on the way to it. -/
theorem activateBestChainStep_spec (h : Connecting T s r x) :
    ∃ ok s', activateBestChainStep T f s x = some (ok, s') ∧
      ((ok = false ∧ ∃ b, f.disconnect b = true ∨ f.connect b = true) ∨
        ok = true ∧ ∃ r', (Indexed s' [] ∧ Held T s' r' ∧ s'.tip ≠ x ∧ unfailed s' < unfailed s) ∨
          Connecting T s' r' x ∧ unfailed s' ≤ unfailed s ∧
            (s'.tip = x ∨ s'.tip <:+ x ∧ (s.findFork x).length < s'.tip.length)) := by
  obtain ⟨hfx, hft⟩ := findFork_suffix s x
  unfold activateBestChainStep
  dsimp only
  rcases disconnectTo_spec (f := f) (s := s) hft rfl with hd | ⟨hd, b, hb⟩
  · rw [hd]
    dsimp only
    obtain ⟨hasc, hmem, hlast⟩ := branchAbove_spec hfx
    have hc : Connecting T { s with tip := s.findFork x } r x :=
      { indexed := ⟨h.indexed.1, h.indexed.2, h.indexed.3, h.indexed.4, h.indexed.5, h.indexed.6,
          h.indexed.7, h.indexed.8, h.indexed.9, h.indexed.10, h.indexed.11⟩
        held := ⟨h.held.active.suffix hft, h.held.best, h.held.complete⟩
        mem := h.mem
        max := h.max
        clean := h.clean }
    obtain ⟨v, s', hs', hp⟩ := connectBatches_progress (f := f) hc s.tip
      (Nat.le_refl (branchAbove (s.findFork x) x).length) (fun b hb => (hmem b hb).1) hasc
    rw [hs']
    refine ⟨v != .fail, s', rfl, ?_⟩
    rcases hp with ⟨rfl, b, hb⟩ | ⟨rfl, r', hp⟩ | ⟨r', hc', hle', ⟨rfl, hm⟩ | ⟨rfl, hl⟩⟩
    · exact .inl ⟨rfl, b, .inr hb⟩
    · exact .inr ⟨rfl, r', .inl hp⟩
    · exact .inr ⟨rfl, r', .inr ⟨hc', hle', .inr (hmem _ hm)⟩⟩
    · exact .inr ⟨rfl, r', .inr ⟨hc', hle', .inl (hl.trans hlast)⟩⟩
  · generalize disconnectTo f (s.findFork x) s.tip s = p at hd
    obtain ⟨ok, s'⟩ := p
    obtain rfl : ok = false := hd
    exact ⟨false, s', rfl, .inl ⟨rfl, b, .inl hb⟩⟩

/-! ### `ActivateBestChain` -/

/-- Nothing is to be done: the tip is the best candidate. -/
structure Done (T : BlockTree) (s : Selection) : Prop where
  indexed : Indexed s []
  held : Held T s s.tip
  max : ∀ e ∈ s.candidates, sortKey T s e ≤ sortKey T s s.tip

theorem Connecting.done (h : Connecting T s r x) (htip : s.tip = x) : Done T s := by
  subst htip
  refine ⟨h.indexed, ⟨h.held.active, h.held.active, fun e hl hf hk => ?_⟩, h.max⟩
  exact h.held.complete e hl hf ((h.max r (h.held.mem h.indexed)).trans hk)

/-- Activation returns, and if nothing went wrong or it says so, it is done. -/
def Finishes (T : BlockTree) (f : Faults) (s : Selection) : Prop :=
  ∃ n ok s', activateBestChain T f n s = some (ok, s') ∧ (ok = true ∨ f.Absent → Done T s')

theorem finishes_of_round {s₁ : Selection} (hfind : findMostWorkChain T s = some (some x, s₁))
    (hc : Connecting T s₁ r x)
    (hrest : ∀ s' r', (Indexed s' [] ∧ Held T s' r' ∧ unfailed s' < unfailed s₁) ∨
      (Connecting T s' r' x ∧ unfailed s' ≤ unfailed s₁ ∧ s'.tip <:+ x ∧
        (s₁.findFork x).length < s'.tip.length) → Finishes T f s') :
    Finishes T f s := by
  by_cases htip : x = s₁.tip
  · refine ⟨1, true, s₁, ?_, fun _ => hc.done htip.symm⟩
    simp [activateBestChain, hfind, if_pos htip]
  obtain ⟨ok, s', hstep, hcases⟩ := activateBestChainStep_spec (f := f) hc
  rcases hcases with ⟨rfl, b, hb⟩ | ⟨rfl, r', hcases⟩
  · refine ⟨1, false, s', ?_, ?_⟩
    · simp [activateBestChain, hfind, if_neg htip, hstep]
    · rintro (h | h)
      · cases h
      · rw [(h b).1, (h b).2] at hb
        simp at hb
  · by_cases htip' : x = s'.tip
    · have hdone : Done T s' := by
        rcases hcases with ⟨-, -, hne, -⟩ | ⟨hc', -⟩
        · exact absurd htip'.symm hne
        · exact hc'.done htip'.symm
      refine ⟨1, !f.flush, s', ?_, fun _ => hdone⟩
      simp [activateBestChain, hfind, if_neg htip, hstep, if_pos htip']
    · have hfin : Finishes T f s' := by
        rcases hcases with ⟨hi', hh', -, hlt⟩ | ⟨hc', hle', heq | hup⟩
        · exact hrest s' r' (.inl ⟨hi', hh', hlt⟩)
        · exact absurd heq.symm htip'
        · exact hrest s' r' (.inr ⟨hc', hle', hup⟩)
      obtain ⟨n, ok, s'', hrun, hdone⟩ := hfin
      refine ⟨n + 1, ok, s'', ?_, hdone⟩
      rw [activateBestChain, hfind]
      simp [if_neg htip, hstep, if_neg htip', hrun]

/-- On the way to the best candidate the tip only goes up, until a block fails. -/
theorem Connecting.finishes {u k : Nat}
    (hfewer : ∀ s r, Indexed s [] → Held T s r → unfailed s < u → Finishes T f s)
    (h : Connecting T s r x) (hup : s.tip <:+ x) (hk : x.length - s.tip.length ≤ k) (hu : unfailed s ≤ u) :
    Finishes T f s := by
  induction k generalizing s r with
  | zero =>
    -- The tip is as long as the candidate, so it is the candidate.
    refine finishes_of_round h.findMostWorkChain h fun s' r' hnext => ?_
    have hlen := hup.length_le
    have hfork := (suffix_findFork hup (List.suffix_refl s.tip)).length_le
    rcases hnext with ⟨hi', hh', hlt⟩ | ⟨-, -, hup', hlt⟩
    · exact hfewer s' r' hi' hh' (by omega)
    · have hle := hup'.length_le
      omega
  | succ k ih =>
    refine finishes_of_round h.findMostWorkChain h fun s' r' hnext => ?_
    have hfork := (suffix_findFork hup (List.suffix_refl s.tip)).length_le
    rcases hnext with ⟨hi', hh', hlt⟩ | ⟨hc', hle', hup', hlt⟩
    · exact hfewer s' r' hi' hh' (by omega)
    · exact ih hc' hup' (by omega) (by omega)

/-- **Activation ends**, with the best candidate as the tip. -/
theorem Held.finishes (hi : Indexed s []) (h : Held T s r) : Finishes T f s := by
  induction hu : unfailed s using Nat.strongRecOn generalizing s r with
  | _ u ih =>
    obtain ⟨x, s₁, hfind, hc, -, hle⟩ := findMostWorkChain_spec hi h
    have hfewer : ∀ s r, Indexed s [] → Held T s r → unfailed s < u → Finishes T f s := by
      intro s r hi h hlt
      exact ih (unfailed s) hlt hi h rfl
    refine finishes_of_round hfind hc fun s' r' hnext => ?_
    rcases hnext with ⟨hi', hh', hlt⟩ | ⟨hc', hle', hup', -⟩
    · exact hfewer s' r' hi' hh' (by omega)
    · exact hc'.finishes hfewer hup' le_rfl (by omega)

theorem activateBestChain_succ {res : Bool × Selection} (h : activateBestChain T f n s = some res) :
    activateBestChain T f (n + 1) s = some res := by
  induction n generalizing s with
  | zero => cases h
  | succ n ih =>
    rw [activateBestChain] at h ⊢
    split at h
    · cases h
    · exact h
    · split_ifs at h ⊢
      · exact h
      · split at h
        · cases h
        · exact h
        · split_ifs at h ⊢
          · exact h
          · exact ih h

theorem activateBestChain_le {m : Nat} {res : Bool × Selection} (hnm : n ≤ m)
    (h : activateBestChain T f n s = some res) : activateBestChain T f m s = some res := by
  induction m, hnm using Nat.le_induction with
  | base => exact h
  | succ m _ ih => exact activateBestChain_succ ih

theorem Held.activate_done (hi : Indexed s []) (h : Held T s r) {ok : Bool}
    (hrun : activateBestChain T f n s = some (ok, s')) (hok : ok = true ∨ f.Absent) : Done T s' := by
  obtain ⟨m, ok', s₁, hrun', hdone⟩ := h.finishes (f := f) hi
  have heq := (activateBestChain_le (le_max_left n m) hrun).symm.trans
    (activateBestChain_le (le_max_right n m) hrun')
  simp only [Option.some.injEq, Prod.mk.injEq] at heq
  obtain ⟨rfl, rfl⟩ := heq
  exact hdone hok

end Rapids.Chain.Selection
