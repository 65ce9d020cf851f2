import Mathlib.Data.List.Infix
import Mathlib.Data.List.Nodup
import Rapids.Chain.SelectionSound

/-!
# Rapids.Chain.SelectionArrival

**Blocks arrive**, in any order: `AcceptBlock` keeps the index well formed and the
candidates complete.

A block may come before the data of its ancestors. `ReceivedBlockTransactions` keeps
it in `mapBlocksUnlinked` until its parent is linked, and then links all that waited
by a queue. The invariant of the queue (`Linking`) says that a block is not linked
exactly if data is missing below it or a block below it is still in the queue. With
each turn the children of a block take its place in the queue.
-/

namespace Rapids.Chain.Selection

variable {T : BlockTree} {s s' : Selection} {a b e : Lineage}

/-! ### Linking -/

theorem branchTx_cons (c : Nat) (p : Lineage) : branchTx s (c :: p) = (s.entry (c :: p)).nTx + branchTx s p := by
  simp [branchTx]

theorem branchTx_congr (h : ∀ a, a <:+ e → (s'.entry a).nTx = (s.entry a).nTx) :
    branchTx s' e = branchTx s e := by
  unfold branchTx
  refine congrArg List.sum (List.map_congr_left fun a ha => h a ((List.mem_tails a e).mp ha))

/-- The state of the queue of `ReceivedBlockTransactions`. -/
structure Linking (T : BlockTree) (s : Selection) (queue : List Lineage) : Prop where
  indexed : Indexed s queue
  held : Held T s s.tip
  tip_linked : (s.entry s.tip).nChainTx ≠ 0
  nodup : queue.Nodup
  queued : ∀ q ∈ queue, ∃ h p, q = h :: p ∧ (s.entry q).haveData = true ∧ (s.entry p).nChainTx ≠ 0
  /-- No count of a complete branch is lost. -/
  counted : ∀ e, (∀ a, a <:+ e → (s.entry a).haveData = true) → branchTx s e % 2 ^ 32 ≠ 0

/-- One turn of the loop: what it makes of the entry. -/
def linkEntry (s : Selection) (q : Lineage) (e : IndexEntry) : IndexEntry :=
  { e with
    nChainTx := ((s.entry q.tail).nChainTx + e.nTx) % 2 ^ 32
    nSequenceId := s.nBlockSequenceId }

/-- One turn of the loop: what it makes of the state. -/
def linkOne (T : BlockTree) (s : Selection) (q : Lineage) : Selection :=
  let s₁ := s.modify q (linkEntry s q)
  let s₂ := if workComparator T s₁ q s₁.tip then s₁ else s₁.insertCandidate q
  { s₂ with
    unlinked := s.unlinked.filter (·.1 ≠ q)
    nBlockSequenceId := (s.nBlockSequenceId + 1) % 2 ^ 32 }

/-- The blocks that wait for a block to be linked. -/
def waiting (s : Selection) (q : Lineage) : List Lineage := (s.unlinked.filter (·.1 = q)).map Prod.snd

theorem linkQueue_cons (n : Nat) (h : Nat) (p : Lineage) (queue : List Lineage) :
    linkQueue T (n + 1) ((h :: p) :: queue) s =
      linkQueue T n (queue ++ waiting s (h :: p)) (linkOne T s (h :: p)) := rfl

section LinkOne

variable {q : Lineage}

theorem linkOne_entry : (linkOne T s q).entry a =
    if a = q then linkEntry s q (s.entry q) else s.entry a := by
  rw [← modify_entry]
  unfold linkOne
  dsimp only
  split <;> rfl

theorem linkOne_ne (h : a ≠ q) : (linkOne T s q).entry a = s.entry a := by
  rw [linkOne_entry, if_neg h]

theorem linkOne_kept (a : Lineage) :
    ((linkOne T s q).entry a).nTx = (s.entry a).nTx ∧
    ((linkOne T s q).entry a).nChainWork = (s.entry a).nChainWork ∧
    ((linkOne T s q).entry a).haveData = (s.entry a).haveData ∧
    ((linkOne T s q).entry a).validity = (s.entry a).validity ∧
    ((linkOne T s q).entry a).failedValid = (s.entry a).failedValid ∧
    ((linkOne T s q).entry a).failedChild = (s.entry a).failedChild := by
  rw [linkOne_entry]
  split_ifs with h
  · subst h
    exact ⟨rfl, rfl, rfl, rfl, rfl, rfl⟩
  · exact ⟨rfl, rfl, rfl, rfl, rfl, rfl⟩

theorem linkOne_nodes : (linkOne T s q).nodes = s.nodes ∧ (linkOne T s q).tip = s.tip := by
  unfold linkOne
  dsimp only
  split <;> exact ⟨rfl, rfl⟩

theorem linkOne_unlinked : (linkOne T s q).unlinked = s.unlinked.filter (·.1 ≠ q) := rfl

theorem sortKey_linkOne (h : a ≠ q) : sortKey T (linkOne T s q) a = sortKey T s a := by
  simp [sortKey, linkOne_ne h]

theorem mem_linkOne_candidates : a ∈ (linkOne T s q).candidates ↔
    a ∈ s.candidates ∨ a = q ∧ sortKey T (linkOne T s q) s.tip ≤ sortKey T (linkOne T s q) q := by
  have hkey : ∀ e, sortKey T (linkOne T s q) e = sortKey T (s.modify q (linkEntry s q)) e := by
    intro e
    simp [sortKey, linkOne_entry, modify_entry]
  rw [hkey, hkey, ← workComparator_eq_false]
  unfold linkOne
  dsimp only
  split
  · rename_i hw
    have hw' : workComparator T (s.modify q (linkEntry s q)) q s.tip = true := hw
    rw [hw']
    simp [modify]
  · rename_i hw
    have hw' : workComparator T (s.modify q (linkEntry s q)) q s.tip = false := Bool.eq_false_iff.mpr hw
    rw [hw']
    simp only [insertCandidate, modify, List.mem_insert_iff, and_true]
    exact or_comm

end LinkOne

section Turn

variable {h : Nat} {p : Lineage} {queue : List Lineage}

section
variable (hl : Linking T s ((h :: p) :: queue))
include hl

theorem Linking.head_unlinked : (s.entry (h :: p)).nChainTx = 0 := by
  by_contra hne
  exact ((hl.indexed.linked_iff _).mp hne).2 _ (.head _) (List.suffix_refl _)

theorem Linking.parent_linked : (s.entry p).nChainTx ≠ 0 := by
  obtain ⟨_, _, heq, -, hp⟩ := hl.queued _ (.head _)
  obtain ⟨-, rfl⟩ := List.cons.inj heq
  exact hp

theorem Linking.head_data (ha : a <:+ h :: p) :
    (s.entry a).haveData = true := by
  rcases List.suffix_cons_iff.mp ha with rfl | hp
  · obtain ⟨_, _, -, hdata, -⟩ := hl.queued _ (.head _)
    exact hdata
  · exact ((hl.indexed.linked_iff p).mp hl.parent_linked).1 a hp

theorem Linking.mem_waiting :
    e ∈ waiting s (h :: p) ↔ ∃ c, e = c :: h :: p ∧ (s.entry e).haveData = true := by
  simp only [waiting, List.mem_map, List.mem_filter, decide_eq_true_eq, Prod.exists]
  constructor
  · rintro ⟨p', e', ⟨hmem, rfl⟩, rfl⟩
    obtain ⟨c, hc, hdata, -⟩ := (hl.indexed.unlinked_iff _ _).mp hmem
    exact ⟨c, hc, hdata⟩
  · rintro ⟨c, rfl, hdata⟩
    exact ⟨h :: p, c :: h :: p,
      ⟨(hl.indexed.unlinked_iff _ _).mpr ⟨c, rfl, hdata, hl.head_unlinked⟩, rfl⟩, rfl⟩

theorem Linking.head_count :
    ((linkOne T s (h :: p)).entry (h :: p)).nChainTx = branchTx s (h :: p) % 2 ^ 32 := by
  rw [linkOne_entry, if_pos rfl]
  show ((s.entry p).nChainTx + (s.entry (h :: p)).nTx) % 2 ^ 32 = branchTx s (h :: p) % 2 ^ 32
  rw [hl.indexed.count p hl.parent_linked, branchTx_cons, Nat.mod_add_mod, Nat.add_comm]

theorem Linking.head_linked :
    ((linkOne T s (h :: p)).entry (h :: p)).nChainTx ≠ 0 := by
  rw [hl.head_count]
  exact hl.counted _ fun a ha => hl.head_data ha

theorem Linking.tip_ne : s.tip ≠ h :: p := by
  intro heq
  exact hl.tip_linked (heq ▸ hl.head_unlinked)

/-- After the turn the queue still says what is not linked: the children of the
block took its place. -/
theorem Linking.linked_iff (e : Lineage) :
    ((linkOne T s (h :: p)).entry e).nChainTx ≠ 0 ↔
      (∀ a, a <:+ e → ((linkOne T s (h :: p)).entry a).haveData = true) ∧
        ∀ q ∈ queue ++ waiting s (h :: p), ¬ q <:+ e := by
  have hi := hl.indexed
  simp only [(linkOne_kept _).2.2.1]
  by_cases he : e = h :: p
  · subst he
    refine iff_of_true hl.head_linked ⟨fun a => hl.head_data, fun q hq hsuf => ?_⟩
    rcases List.mem_append.mp hq with hq | hq
    · rcases List.suffix_cons_iff.mp hsuf with rfl | hp
      · exact (List.nodup_cons.mp hl.nodup).1 hq
      · exact ((hi.linked_iff p).mp hl.parent_linked).2 q (.tail _ hq) hp
    · obtain ⟨c, rfl, -⟩ := hl.mem_waiting.mp hq
      exact not_cons_suffix_self c _ hsuf
  · rw [linkOne_ne he, hi.linked_iff]
    refine and_congr_right fun hdata => ⟨fun hno q hq => ?_, fun hno q hq hsuf => ?_⟩
    · rcases List.mem_append.mp hq with hq | hq
      · exact hno q (.tail _ hq)
      · obtain ⟨c, rfl, -⟩ := hl.mem_waiting.mp hq
        exact fun hsuf => hno _ (.head _) ((List.suffix_cons c _).trans hsuf)
    · rcases List.mem_cons.mp hq with rfl | hq
      · obtain ⟨c, hc⟩ := exists_cons_suffix hsuf fun heq => he heq.symm
        exact hno (c :: h :: p) (List.mem_append_right _ (hl.mem_waiting.mpr ⟨c, rfl, hdata _ hc⟩)) hc
      · exact hno q (List.mem_append_left _ hq) hsuf

theorem Linking.linkOne_indexed :
    Indexed (linkOne T s (h :: p)) (queue ++ waiting s (h :: p)) := by
  have hi := hl.indexed
  obtain ⟨hnodes, -⟩ := linkOne_nodes (s := s)
  have hknown : h :: p ∈ s.nodes := by
    by_contra hn
    have hdata := hl.head_data (List.suffix_refl (h :: p))
    rw [hi.blank _ hn] at hdata
    cases hdata
  refine ⟨hnodes ▸ hi.root, hnodes ▸ hi.parent, ?_, ?_, ?_, hl.linked_iff, ?_, ?_, ?_, ?_, ?_⟩
  · intro e he
    rw [hnodes] at he
    have hne : e ≠ h :: p := fun heq => he (heq ▸ hknown)
    rw [linkOne_ne hne, hi.blank e he]
  · intro e he
    rw [hnodes] at he
    rw [(linkOne_kept e).2.2.2.1]
    exact hi.level e he
  · intro e he
    rw [(linkOne_kept e).2.2.1] at he
    rw [(linkOne_kept e).2.2.2.1]
    exact hi.valid e he
  · intro e he
    have hbranch : branchTx (linkOne T s (h :: p)) e = branchTx s e :=
      branchTx_congr fun a _ => (linkOne_kept a).1
    rw [hbranch]
    by_cases heq : e = h :: p
    · subst heq
      exact hl.head_count
    · rw [linkOne_ne heq] at he ⊢
      exact hi.count e he
  · intro p' e
    rw [linkOne_unlinked, (linkOne_kept e).2.2.1]
    simp only [List.mem_filter, decide_eq_true_eq]
    by_cases hp' : p' = h :: p
    · subst hp'
      refine iff_of_false (fun hm => hm.2 rfl) ?_
      rintro ⟨_, -, -, hzero⟩
      exact hl.head_linked hzero
    · rw [linkOne_ne hp', hi.unlinked_iff]
      exact and_iff_left hp'
  · rw [linkOne_unlinked]
    exact hi.unlinked_nodup.filter _
  · intro e he
    rw [(linkOne_kept e).2.2.2.2.2] at he
    obtain ⟨a, ha, hv⟩ := hi.child e he
    exact ⟨a, ha, (linkOne_kept a).2.2.2.2.1.trans hv⟩
  · intro e he
    by_cases heq : e = h :: p
    · subst heq
      exact hl.head_linked
    · rw [linkOne_ne heq]
      refine hi.candidate_linked e ?_
      exact (mem_linkOne_candidates.mp he).resolve_right fun hq => heq hq.1

theorem Linking.linkOne_held :
    Held T (linkOne T s (h :: p)) (linkOne T s (h :: p)).tip := by
  have hi := hl.indexed
  obtain ⟨-, htip⟩ := linkOne_nodes
  have hmarks : ∀ a, ((linkOne T s (h :: p)).entry a).failed = (s.entry a).failed := fun a => by
    simp [IndexEntry.failed, (linkOne_kept a).2.2.2.2]
  have hsound : Sound T (linkOne T s (h :: p)) s.tip := by
    intro a ha
    rw [(linkOne_kept a).2.2.1, hmarks]
    exact hl.held.active a ha
  have hne := hl.tip_ne
  rw [htip]
  refine ⟨htip ▸ hsound, hsound, fun e hlinked hf hk => mem_linkOne_candidates.mpr ?_⟩
  by_cases he : e = h :: p
  · exact .inr ⟨he, he ▸ hk⟩
  · rw [linkOne_ne he] at hlinked
    rw [hmarks] at hf
    rw [sortKey_linkOne he, sortKey_linkOne hne] at hk
    exact .inl (hl.held.complete e hlinked hf hk)

/-- **One turn** of the queue. -/
theorem Linking.turn :
    Linking T (linkOne T s (h :: p)) (queue ++ waiting s (h :: p)) := by
  obtain ⟨-, htip⟩ := linkOne_nodes
  refine ⟨hl.linkOne_indexed, hl.linkOne_held, ?_, ?_, ?_, ?_⟩
  · rw [htip, linkOne_ne hl.tip_ne]
    exact hl.tip_linked
  · refine List.nodup_append.mpr ⟨(List.nodup_cons.mp hl.nodup).2, ?_, ?_⟩
    · -- The parent is the same, so the children differ where the pairs do.
      refine List.Nodup.map_on (fun x hx y hy hxy => ?_) (List.Nodup.filter _ hl.indexed.unlinked_nodup)
      simp only [List.mem_filter, decide_eq_true_eq] at hx hy
      exact Prod.ext (hx.2.trans hy.2.symm) hxy
    · rintro q hq c hc rfl
      obtain ⟨_, rfl, -⟩ := hl.mem_waiting.mp hc
      obtain ⟨_, _, heq, -, hlinked⟩ := hl.queued _ (.tail _ hq)
      obtain ⟨-, rfl⟩ := List.cons.inj heq
      exact hlinked hl.head_unlinked
  · intro q hq
    rcases List.mem_append.mp hq with hq | hq
    · obtain ⟨c, p', rfl, hdata, hlinked⟩ := hl.queued q (.tail _ hq)
      refine ⟨c, p', rfl, (linkOne_kept _).2.2.1.trans hdata, ?_⟩
      by_cases hp' : p' = h :: p
      · subst hp'
        exact hl.head_linked
      · rw [linkOne_ne hp']
        exact hlinked
    · obtain ⟨c, rfl, hdata⟩ := hl.mem_waiting.mp hq
      exact ⟨c, h :: p, rfl, (linkOne_kept _).2.2.1.trans hdata, hl.head_linked⟩
  · intro e he
    have hbranch : branchTx (linkOne T s (h :: p)) e = branchTx s e :=
      branchTx_congr fun a _ => (linkOne_kept a).1
    rw [hbranch]
    exact hl.counted e fun a ha => (linkOne_kept a).2.2.1 ▸ he a ha

end

end Turn

theorem waiting_length (s : Selection) (q : Lineage) :
    (waiting s q).length + (s.unlinked.filter (·.1 ≠ q)).length = s.unlinked.length := by
  rw [waiting, List.length_map, List.length_eq_length_filter_add (l := s.unlinked) (fun x => decide (x.1 = q))]
  simp

/-- The queue runs empty, and all blocks with data up to the genesis block are
linked. -/
theorem Linking.linkQueue {n : Nat} {queue : List Lineage} (hl : Linking T s queue)
    (hn : queue.length + s.unlinked.length ≤ n) :
    Linking T (linkQueue T n queue s) [] := by
  induction n generalizing s queue with
  | zero =>
    obtain rfl : queue = [] := List.length_eq_zero_iff.mp (by omega)
    exact hl
  | succ n ih =>
    cases queue with
    | nil => exact hl
    | cons q queue =>
      obtain ⟨h, p, rfl, -⟩ := hl.queued q (.head _)
      rw [linkQueue_cons]
      refine ih hl.turn ?_
      have hlen := waiting_length s (h :: p)
      rw [List.length_append, linkOne_unlinked]
      rw [List.length_cons] at hn
      omega

/-! ### `ReceivedBlockTransactions` -/

/-- Between calls: the index is well formed and the candidates are complete. -/
structure Settled (T : BlockTree) (s : Selection) : Prop where
  indexed : Indexed s []
  held : Held T s s.tip

section Record

variable {h : Nat} {p : Lineage} (nTx : Nat)

theorem recordData_self (hf : (s.entry b).failed = false) :
    ∃ v, (s.recordData b nTx).entry b =
        { s.entry b with nTx := nTx, nChainTx := 0, haveData := true, validity := v } ∧
      (s.entry b).validity ≤ v ∧ blockValidTransactions ≤ v := by
  obtain ⟨v, hv, hle, hlow⟩ := IndexEntry.raiseValidity_eq
    { s.entry b with nTx := nTx, nChainTx := 0, haveData := true } blockValidTransactions
  refine ⟨v, ?_, hle, hlow hf⟩
  rw [recordData, modify_entry, if_pos rfl]
  exact hv

theorem recordData_ne (h : a ≠ b) : (s.recordData b nTx).entry a = s.entry a := by
  rw [recordData, modify_entry, if_neg h]

theorem recordData_kept (hf : (s.entry b).failed = false) (a : Lineage) :
    ((s.recordData b nTx).entry a).nChainWork = (s.entry a).nChainWork ∧
      ((s.recordData b nTx).entry a).nSequenceId = (s.entry a).nSequenceId ∧
      (s.entry a).validity ≤ ((s.recordData b nTx).entry a).validity ∧
      ((s.recordData b nTx).entry a).failedValid = (s.entry a).failedValid ∧
      ((s.recordData b nTx).entry a).failedChild = (s.entry a).failedChild := by
  by_cases ha : a = b
  · subst ha
    obtain ⟨v, hv, hle, -⟩ := recordData_self nTx hf
    rw [hv]
    exact ⟨rfl, rfl, hle, rfl, rfl⟩
  · rw [recordData_ne nTx ha]
    exact ⟨rfl, rfl, le_rfl, rfl, rfl⟩

theorem Indexed.not_suffix_of_linked (hi : Indexed s []) (hd : (s.entry b).haveData = false)
    (he : (s.entry e).nChainTx ≠ 0) : ¬ b <:+ e := by
  intro hsuf
  have hdata := hi.data he hsuf
  rw [hd] at hdata
  cases hdata

theorem recordData_nChainTx (hi : Indexed s []) (hf : (s.entry b).failed = false)
    (hd : (s.entry b).haveData = false) (e : Lineage) :
    ((s.recordData b nTx).entry e).nChainTx = (s.entry e).nChainTx := by
  by_cases he : e = b
  · subst he
    obtain ⟨v, hv, -⟩ := recordData_self nTx hf
    rw [hv]
    by_contra hne
    exact hi.not_suffix_of_linked hd (Ne.symm hne) (List.suffix_refl e)
  · rw [recordData_ne nTx he]

theorem Settled.recordData_held (hs : Settled T s) (hf : (s.entry b).failed = false)
    (hd : (s.entry b).haveData = false) : Held T (s.recordData b nTx) (s.recordData b nTx).tip := by
  have hkept := fun a => recordData_kept nTx hf a
  have hmarks : ∀ a, ((s.recordData b nTx).entry a).failed = (s.entry a).failed := fun a => by
    simp [IndexEntry.failed, (hkept a).2.2.2]
  have hkey : ∀ a, sortKey T (s.recordData b nTx) a = sortKey T s a := fun a => by
    simp [sortKey, hkept a]
  have hsound : Sound T (s.recordData b nTx) s.tip := by
    intro a ha
    obtain ⟨hdata, hfail, hconn⟩ := hs.held.active a ha
    refine ⟨?_, (hmarks a).trans hfail, hconn⟩
    have hne : a ≠ b := by
      rintro rfl
      rw [hd] at hdata
      cases hdata
    rw [recordData_ne nTx hne]
    exact hdata
  refine ⟨hsound, hsound, fun e hl hfe hk => ?_⟩
  rw [recordData_nChainTx nTx hs.indexed hf hd] at hl
  rw [hmarks] at hfe
  rw [hkey, hkey] at hk
  exact hs.held.complete e hl hfe hk

/-- The index after the data of a block is recorded, with what is then still open
about links. -/
theorem Settled.recordData_indexed (hs : Settled T s) (hb : b ∈ s.nodes) (hf : (s.entry b).failed = false)
    (hd : (s.entry b).haveData = false) {queue : List Lineage} {unlinked : List (Lineage × Lineage)}
    (hqueue : ∀ e, b <:+ e → (((s.recordData b nTx).entry e).nChainTx ≠ 0 ↔
      (∀ a, a <:+ e → ((s.recordData b nTx).entry a).haveData = true) ∧ ∀ q ∈ queue, ¬ q <:+ e))
    (hother : ∀ q ∈ queue, b <:+ q)
    (hunlinked : ∀ p e, (p, e) ∈ unlinked ↔ ∃ h, e = h :: p ∧
      ((s.recordData b nTx).entry e).haveData = true ∧ ((s.recordData b nTx).entry p).nChainTx = 0)
    (hnodup : unlinked.Nodup) :
    Indexed { s.recordData b nTx with unlinked := unlinked } queue := by
  have hi := hs.indexed
  have hkept := fun a => recordData_kept nTx hf a
  have hchain := recordData_nChainTx nTx hi hf hd
  refine ⟨hi.root, hi.parent, ?_, ?_, ?_, ?_, ?_, hunlinked, hnodup, ?_, ?_⟩
  · intro e he
    have hne : e ≠ b := fun heq => he (heq ▸ hb)
    exact (recordData_ne nTx hne).trans (hi.blank e he)
  · intro e he
    exact (hi.level e he).trans (hkept e).2.2.1
  · intro e he
    by_cases heq : e = b
    · subst heq
      obtain ⟨v, hv, -, hlow⟩ := recordData_self nTx hf
      show blockValidTransactions ≤ ((s.recordData e nTx).entry e).validity
      rw [hv]
      exact hlow
    · have hdata : (s.entry e).haveData = true := recordData_ne nTx heq ▸ he
      exact (hi.valid e hdata).trans (hkept e).2.2.1
  · intro e
    by_cases hsuf : b <:+ e
    · exact hqueue e hsuf
    · have hsame : ∀ a, a <:+ e → (s.recordData b nTx).entry a = s.entry a := by
        intro a ha
        exact recordData_ne nTx fun heq => hsuf (heq ▸ ha)
      have hno : ∀ q ∈ queue, ¬ q <:+ e := fun q hq hqe => hsuf ((hother q hq).trans hqe)
      show ((s.recordData b nTx).entry e).nChainTx ≠ 0 ↔ _
      rw [hsame e (List.suffix_refl e), hi.linked_iff]
      refine and_congr ?_ (iff_of_true (fun q hq => absurd hq List.not_mem_nil) hno)
      refine forall_congr' fun a => imp_congr_right fun ha => ?_
      rw [← hsame a ha]
  · intro e he
    have hl : (s.entry e).nChainTx ≠ 0 := hchain e ▸ he
    have hsuf := hi.not_suffix_of_linked hd hl
    show ((s.recordData b nTx).entry e).nChainTx = branchTx (s.recordData b nTx) e % 2 ^ 32
    rw [hchain, hi.count e hl]
    refine congrArg (· % 2 ^ 32) (branchTx_congr fun a ha => ?_).symm
    have hne : a ≠ b := fun heq => hsuf (heq ▸ ha)
    rw [recordData_ne nTx hne]
  · intro e he
    obtain ⟨a, ha, hv⟩ := hi.child e ((hkept e).2.2.2.2 ▸ he)
    exact ⟨a, ha, (hkept a).2.2.2.1.trans hv⟩
  · intro e he
    exact hchain e ▸ hi.candidate_linked e he

/-- No count of transactions that `nChainTx` will hold is a multiple of 2 ^ 32, with
the data of the block recorded. -/
def Counted (s : Selection) (b : Lineage) (nTx : Nat) : Prop :=
  ∀ e, (∀ a, a <:+ e → ((s.recordData b nTx).entry a).haveData = true) →
    branchTx (s.recordData b nTx) e % 2 ^ 32 ≠ 0

/-- **Data arrives.** -/
theorem Settled.receivedBlockTransactions (hs : Settled T s) (hb : h :: p ∈ s.nodes)
    (hf : (s.entry (h :: p)).failed = false) (hd : (s.entry (h :: p)).haveData = false)
    (hparent : (s.entry p).failed = false) (hcount : Counted s (h :: p) nTx) :
    Settled T (receivedBlockTransactions T s (h :: p) nTx) := by
  have hi := hs.indexed
  have hchain := recordData_nChainTx nTx hi hf hd
  have hheld := hs.recordData_held nTx hf hd
  have hpne : p ≠ h :: p := fun heq => not_cons_suffix_self h p (heq ▸ List.suffix_refl p)
  obtain ⟨v, hself, -⟩ := recordData_self nTx hf
  have hdata : ((s.recordData (h :: p) nTx).entry (h :: p)).haveData = true := by rw [hself]
  -- Descendants are not linked: the data was missing.
  have hzero : ∀ e, h :: p <:+ e → (s.entry e).nChainTx = 0 := by
    intro e he
    by_contra hne
    exact hi.not_suffix_of_linked hd hne he
  have hnew : ∀ p', (p', h :: p) ∉ s.unlinked := by
    intro p' hm
    obtain ⟨_, -, hm, -⟩ := (hi.unlinked_iff _ _).mp hm
    rw [hd] at hm
    cases hm
  have hunlinked : ∀ p' e, e ≠ h :: p → ((p', e) ∈ s.unlinked ↔ ∃ c, e = c :: p' ∧
      ((s.recordData (h :: p) nTx).entry e).haveData = true ∧
        ((s.recordData (h :: p) nTx).entry p').nChainTx = 0) := by
    intro p' e he
    rw [hchain, recordData_ne nTx he]
    exact hi.unlinked_iff p' e
  unfold Selection.receivedBlockTransactions
  by_cases hlinked : (s.entry p).nChainTx = 0
  · have hvalid : ((s.recordData (h :: p) nTx).entry (h :: p).tail).isValid blockValidTree = true := by
      rw [List.tail_cons, recordData_ne nTx hpne]
      simp [IndexEntry.isValid, hparent, hi.level p (hi.parent h p hb)]
    have hopen : ¬ (h :: p = [] ∨ ((s.recordData (h :: p) nTx).entry (h :: p).tail).nChainTx ≠ 0) := by
      rintro (heq | hne)
      · cases heq
      · exact hne ((hchain p).trans hlinked)
    rw [if_neg hopen, if_pos hvalid]
    refine ⟨hs.recordData_indexed nTx hb hf hd ?_ (fun q hq => absurd hq List.not_mem_nil) ?_ ?_,
      ⟨hheld.active, hheld.best, hheld.complete⟩⟩
    · intro e he
      rw [hchain]
      refine iff_of_false (fun hne => hne (hzero e he)) fun hall => ?_
      refine hi.linked (fun a ha => ?_) hlinked
      have hne : a ≠ h :: p := fun heq => not_cons_suffix_self h p (heq ▸ ha)
      exact recordData_ne nTx hne ▸ hall.1 a ((ha.trans (List.suffix_cons h p)).trans he)
    · intro p' e
      rw [List.mem_append, List.mem_singleton, Prod.mk.injEq]
      by_cases he : e = h :: p
      · subst he
        constructor
        · rintro (hm | ⟨rfl, -⟩)
          · exact absurd hm (hnew p')
          · exact ⟨h, rfl, hdata, (hchain p').trans hlinked⟩
        · rintro ⟨c, heq, -⟩
          exact .inr ⟨(List.cons.inj heq).2.symm, rfl⟩
      · exact (or_iff_left fun hm => he hm.2).trans (hunlinked p' e he)
    · refine List.nodup_append.mpr ⟨hi.unlinked_nodup, List.nodup_singleton _, ?_⟩
      rintro x hx y hy rfl
      obtain rfl := List.mem_singleton.mp hy
      exact hnew p hx
  · have hready : h :: p = [] ∨ ((s.recordData (h :: p) nTx).entry (h :: p).tail).nChainTx ≠ 0 :=
      .inr ((hchain p).trans_ne hlinked)
    rw [if_pos hready]
    have hindexed : Indexed (s.recordData (h :: p) nTx) [h :: p] := by
      refine hs.recordData_indexed nTx hb hf hd ?_ ?_ ?_ hi.unlinked_nodup
      · intro e he
        rw [hchain]
        refine iff_of_false (fun hne => hne (hzero e he)) fun hall => ?_
        exact hall.2 _ (.head _) he
      · intro q hq
        rw [List.mem_singleton.mp hq]
      · intro p' e
        by_cases he : e = h :: p
        · subst he
          refine iff_of_false (hnew p') ?_
          rintro ⟨c, heq, -, hz⟩
          obtain ⟨-, rfl⟩ := List.cons.inj heq
          exact hlinked ((hchain p).symm.trans hz)
        · exact hunlinked p' e he
    have htip : (s.entry s.tip).nChainTx ≠ 0 := hi.linked fun a ha => (hs.held.active a ha).1
    have hl : Linking T (s.recordData (h :: p) nTx) [h :: p] := by
      refine ⟨hindexed, hheld, (hchain _).trans_ne htip, List.nodup_singleton _, ?_, hcount⟩
      intro q hq
      obtain rfl := List.mem_singleton.mp hq
      exact ⟨h, p, rfl, hdata, (hchain p).trans_ne hlinked⟩
    have hdone := hl.linkQueue (n := 1 + (s.recordData (h :: p) nTx).unlinked.length) le_rfl
    exact ⟨hdone.indexed, hdone.held⟩

end Record

/-! ### `AcceptBlock` -/

theorem Settled.addToBlockIndex {h : Nat} {p : Lineage} (hs : Settled T s) (hnew : h :: p ∉ s.nodes)
    (hp : p ∈ s.nodes) : Settled T (addToBlockIndex T s (h :: p)) := by
  have hi := hs.indexed
  have hself : ∃ w, (Selection.addToBlockIndex T s (h :: p)).entry (h :: p) =
      { IndexEntry.blank with nChainWork := w, validity := blockValidTree } :=
    ⟨_, Function.update_self ..⟩
  have hne : ∀ a, a ≠ h :: p → (Selection.addToBlockIndex T s (h :: p)).entry a = s.entry a :=
    fun a ha => Function.update_of_ne ha ..
  have hold := hi.blank _ hnew
  obtain ⟨w, hw⟩ := hself
  -- Apart from the work and the level the entry is as blank as before.
  have hkept : ∀ a, ((Selection.addToBlockIndex T s (h :: p)).entry a).nTx = (s.entry a).nTx ∧
      ((Selection.addToBlockIndex T s (h :: p)).entry a).nChainTx = (s.entry a).nChainTx ∧
      ((Selection.addToBlockIndex T s (h :: p)).entry a).haveData = (s.entry a).haveData ∧
      ((Selection.addToBlockIndex T s (h :: p)).entry a).failedValid = (s.entry a).failedValid ∧
      ((Selection.addToBlockIndex T s (h :: p)).entry a).failedChild = (s.entry a).failedChild := by
    intro a
    by_cases ha : a = h :: p
    · subst ha
      rw [hw, hold]
      exact ⟨rfl, rfl, rfl, rfl, rfl⟩
    · rw [hne a ha]
      exact ⟨rfl, rfl, rfl, rfl, rfl⟩
  have hmarks : ∀ a, ((Selection.addToBlockIndex T s (h :: p)).entry a).failed = (s.entry a).failed :=
    fun a => by simp [IndexEntry.failed, hkept a]
  have hlinked_ne : ∀ a, (s.entry a).nChainTx ≠ 0 → a ≠ h :: p := by
    rintro a ha rfl
    rw [hold] at ha
    exact ha rfl
  have hsound : Sound T (Selection.addToBlockIndex T s (h :: p)) s.tip := by
    intro a ha
    rw [(hkept a).2.2.1, hmarks]
    exact hs.held.active a ha
  refine ⟨⟨?_, ?_, ?_, ?_, ?_, ?_, ?_, ?_, hi.unlinked_nodup, ?_, ?_⟩, hsound, hsound, ?_⟩
  · exact .tail _ hi.root
  · intro c q hq
    rcases List.mem_cons.mp hq with heq | hq
    · obtain ⟨-, rfl⟩ := List.cons.inj heq
      exact .tail _ hp
    · exact .tail _ (hi.parent c q hq)
  · intro e he
    obtain ⟨hne', hn⟩ := not_or.mp (mt List.mem_cons.mpr he)
    rw [hne e hne', hi.blank e hn]
  · intro e he
    rcases List.mem_cons.mp he with rfl | hn
    · rw [hw]
    · have hne' : e ≠ h :: p := fun heq => hnew (heq ▸ hn)
      rw [hne e hne']
      exact hi.level e hn
  · intro e he
    rw [(hkept e).2.2.1] at he
    have hne' : e ≠ h :: p := by
      rintro rfl
      rw [hold] at he
      cases he
    rw [hne e hne']
    exact hi.valid e he
  · intro e
    simp only [fun a => (hkept a).2.1, fun a => (hkept a).2.2.1]
    exact hi.linked_iff e
  · intro e he
    have hbranch : branchTx (Selection.addToBlockIndex T s (h :: p)) e = branchTx s e :=
      branchTx_congr fun a _ => (hkept a).1
    rw [(hkept e).2.1] at he ⊢
    rw [hbranch]
    exact hi.count e he
  · intro p' e
    rw [(hkept e).2.2.1, (hkept p').2.1]
    exact hi.unlinked_iff p' e
  · intro e he
    obtain ⟨a, ha, hv⟩ := hi.child e ((hkept e).2.2.2.2 ▸ he)
    exact ⟨a, ha, (hkept a).2.2.2.1.trans hv⟩
  · intro e he
    exact (hkept e).2.1.trans_ne (hi.candidate_linked e he)
  · intro e hl hf hk
    rw [(hkept e).2.1] at hl
    rw [hmarks] at hf
    have htip : (s.entry s.tip).nChainTx ≠ 0 := hi.linked fun a ha => (hs.held.active a ha).1
    have hkey : ∀ a, (s.entry a).nChainTx ≠ 0 →
        sortKey T (Selection.addToBlockIndex T s (h :: p)) a = sortKey T s a := fun a ha => by
      simp [sortKey, hne a (hlinked_ne a ha)]
    have hk' : sortKey T s s.tip ≤ sortKey T s e := by
      rw [← hkey e hl, ← hkey _ htip]
      exact hk
    exact hs.held.complete e hl hf hk'

theorem Settled.root_data (hs : Settled T s) : (s.entry []).haveData = true :=
  (hs.held.active [] List.nil_suffix).1

theorem Settled.mark (hs : Settled T s) (hb : b ∈ s.nodes) (hd : (s.entry b).haveData = false) :
    Settled T (s.modify b fun e => { e with failedValid := true }) := by
  have hlinked : ¬ (s.entry b).nChainTx ≠ 0 := by
    intro hne
    exact hs.indexed.not_suffix_of_linked hd hne (List.suffix_refl b)
  have heq : s.modify b (fun e => { e with failedValid := true }) = s.fail b := by
    have hkeep : s.candidates.filter (· ≠ b) = s.candidates := by
      refine List.filter_eq_self.mpr fun e he => decide_eq_true ?_
      rintro rfl
      exact hlinked (hs.indexed.candidate_linked e he)
    simp only [Selection.fail, eraseCandidate, modify, hkeep]
  have hoff : ¬ b <:+ s.tip := by
    intro hsuf
    have hdata := (hs.held.active b hsuf).1
    rw [hd] at hdata
    cases hdata
  rw [heq]
  exact ⟨hs.indexed.fail hb, hs.held.fail hoff hoff⟩

theorem Counted.addToBlockIndex {h : Nat} {p : Lineage} {nTx : Nat} (hc : Counted s (h :: p) nTx) :
    Counted (addToBlockIndex T s (h :: p)) (h :: p) nTx := by
  have hdata : ∀ r : Selection, ((r.recordData (h :: p) nTx).entry (h :: p)).haveData = true ∧
      ((r.recordData (h :: p) nTx).entry (h :: p)).nTx = nTx := by
    intro r
    rw [recordData, modify_entry, if_pos rfl]
    obtain ⟨v, hv, -⟩ := IndexEntry.raiseValidity_eq
      { r.entry (h :: p) with nTx := nTx, nChainTx := 0, haveData := true } blockValidTransactions
    rw [hv]
    exact ⟨rfl, rfl⟩
  have hsame : ∀ a, (((Selection.addToBlockIndex T s (h :: p)).recordData (h :: p) nTx).entry a).haveData =
        ((s.recordData (h :: p) nTx).entry a).haveData ∧
      (((Selection.addToBlockIndex T s (h :: p)).recordData (h :: p) nTx).entry a).nTx =
        ((s.recordData (h :: p) nTx).entry a).nTx := by
    intro a
    by_cases ha : a = h :: p
    · subst ha
      rw [(hdata _).1, (hdata _).1, (hdata _).2, (hdata _).2]
      exact ⟨rfl, rfl⟩
    · have hadd : (Selection.addToBlockIndex T s (h :: p)).entry a = s.entry a := Function.update_of_ne ha ..
      rw [recordData_ne nTx ha, recordData_ne nTx ha, hadd]
      exact ⟨rfl, rfl⟩
  intro e he
  rw [branchTx_congr fun a _ => (hsame a).2]
  exact hc e fun a ha => (hsame a).1 ▸ he a ha

theorem Settled.acceptBlockHeader (hs : Settled T s) (d : Delivery) {h : Nat} {p : Lineage}
    (hblock : d.block = h :: p) (hp : p ∈ s.nodes) (hparent : (s.entry p).failed = false) :
    ∃ ok s₁, acceptBlockHeader T s d = (ok, s₁) ∧ Settled T s₁ ∧
      (ok = true → h :: p ∈ s₁.nodes ∧ (s₁.entry (h :: p)).failed = false ∧ (s₁.entry p).failed = false ∧
        (Counted s (h :: p) d.nTx → Counted s₁ (h :: p) d.nTx) ∧
        (s₁.entry (h :: p)).haveData = (s.entry (h :: p)).haveData) := by
  unfold Selection.acceptBlockHeader
  rw [hblock]
  by_cases hknown : h :: p ∈ s.nodes
  · rw [if_pos hknown]
    refine ⟨_, s, rfl, hs, fun hok => ⟨hknown, ?_, hparent, id, rfl⟩⟩
    simpa using hok
  · rw [if_neg hknown]
    by_cases hheader : d.headerValid = true
    · have hfine : ¬ (h :: p ≠ [] ∧ ((h :: p).tail ∉ s.nodes ∨ (s.entry (h :: p).tail).failed = true)) := by
        rintro ⟨-, hno | hfail⟩
        · exact hno hp
        · exact absurd (hparent.symm.trans hfail) (by decide)
      rw [if_neg (by simp [hheader]), if_neg hfine]
      have hpne : p ≠ h :: p := fun heq => not_cons_suffix_self h p (heq ▸ List.suffix_refl p)
      refine ⟨true, _, rfl, hs.addToBlockIndex hknown hp, fun _ => ⟨.head _, ?_, ?_, ?_, ?_⟩⟩
      · simp [Selection.addToBlockIndex, IndexEntry.failed, IndexEntry.blank]
      · simpa [Selection.addToBlockIndex, Function.update_of_ne hpne] using hparent
      · exact Counted.addToBlockIndex
      · rw [hs.indexed.blank _ hknown]
        simp [Selection.addToBlockIndex, IndexEntry.blank]
    · rw [if_pos (by simpa using hheader)]
      exact ⟨false, s, rfl, hs, fun hok => absurd hok Bool.false_ne_true⟩

theorem Settled.acceptBlockData (hs : Settled T s) (d : Delivery)
    (hp : ∀ h p, d.block = h :: p → p ∈ s.nodes ∧ (s.entry p).failed = false)
    (hcount : (s.entry d.block).haveData = false → Counted s d.block d.nTx) :
    Settled T (acceptBlockData T s d).2 := by
  unfold Selection.acceptBlockData
  split
  · exact hs
  cases hblock : d.block with
  | nil =>
    -- The genesis block is known, and its data is there.
    have hheader : ∃ ok, Selection.acceptBlockHeader T s d = (ok, s) :=
      ⟨_, by rw [Selection.acceptBlockHeader, hblock, if_pos hs.indexed.root]⟩
    obtain ⟨ok, hok⟩ := hheader
    rw [hok]
    cases ok with
    | false => exact hs
    | true =>
      dsimp only
      rw [if_pos hs.root_data]
      exact hs
  | cons h p =>
    obtain ⟨hpn, hpf⟩ := hp h p hblock
    obtain ⟨ok, s₁, hok, hs1, hfacts⟩ := hs.acceptBlockHeader d hblock hpn hpf
    rw [hok]
    cases ok with
    | false => exact hs1
    | true =>
      obtain ⟨hknown, hfail, hpfail, hcount1, hdata⟩ := hfacts rfl
      dsimp only
      cases hhave : (s₁.entry (h :: p)).haveData with
      | true => exact hs1
      | false =>
        rw [if_neg Bool.false_ne_true]
        cases d.contents with
        | invalid => exact hs1.mark hknown hhave
        | corrupt => exact hs1
        | valid =>
          split_ifs
          · exact hs1
          · refine hs1.receivedBlockTransactions d.nTx hknown hfail hhave hpfail (hcount1 ?_)
            rw [hblock] at hcount
            exact hcount (hdata ▸ hhave)

end Rapids.Chain.Selection
