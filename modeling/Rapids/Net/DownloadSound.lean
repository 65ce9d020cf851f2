import Rapids.Net.Download

/-!
# Rapids.Net.DownloadSound

What the download bookkeeping keeps true.

**The books with a loss** (`Books`): everything the books should say holds after every
sequence of calls, but for the global counter, which is too high by the number of validated
requests that were in flight to peers when they left: `FinalizeNode` takes a peer's requests
out of the map and drops its list without counting them down. The loss never falls, so the
books balance exactly after the runs in which no peer left with such requests.
-/

namespace Rapids.Net

open Rapids.Lib OrdMap

variable {hash it : Nat} {node nodeid : Int} {st : CNodeState}

/-! ### Lists of numbered items -/

theorem eraseP_item {l : List (Nat × QueuedBlock)} {item : Nat × QueuedBlock}
    (hnodup : (l.map Prod.fst).Nodup) (hfind : (l.find? fun item => item.1 = it) = some item) :
    ∃ before after, l = before ++ (it, item.2) :: after ∧
      (l.eraseP fun item => item.1 = it) = before ++ after ∧
      ∀ x ∈ before ++ after, x.1 ≠ it := by
  obtain ⟨hit, before, after, rfl, hbefore⟩ := List.find?_eq_some_iff_append.mp hfind
  have hit : item.1 = it := of_decide_eq_true hit
  subst hit
  have hbefore : ∀ x ∈ before, x.1 ≠ item.1 := fun x hx => by simpa using hbefore x hx
  have hafter : ∀ x ∈ after, x.1 ≠ item.1 := by
    rw [List.map_append, List.nodup_append, List.map_cons, List.nodup_cons] at hnodup
    intro x hx heq
    exact hnodup.2.1.1 (heq ▸ List.mem_map_of_mem hx)
  refine ⟨before, after, rfl, ?_, fun x hx => (List.mem_append.mp hx).elim (hbefore x) (hafter x)⟩
  rw [List.eraseP_append_right _ fun x hx => by simpa using hbefore x hx, List.eraseP_cons_of_pos (by simp)]

/-! ### The invariant -/

/-- The books, with a global counter that is too high by the loss. -/
structure Books (s : Downloads) (lost : Int) : Prop where
  /-- No two items of a list have one number, -/
  numbered : ∀ {node st}, state s node = some st → (st.vBlocksInFlight.map Prod.fst).Nodup
  /-- and the next number is new. -/
  fresh : ∀ {node it entry}, s.InFlight node it entry → it < s.nextItem
  same_requests : ∀ hash node it, s.mapBlocksInFlight.find? hash = some (node, it) ↔
    ∃ entry, s.InFlight node it entry ∧ entry.hash = hash
  count : ∀ {node st}, state s node = some st → st.nBlocksInFlight = st.vBlocksInFlight.length
  counter : s.nQueuedValidatedHeaders = s.validated + lost

variable {s s' : Downloads} {lost : Int}

theorem Books.inFlight_unique (h : Books s lost) {entry entry' : QueuedBlock}
    (he : s.InFlight node it entry) (he' : s.InFlight node it entry') : entry = entry' := by
  obtain ⟨st, hst, hmem⟩ := he
  obtain ⟨st', hst', hmem'⟩ := he'
  obtain rfl : st = st' := Option.some.inj (hst.symm.trans hst')
  have heq := List.inj_on_of_nodup_map (h.numbered hst) hmem hmem' rfl
  exact (Prod.mk.inj heq).2

theorem Books.mapped (h : Books s lost) {entry : QueuedBlock}
    (he : s.InFlight node it entry) : s.mapBlocksInFlight.find? entry.hash = some (node, it) :=
  (h.same_requests _ _ _).mpr ⟨entry, he, rfl⟩

theorem Books.position_unique (h : Books s lost) {node' : Int} {it' : Nat}
    {entry entry' : QueuedBlock} (he : s.InFlight node it entry) (he' : s.InFlight node' it' entry')
    (heq : entry.hash = entry'.hash) : node = node' ∧ it = it' := by
  have hmap := h.mapped he
  rw [heq, h.mapped he'] at hmap
  exact ⟨(Prod.mk.inj (Option.some.inj hmap)).1.symm, (Prod.mk.inj (Option.some.inj hmap)).2.symm⟩

/-- **The books balance when nothing is lost**, and only then. -/
theorem Books.balanced_iff (h : Books s lost) : Balanced s ↔ lost = 0 := by
  refine ⟨fun hb => ?_, fun hlost => ⟨?_, ?_, h.same_requests, h.count, ?_⟩⟩
  · have := h.counter.symm.trans hb.validated
    omega
  · intro node node' it it' entry entry' he he' heq
    exact (h.position_unique he he' heq).1
  · intro node st hst
    refine (List.Nodup.of_map _ (h.numbered hst)).map_on fun x hx y hy heq => ?_
    have hit := (h.position_unique ⟨st, hst, hx⟩ ⟨st, hst, hy⟩ heq).2
    exact List.inj_on_of_nodup_map (h.numbered hst) hx hy hit
  · rw [h.counter, hlost, add_zero]

theorem books_init : Books Downloads.init 0 where
  numbered h := by cases h
  fresh h := by
    obtain ⟨_, h, _⟩ := h
    cases h
  same_requests hash node it := by
    refine ⟨fun h => (by cases h), fun ⟨_, ⟨_, h, _⟩, _⟩ => (by cases h)⟩
  count h := by cases h
  counter := rfl

/-! ### A peer arrives -/

theorem Books.initializeNode (h : Books s lost) (nodeid : Int) :
    Books (initializeNode s nodeid) lost := by
  by_cases hknown : s.mapNodeState.contains nodeid = true
  · have heq : Net.initializeNode s nodeid = s := by
      rw [Net.initializeNode, insertNew, if_pos hknown]
    rw [heq]
    exact h
  · have hnone : state s nodeid = none := by simpa [contains, state] using hknown
    have heq : Net.initializeNode s nodeid =
        { s with mapNodeState := s.mapNodeState.insert nodeid {} } := by
      rw [Net.initializeNode, insertNew, if_neg hknown]
    have hstate : ∀ {node st}, state (Net.initializeNode s nodeid) node = some st →
        st = {} ∨ state s node = some st := by
      intro node st hst
      rw [heq, state, find?_insert] at hst
      split_ifs at hst with hnode
      · exact .inl (Option.some.inj hst).symm
      · exact .inr hst
    have hinFlight : ∀ {node it entry},
        (Net.initializeNode s nodeid).InFlight node it entry ↔ s.InFlight node it entry := by
      intro node it entry
      constructor
      · rintro ⟨st, hst, hmem⟩
        rcases hstate hst with rfl | hst
        · cases hmem
        · exact ⟨st, hst, hmem⟩
      · rintro ⟨st, hst, hmem⟩
        refine ⟨st, ?_, hmem⟩
        rw [heq, state, find?_insert_ne]
        · exact hst
        · rintro rfl
          rw [hnone] at hst
          cases hst
    refine ⟨?_, ?_, ?_, ?_, ?_⟩
    · intro node st hst
      rcases hstate hst with rfl | hst
      · exact List.nodup_nil
      · exact h.numbered hst
    · intro node it entry he
      rw [heq]
      exact h.fresh (hinFlight.mp he)
    · intro hash node it
      simp only [hinFlight]
      rw [heq]
      exact h.same_requests hash node it
    · intro node st hst
      rcases hstate hst with rfl | hst
      · rfl
      · exact h.count hst
    · rw [heq, Downloads.validated, sumBy_insert,
        show s.mapNodeState.find? nodeid = none from hnone, weightAt_none]
      show s.nQueuedValidatedHeaders = s.validated + 0 - 0 + lost
      rw [h.counter]
      omega

/-! ### A peer leaves -/

theorem Books.finalizeNode (h : Books s lost) {b : Bool}
    (hf : finalizeNode s nodeid = some (s', b)) :
    ∃ st, state s nodeid = some st ∧ Books s' (lost + st.validated) := by
  unfold Net.finalizeNode at hf
  cases hst : state s nodeid with
  | none =>
    rw [hst] at hf
    cases hf
  | some st =>
    rw [hst] at hf
    simp only [Option.some.injEq, Prod.mk.injEq] at hf
    obtain ⟨rfl, -⟩ := hf
    have hstate : ∀ node, (s.mapNodeState.erase nodeid).find? node =
        if node = nodeid then none else state s node := fun node => find?_erase _ _ _
    refine ⟨st, rfl, ?_, ?_, ?_, ?_, ?_⟩
    · intro node st' hst'
      rw [state, hstate] at hst'
      split_ifs at hst' with hnode
      exact h.numbered hst'
    · intro node it entry ⟨st', hst', hmem⟩
      rw [state, hstate] at hst'
      split_ifs at hst' with hnode
      exact h.fresh ⟨st', hst', hmem⟩
    · intro hash node it
      rw [find?_foldl_erase (fun entry : Nat × QueuedBlock => entry.2.hash)]
      constructor
      · intro hmap
        split_ifs at hmap with hmem
        obtain ⟨entry, ⟨st', hst', hin⟩, rfl⟩ := (h.same_requests _ _ _).mp hmap
        refine ⟨entry, ⟨st', ?_, hin⟩, rfl⟩
        rw [state, hstate, if_neg]
        · exact hst'
        · rintro rfl
          obtain rfl : st = st' := Option.some.inj (hst.symm.trans hst')
          exact hmem (List.mem_map_of_mem hin)
      · rintro ⟨entry, ⟨st', hst', hin⟩, rfl⟩
        rw [state, hstate] at hst'
        split_ifs at hst' with hnode
        rw [if_neg]
        · exact h.mapped ⟨st', hst', hin⟩
        · intro hmem
          obtain ⟨item, hitem, heq⟩ := List.mem_map.mp hmem
          exact hnode (h.position_unique ⟨st', hst', hin⟩ ⟨st, hst, hitem⟩ heq.symm).1
    · intro node st' hst'
      rw [state, hstate] at hst'
      split_ifs at hst' with hnode
      exact h.count hst'
    · rw [Downloads.validated, sumBy_erase,
        show s.mapNodeState.find? nodeid = some st from hst, weightAt_some]
      show s.nQueuedValidatedHeaders = s.validated - st.validated + (lost + st.validated)
      rw [h.counter]
      omega

/-! ### A block arrives -/

theorem markBlockAsReceived_cases (h : markBlockAsReceived s hash = some s') :
    (s.mapBlocksInFlight.find? hash = none ∧ s' = s) ∨
      ∃ node it st entry, s.mapBlocksInFlight.find? hash = some (node, it) ∧ state s node = some st ∧
        (st.vBlocksInFlight.find? fun item => item.1 = it) = some entry ∧
        s' = { s with
          nQueuedValidatedHeaders := s.nQueuedValidatedHeaders - ofFlag entry.2.fValidatedHeaders
          mapNodeState := s.mapNodeState.insert node (st.received it)
          mapBlocksInFlight := s.mapBlocksInFlight.erase hash } := by
  unfold markBlockAsReceived at h
  cases hmap : s.mapBlocksInFlight.find? hash with
  | none =>
    rw [hmap] at h
    exact .inl ⟨rfl, (Option.some.inj h).symm⟩
  | some pos =>
    obtain ⟨node, it⟩ := pos
    rw [hmap] at h
    simp only [Option.bind_eq_some_iff] at h
    obtain ⟨st, hst, entry, hentry, h⟩ := h
    exact .inr ⟨node, it, st, entry, rfl, hst, hentry, (Option.some.inj h).symm⟩

theorem validated_append (before after : List (Nat × QueuedBlock)) (item : Nat × QueuedBlock) :
    ((before ++ item :: after).countP fun item => item.2.fValidatedHeaders : Int) =
      ((before ++ after).countP fun item => item.2.fValidatedHeaders : Nat) +
        ofFlag item.2.fValidatedHeaders := by
  rw [List.countP_append, List.countP_cons, List.countP_append, ofFlag]
  split_ifs <;> omega

theorem find?_insert_cases {m : OrdMap Int CNodeState} {node' : Int} {st' : CNodeState}
    (h : (m.insert node st).find? node' = some st') :
    (node' = node ∧ st' = st) ∨ (node' ≠ node ∧ m.find? node' = some st') := by
  rw [find?_insert] at h
  split_ifs at h with hnode
  · exact .inl ⟨hnode, (Option.some.inj h).symm⟩
  · exact .inr ⟨hnode, h⟩

/-- What `MarkBlockAsReceived` finds when the block is in flight: the item of its hash, in
the list of its peer, which keeps the other items. -/
theorem Books.received_item (h : Books s lost)
    {item : Nat × QueuedBlock} (hmap : s.mapBlocksInFlight.find? hash = some (node, it))
    (hst : state s node = some st) (hitem : (st.vBlocksInFlight.find? fun item => item.1 = it) = some item) :
    item.2.hash = hash ∧ s.InFlight node it item.2 ∧ ∃ before after,
      st.vBlocksInFlight = before ++ (it, item.2) :: after ∧
      (st.received it).vBlocksInFlight = before ++ after ∧ ∀ x ∈ before ++ after, x.1 ≠ it := by
  obtain ⟨before, after, hlist, herase, hne⟩ := eraseP_item (h.numbered hst) hitem
  have hin : s.InFlight node it item.2 := ⟨st, hst, by rw [hlist]; simp⟩
  obtain ⟨entry, hin', hentry⟩ := (h.same_requests _ _ _).mp hmap
  refine ⟨?_, hin, before, after, hlist, herase, hne⟩
  rw [h.inFlight_unique hin hin', hentry]

theorem inFlight_received {node : Int} {it : Nat} {st : CNodeState} {entry : QueuedBlock}
    {before after : List (Nat × QueuedBlock)} (hst : state s node = some st)
    (hlist : st.vBlocksInFlight = before ++ (it, entry) :: after)
    (hreceived : (st.received it).vBlocksInFlight = before ++ after)
    (hne : ∀ x ∈ before ++ after, x.1 ≠ it) {node' : Int} {it' : Nat} {entry' : QueuedBlock} :
    (∃ st', (s.mapNodeState.insert node (st.received it)).find? node' = some st' ∧
        (it', entry') ∈ st'.vBlocksInFlight) ↔
      s.InFlight node' it' entry' ∧ ¬ (node' = node ∧ it' = it) := by
  constructor
  · rintro ⟨st', hst', hmem⟩
    rcases find?_insert_cases hst' with ⟨rfl, rfl⟩ | ⟨hnode, hst'⟩
    · rw [hreceived] at hmem
      refine ⟨⟨st, hst, ?_⟩, fun heq => hne _ hmem heq.2⟩
      rw [hlist]
      exact (List.append_sublist_append_left before |>.mpr (List.sublist_cons_self _ after)).subset hmem
    · exact ⟨⟨st', hst', hmem⟩, fun heq => hnode heq.1⟩
  · rintro ⟨⟨st', hst', hmem⟩, hother⟩
    by_cases hnode : node' = node
    · subst hnode
      obtain rfl : st = st' := Option.some.inj (hst.symm.trans hst')
      refine ⟨st.received it, find?_insert_self _ _ _, ?_⟩
      rw [hreceived]
      rw [hlist] at hmem
      rcases List.mem_append.mp hmem with hmem | hmem
      · exact List.mem_append_left _ hmem
      · rcases List.mem_cons.mp hmem with heq | hmem
        · exact absurd ⟨rfl, (Prod.mk.inj heq).1⟩ hother
        · exact List.mem_append_right _ hmem
    · exact ⟨st', (find?_insert_ne _ _ hnode).trans hst', hmem⟩

theorem Books.markBlockAsReceived (h : Books s lost)
    (hr : markBlockAsReceived s hash = some s') : Books s' lost := by
  rcases markBlockAsReceived_cases hr with ⟨-, rfl⟩ | ⟨node, it, st, item, hmap, hst, hitem, rfl⟩
  · exact h
  · obtain ⟨hhash, hitemIn, before, after, hlist, hreceived, hne⟩ := h.received_item hmap hst hitem
    have hinFlight := @inFlight_received s node it st item.2 before after hst hlist hreceived hne
    refine ⟨?_, ?_, ?_, ?_, ?_⟩
    · intro node' st' hst'
      rcases find?_insert_cases hst' with ⟨rfl, rfl⟩ | ⟨-, hst'⟩
      · have hnodup := h.numbered hst
        rw [hlist] at hnodup
        rw [hreceived]
        exact hnodup.sublist
          (((List.append_sublist_append_left before).mpr (List.sublist_cons_self _ after)).map _)
      · exact h.numbered hst'
    · intro node' it' entry' he
      exact h.fresh (hinFlight.mp he).1
    · intro hash' node' it'
      show (s.mapBlocksInFlight.erase hash).find? hash' = some (node', it') ↔ _
      rw [find?_erase]
      constructor
      · intro hmap'
        split_ifs at hmap' with hne'
        obtain ⟨entry', hin, rfl⟩ := (h.same_requests _ _ _).mp hmap'
        refine ⟨entry', hinFlight.mpr ⟨hin, ?_⟩, rfl⟩
        rintro ⟨rfl, rfl⟩
        exact hne' ((congrArg QueuedBlock.hash (h.inFlight_unique hin hitemIn)).trans hhash)
      · rintro ⟨entry', hin, rfl⟩
        obtain ⟨hin, hother⟩ := hinFlight.mp hin
        rw [if_neg]
        · exact h.mapped hin
        · intro heq
          exact hother (h.position_unique hin hitemIn (heq.trans hhash.symm))
    · intro node' st' hst'
      rcases find?_insert_cases hst' with ⟨rfl, rfl⟩ | ⟨-, hst'⟩
      · have hlen := h.count hst
        rw [hreceived]
        show st.nBlocksInFlight - 1 = _
        rw [hlen, hlist]
        simp only [List.length_append, List.length_cons]
        omega
      · exact h.count hst'
    · show s.nQueuedValidatedHeaders - ofFlag item.2.fValidatedHeaders = _
      rw [Downloads.validated, sumBy_insert,
        show s.mapNodeState.find? node = some st from hst, weightAt_some, h.counter]
      have hvalid : st.validated = (st.received it).validated + ofFlag item.2.fValidatedHeaders := by
        rw [CNodeState.validated, CNodeState.validated, hreceived, hlist]
        exact validated_append before after (it, item.2)
      show s.validated + lost - _ = s.validated + (st.received it).validated - st.validated + lost
      omega

/-! ### A block is requested -/

theorem markBlockAsReceived_find? (h : markBlockAsReceived s hash = some s') :
    s'.mapBlocksInFlight.find? hash = none := by
  rcases markBlockAsReceived_cases h with ⟨hnone, rfl⟩ | ⟨node, it, st, item, -, -, -, rfl⟩
  · exact hnone
  · exact find?_erase_self _ _

theorem inFlight_queued {node : Int} {st : CNodeState} {entry : QueuedBlock} {it : Nat}
    (hst : state s node = some st) {node' : Int} {it' : Nat} {entry' : QueuedBlock} :
    (∃ st', (s.mapNodeState.insert node (st.queued it entry)).find? node' = some st' ∧
        (it', entry') ∈ st'.vBlocksInFlight) ↔
      s.InFlight node' it' entry' ∨ (node' = node ∧ it' = it ∧ entry' = entry) := by
  constructor
  · rintro ⟨st', hst', hmem⟩
    rcases find?_insert_cases hst' with ⟨rfl, rfl⟩ | ⟨-, hst'⟩
    · rcases List.mem_append.mp hmem with hmem | hmem
      · exact .inl ⟨st, hst, hmem⟩
      · have heq := Prod.mk.inj (List.mem_singleton.mp hmem)
        exact .inr ⟨rfl, heq.1, heq.2⟩
    · exact .inl ⟨st', hst', hmem⟩
  · rintro (⟨st', hst', hmem⟩ | ⟨rfl, rfl, rfl⟩)
    · by_cases hnode : node' = node
      · subst hnode
        obtain rfl : st = st' := Option.some.inj (hst.symm.trans hst')
        exact ⟨_, find?_insert_self _ _ _, List.mem_append_left _ hmem⟩
      · exact ⟨st', (find?_insert_ne _ _ hnode).trans hst', hmem⟩
    · exact ⟨_, find?_insert_self _ _ _, List.mem_append_right _ (List.mem_singleton.mpr rfl)⟩

theorem Books.queue (h : Books s lost) {pindex : Option Nat} {now : Int} (hst : state s nodeid = some st) (hnone : s.mapBlocksInFlight.find? hash = none) :
    Books
      { s with
        nQueuedValidatedHeaders := s.nQueuedValidatedHeaders + ofFlag pindex.isSome
        mapNodeState := s.mapNodeState.insert nodeid (st.queued s.nextItem (newEntry s hash pindex now))
        mapBlocksInFlight := s.mapBlocksInFlight.insert hash (nodeid, s.nextItem)
        nextItem := s.nextItem + 1 } lost := by
  have hinFlight := @inFlight_queued s nodeid st (newEntry s hash pindex now) s.nextItem hst
  refine ⟨?_, ?_, ?_, ?_, ?_⟩
  · intro node' st' hst'
    rcases find?_insert_cases hst' with ⟨rfl, rfl⟩ | ⟨-, hst'⟩
    · rw [CNodeState.queued, List.map_append, List.nodup_append]
      refine ⟨h.numbered hst, List.nodup_singleton _, fun it hit it' hit' heq => ?_⟩
      obtain ⟨⟨_, entry⟩, hmem, rfl⟩ := List.mem_map.mp hit
      have hlt := h.fresh ⟨st, hst, hmem⟩
      have hit' : it' = s.nextItem := List.mem_singleton.mp hit'
      exact Nat.ne_of_lt hlt (heq.trans hit')
    · exact h.numbered hst'
  · intro node' it' entry' he
    show it' < s.nextItem + 1
    rcases hinFlight.mp he with he | ⟨-, rfl, -⟩
    · exact Nat.lt_succ_of_lt (h.fresh he)
    · exact Nat.lt_succ_self _
  · intro hash' node' it'
    show (s.mapBlocksInFlight.insert hash (nodeid, s.nextItem)).find? hash' = some (node', it') ↔ _
    rw [find?_insert]
    constructor
    · intro hmap
      split_ifs at hmap with heq
      · cases hmap
        exact ⟨_, hinFlight.mpr (.inr ⟨rfl, rfl, rfl⟩), heq.symm⟩
      · obtain ⟨entry', hin, hentry⟩ := (h.same_requests _ _ _).mp hmap
        exact ⟨entry', hinFlight.mpr (.inl hin), hentry⟩
    · rintro ⟨entry', hin, rfl⟩
      rcases hinFlight.mp hin with hin | ⟨rfl, rfl, rfl⟩
      · rw [if_neg]
        · exact h.mapped hin
        · intro heq
          have hmap := h.mapped hin
          rw [heq, hnone] at hmap
          cases hmap
      · exact if_pos rfl
  · intro node' st' hst'
    rcases find?_insert_cases hst' with ⟨rfl, rfl⟩ | ⟨-, hst'⟩
    · show st.nBlocksInFlight + 1 = ((st.vBlocksInFlight ++ [_]).length : Int)
      rw [h.count hst, List.length_append]
      rfl
    · exact h.count hst'
  · show s.nQueuedValidatedHeaders + ofFlag pindex.isSome = _
    rw [Downloads.validated, sumBy_insert,
      show s.mapNodeState.find? nodeid = some st from hst, weightAt_some, h.counter]
    have hvalid : (st.queued s.nextItem (newEntry s hash pindex now)).validated =
        st.validated + ofFlag pindex.isSome := by
      have hcount := validated_append st.vBlocksInFlight [] (s.nextItem, newEntry s hash pindex now)
      rw [List.append_nil] at hcount
      exact hcount
    rw [hvalid]
    show s.validated + lost + _ = s.validated + (st.validated + _) - st.validated + lost
    omega

theorem Books.markBlockAsInFlight (h : Books s lost) {pindex : Option Nat}
    {now : Int} (hm : markBlockAsInFlight s nodeid hash pindex now = some s') : Books s' lost := by
  unfold Net.markBlockAsInFlight at hm
  split_ifs at hm with hknown
  simp only [Option.bind_eq_some_iff] at hm
  obtain ⟨s₁, hs1, st, hst, hm⟩ := hm
  rw [← Option.some.inj hm]
  exact (h.markBlockAsReceived hs1).queue hst (markBlockAsReceived_find? hs1)

/-! ### Runs -/

/-- Is the peer of the call known? -/
def knowsPeer (s : Downloads) : Call → Bool
  | .initializeNode _ => true
  | .finalizeNode nodeid => (state s nodeid).isSome
  | .markBlockAsReceived _ => true
  | .markBlockAsInFlight nodeid _ _ _ => (state s nodeid).isSome

theorem Books.markBlockAsReceived_isSome (h : Books s lost) (hash : Nat) :
    (Net.markBlockAsReceived s hash).isSome := by
  unfold Net.markBlockAsReceived
  cases hmap : s.mapBlocksInFlight.find? hash with
  | none => rfl
  | some pos =>
    obtain ⟨node, it⟩ := pos
    obtain ⟨entry, ⟨st, hst, hmem⟩, -⟩ := (h.same_requests _ _ _).mp hmap
    have hfind : (st.vBlocksInFlight.find? fun item => item.1 = it).isSome :=
      List.find?_isSome.mpr ⟨_, hmem, decide_eq_true rfl⟩
    simp only [hst, Option.bind_some]
    rw [Option.isSome_bind]
    exact Option.any_eq_true_iff_get _ _ |>.mpr ⟨hfind, rfl⟩

theorem state_markBlockAsReceived (h : markBlockAsReceived s hash = some s') (hst : state s nodeid = some st) : ∃ st', state s' nodeid = some st' := by
  rcases markBlockAsReceived_cases h with ⟨-, rfl⟩ | ⟨node, it, st', item, -, -, -, rfl⟩
  · exact ⟨st, hst⟩
  · by_cases hnode : nodeid = node
    · subst hnode
      exact ⟨_, find?_insert_self _ _ _⟩
    · exact ⟨st, (find?_insert_ne _ _ hnode).trans hst⟩

/-- The program survives every call about a peer it knows, and no other: no list position
that it follows has been erased. -/
theorem Books.call_isSome (h : Books s lost) (c : Call) : (call s c).isSome = knowsPeer s c := by
  cases c with
  | initializeNode nodeid => rfl
  | finalizeNode nodeid =>
    rw [call, Option.isSome_map, Net.finalizeNode, knowsPeer]
    cases state s nodeid <;> rfl
  | markBlockAsReceived hash => exact h.markBlockAsReceived_isSome hash
  | markBlockAsInFlight nodeid hash pindex now =>
    rw [call, Net.markBlockAsInFlight, knowsPeer]
    cases hst : state s nodeid with
    | none => rfl
    | some st =>
      obtain ⟨s₁, hs1⟩ := Option.isSome_iff_exists.mp (h.markBlockAsReceived_isSome hash)
      obtain ⟨st', hst'⟩ := state_markBlockAsReceived hs1 hst
      simp [hs1, hst']

/-- The condition on a call: a peer that leaves has no request with validated headers in
flight. -/
def settled (s : Downloads) : Call → Bool
  | .finalizeNode nodeid => (state s nodeid).all fun st => st.validated = 0
  | _ => true

/-- What one call does to the loss: nothing, or the validated requests of the peer that leaves
are added to it. -/
theorem Books.step (h : Books s lost) {c : Call} (hc : call s c = some s') :
    ∃ lost', Books s' lost' ∧ lost ≤ lost' ∧ (lost' = lost ↔ settled s c = true) := by
  cases c with
  | initializeNode nodeid =>
    rw [← Option.some.inj hc]
    exact ⟨lost, h.initializeNode nodeid, le_refl _, iff_of_true rfl rfl⟩
  | finalizeNode nodeid =>
    obtain ⟨⟨s₁, b⟩, hf, rfl⟩ := Option.map_eq_some_iff.mp hc
    obtain ⟨st, hst, hbooks⟩ := h.finalizeNode hf
    have hnonneg : 0 ≤ st.validated := Int.natCast_nonneg _
    refine ⟨lost + st.validated, hbooks, by omega, ?_⟩
    rw [settled, hst, Option.all_some, decide_eq_true_iff]
    omega
  | markBlockAsReceived hash =>
    exact ⟨lost, h.markBlockAsReceived hc, le_refl _, iff_of_true rfl rfl⟩
  | markBlockAsInFlight nodeid hash pindex now =>
    exact ⟨lost, h.markBlockAsInFlight hc, le_refl _, iff_of_true rfl rfl⟩

/-- Along a run the loss stays what it was exactly if every call meets the condition. -/
theorem Books.after_run {cs : List Call} (h : Books s lost) (hrun : run call s cs = some s') :
    ∃ lost', Books s' lost' ∧ lost ≤ lost' ∧
      (lost' = lost ↔ run (guarded settled call) s cs = some s') := by
  induction cs generalizing s lost with
  | nil =>
    obtain rfl : s = s' := Option.some.inj hrun
    exact ⟨lost, h, le_refl _, iff_of_true rfl rfl⟩
  | cons c rest ih =>
    rw [run_cons, Option.bind_eq_some_iff] at hrun
    obtain ⟨s₁, hc, hrest⟩ := hrun
    obtain ⟨lost₁, h1, hle1, hiff1⟩ := h.step hc
    obtain ⟨lost', h', hle', hiff'⟩ := ih h1 hrest
    refine ⟨lost', h', Int.le_trans hle1 hle', ?_⟩
    rw [run_cons]
    constructor
    · intro heq
      have hstep : guarded settled call s c = some s₁ :=
        guarded_eq_some.mpr ⟨hiff1.mp (by omega), hc⟩
      rw [hstep, Option.bind_some]
      exact hiff'.mp (by omega)
    · intro hguarded
      rw [Option.bind_eq_some_iff] at hguarded
      obtain ⟨s₂, hstep, hrest'⟩ := hguarded
      obtain ⟨hsettled, hc'⟩ := guarded_eq_some.mp hstep
      obtain rfl : s₂ = s₁ := Option.some.inj (hc'.symm.trans hc)
      exact (hiff'.mpr hrest').trans (hiff1.mpr hsettled)

/-- **After any sequence of calls the books balance if and only if** no peer left with
validated requests in flight. -/
theorem download_books_balance {cs : List Call} (hrun : run call Downloads.init cs = some s) :
    Balanced s ↔ run (guarded settled call) Downloads.init cs = some s := by
  obtain ⟨lost, hbooks, -, hiff⟩ := books_init.after_run hrun
  rw [hbooks.balanced_iff, hiff]

/-- A block is requested from a peer, it arrives, and the peer leaves. -/
def servedCalls : List Call :=
  [.initializeNode 1, .markBlockAsInFlight 1 7 (some 7) 0, .markBlockAsReceived 7, .finalizeNode 1]

theorem download_books_balance_served :
    run call Downloads.init servedCalls = some ⟨∅, ∅, 0, 0, 0, 1⟩ ∧ Balanced ⟨∅, ∅, 0, 0, 0, 1⟩ := by
  have hrun : run call Downloads.init servedCalls = some ⟨∅, ∅, 0, 0, 0, 1⟩ := by decide +kernel
  exact ⟨hrun, (download_books_balance hrun).mpr (by decide +kernel)⟩

/-- **After any sequence of calls the program survives the next one if and only if** it knows the
peer. -/
theorem call_survives_iff {cs : List Call} (hrun : run call Downloads.init cs = some s) (c : Call) :
    (call s c).isSome = true ↔ knowsPeer s c = true := by
  obtain ⟨lost, hbooks, -⟩ := books_init.after_run hrun
  rw [hbooks.call_isSome c]

/-- The peer that left cannot leave again. -/
theorem call_survives_served :
    run call Downloads.init servedCalls = some ⟨∅, ∅, 0, 0, 0, 1⟩ ∧
      ¬ (call ⟨∅, ∅, 0, 0, 0, 1⟩ (.finalizeNode 1)).isSome = true := by
  have hrun : run call Downloads.init servedCalls = some ⟨∅, ∅, 0, 0, 0, 1⟩ := by decide +kernel
  exact ⟨hrun, (not_congr (call_survives_iff hrun _)).mpr (by decide +kernel)⟩

/-- A peer leaves before it sends the block: nothing is in flight, and the counter stays at
one. -/
theorem lost_request_counted :
    run call Downloads.init [.initializeNode 1, .markBlockAsInFlight 1 7 (some 7) 0, .finalizeNode 1] =
      some ⟨∅, ∅, 1, 0, 0, 1⟩ ∧ ¬ Balanced ⟨∅, ∅, 1, 0, 0, 1⟩ := by
  refine ⟨by decide +kernel, fun h => ?_⟩
  have hcount : (1 : Int) = 0 := h.validated
  exact absurd hcount (by decide)

end Rapids.Net
