import Rapids.Masternode.Winners

/-!
# Rapids.Masternode.WinnersSound

What the stored winners and the tallies have to do with each other, and which messages
count for nothing.

**The tallies count the stored winners** after every sequence of messages, calls and
cleanings (`run_tallied`): cleaning takes all votes of a height or none. **One vote for
a masternode and height** holds as long as each masternode stays with a height until it
leaves it for good: only the last height is remembered. **A message with a bad
signature** is remembered too, so it does no harm exactly if it stops before `CanVote`
or repeats the height that is remembered already.
-/

namespace Rapids.Masternode

open Rapids.Lib OrdMap Rapids.Chain

/-! ### Tallies -/

/-- The votes that a tally counts for a payee. -/
def payeeVotes (payees : List MasternodePayee) (payee : Script) : Int :=
  ((payees.find? fun p => p.scriptPubKey = payee).map MasternodePayee.nVotes).getD 0

/-- The stored winners of a height with a payee. -/
def storedWinners (s : WinnerState) (h : Int) (payee : Script) : List PaymentWinner :=
  (s.mapMasternodePayeeVotes.entries.map Prod.snd).filter fun w => w.nBlockHeight = h ∧ w.payee = payee

/-- **Every tally counts exactly the stored winners** of its height, and every stored
winner has a tally. -/
structure Tallied (s : WinnerState) : Prop where
  counted : ∀ h payees, s.mapMasternodeBlocks.find? h = some payees →
    payees.nBlockHeight = h ∧ (payees.vecPayments.map MasternodePayee.scriptPubKey).Nodup ∧
      ∀ payee, payeeVotes payees.vecPayments payee = (storedWinners s h payee).length
  kept : ∀ k w, s.mapMasternodePayeeVotes.find? k = some w →
    s.mapMasternodeBlocks.find? w.nBlockHeight ≠ none

section
variable {payee payeeIn : Script} {n : Int} {l : List MasternodePayee}

theorem payeeVotes_cons (p : MasternodePayee) :
    payeeVotes (p :: l) payee = if p.scriptPubKey = payee then p.nVotes else payeeVotes l payee := by
  rw [payeeVotes, List.find?_cons]
  by_cases h : p.scriptPubKey = payee
  · rw [decide_eq_true h, if_pos h]
    rfl
  · rw [decide_eq_false h, if_neg h]
    rfl

theorem payeeVotes_addPayee :
    payeeVotes (addPayee payeeIn n l) payee = payeeVotes l payee + if payeeIn = payee then n else 0 := by
  induction l with
  | nil =>
    rw [addPayee, payeeVotes_cons]
    split_ifs <;> simp [payeeVotes]
  | cons p rest ih =>
    rw [addPayee]
    by_cases hp : p.scriptPubKey = payeeIn
    · rw [if_pos hp, payeeVotes_cons, payeeVotes_cons, hp]
      split_ifs
      · rfl
      · exact (Int.add_zero _).symm
    · rw [if_neg hp, payeeVotes_cons, payeeVotes_cons, ih]
      by_cases hq : p.scriptPubKey = payee
      · rw [if_pos hq, if_pos hq, if_neg fun heq => hp (hq.trans heq.symm), Int.add_zero]
      · rw [if_neg hq, if_neg hq]

theorem mem_addPayee {x : Script} :
    x ∈ (addPayee payeeIn n l).map MasternodePayee.scriptPubKey ↔
      x = payeeIn ∨ x ∈ l.map MasternodePayee.scriptPubKey := by
  induction l with
  | nil => simp [addPayee]
  | cons p rest ih =>
    rw [addPayee]
    split_ifs with hp
    · simp only [List.map_cons, List.mem_cons, ← hp]
      tauto
    · simp only [List.map_cons, List.mem_cons, ih]
      tauto

theorem nodup_addPayee (h : (l.map MasternodePayee.scriptPubKey).Nodup) :
    ((addPayee payeeIn n l).map MasternodePayee.scriptPubKey).Nodup := by
  induction l with
  | nil => simp [addPayee]
  | cons p rest ih =>
    obtain ⟨hp, hrest⟩ := List.nodup_cons.mp h
    rw [addPayee]
    split_ifs with heq
    · exact h
    · refine List.nodup_cons.mpr ⟨fun hmem => ?_, ih hrest⟩
      rcases mem_addPayee.mp hmem with hsame | hold
      · exact heq hsame
      · exact hp hold

end

/-! ### Stored winners as a sum -/

/-- Whether a winner is of a height and has a payee. -/
def isFor (h : Int) (payee : Script) (w : PaymentWinner) : Int :=
  if w.nBlockHeight = h ∧ w.payee = payee then 1 else 0

theorem storedWinners_length (s : WinnerState) (h : Int) (payee : Script) :
    ((storedWinners s h payee).length : Int) =
      s.mapMasternodePayeeVotes.sumBy fun _ w => isFor h payee w := by
  rw [storedWinners, sumBy]
  induction s.mapMasternodePayeeVotes.entries with
  | nil => rfl
  | cons e rest ih =>
    rw [sumEntries_cons, ← ih, List.map_cons, isFor]
    by_cases hfor : e.2.nBlockHeight = h ∧ e.2.payee = payee
    · rw [List.filter_cons, if_pos (by simpa using hfor), if_pos hfor, List.length_cons, Nat.cast_succ,
        Int.add_comm]
    · rw [List.filter_cons, if_neg (by simpa using hfor), if_neg hfor, Int.zero_add]

section
variable {H : WinnerHash} {s : WinnerState} {w : PaymentWinner} {nHeight : Int} {size : Nat}

theorem addWinningMasternode_cases (H : WinnerHash) (nHeight : Int) (w : PaymentWinner) (s : WinnerState) :
    s.addWinningMasternode H nHeight w = (false, s) ∨
      (s.mapMasternodePayeeVotes.find? (w.getHash H) = none ∧
        ∃ payees, (s.mapMasternodeBlocks.find? w.nBlockHeight).getD ⟨w.nBlockHeight, []⟩ = payees ∧
          s.addWinningMasternode H nHeight w = (true, { s with
            mapMasternodePayeeVotes := s.mapMasternodePayeeVotes.insert (w.getHash H) w
            mapMasternodeBlocks := s.mapMasternodeBlocks.insert w.nBlockHeight
              { payees with vecPayments := addPayee w.payee 1 payees.vecPayments } })) := by
  rw [WinnerState.addWinningMasternode]
  split_ifs with hfar hseen
  · exact .inl rfl
  · exact .inl rfl
  · refine .inr ⟨?_, _, rfl, rfl⟩
    rw [Bool.not_eq_true] at hseen
    exact Option.isNone_iff_eq_none.mp (Option.isSome_eq_false_iff.mp hseen)

theorem Tallied.empty : Tallied .empty := by
  refine ⟨fun h payees hf => ?_, fun k w hf => ?_⟩ <;> cases hf

theorem Tallied.none_stored (hi : Tallied s) {h : Int} (hf : s.mapMasternodeBlocks.find? h = none)
    (payee : Script) : storedWinners s h payee = [] := by
  refine List.filter_eq_nil_iff.mpr fun w hw hfor => ?_
  obtain ⟨⟨k, w'⟩, hmem, rfl⟩ := List.mem_map.mp hw
  obtain ⟨rfl, -⟩ := of_decide_eq_true hfor
  exact hi.kept k w' (mem_entries_iff.mp hmem) hf

theorem Tallied.add (hi : Tallied s) : Tallied (s.addWinningMasternode H nHeight w).2 := by
  rcases addWinningMasternode_cases H nHeight w s with heq | ⟨hnew, payees, hpayees, heq⟩
  · rw [heq]
    exact hi
  rw [heq]
  have hbefore : payees.nBlockHeight = w.nBlockHeight ∧
      (payees.vecPayments.map MasternodePayee.scriptPubKey).Nodup ∧
      ∀ payee, payeeVotes payees.vecPayments payee = (storedWinners s w.nBlockHeight payee).length := by
    cases hf : s.mapMasternodeBlocks.find? w.nBlockHeight with
    | none =>
      rw [hf, Option.getD_none] at hpayees
      rw [← hpayees]
      refine ⟨rfl, List.nodup_nil, fun payee => ?_⟩
      rw [hi.none_stored hf]
      rfl
    | some old =>
      rw [hf, Option.getD_some] at hpayees
      exact hpayees ▸ hi.counted _ _ hf
  have hlength : ∀ h payee, ((storedWinners (s.addWinningMasternode H nHeight w).2 h payee).length : Int) =
      (storedWinners s h payee).length + isFor h payee w := by
    intro h payee
    rw [storedWinners_length, storedWinners_length, heq]
    rw [sumBy_insert, hnew, weightAt_none, sub_zero]
  rw [heq] at hlength
  refine ⟨fun h payees' hf => ?_, fun k x hf => ?_⟩
  · rw [find?_insert] at hf
    split_ifs at hf with hh
    · subst hh
      cases hf
      refine ⟨hbefore.1, nodup_addPayee hbefore.2.1, fun payee => ?_⟩
      rw [hlength, payeeVotes_addPayee, hbefore.2.2, isFor]
      simp
    · obtain ⟨hheight, hnd, hcount⟩ := hi.counted h payees' hf
      refine ⟨hheight, hnd, fun payee => ?_⟩
      rw [hcount, hlength, isFor, if_neg fun hand => hh hand.1.symm, Int.add_zero]
  · rw [find?_insert] at hf ⊢
    by_cases hh : x.nBlockHeight = w.nBlockHeight
    · rw [if_pos hh]
      simp
    · rw [if_neg hh]
      split_ifs at hf with hk
      · cases hf
        exact absurd rfl hh
      · exact hi.kept k x hf

/-- What gets a message to `CanVote`. -/
def reachesCanVote (H : WinnerHash) (E : WinnerEnv) (w : PaymentWinner) (s : WinnerState) : Bool :=
  E.peerVersion && !s.mapMasternodePayeeVotes.contains (w.getHash H) &&
    !(w.nBlockHeight < E.nFirstBlock || E.nHeight + 20 < w.nBlockHeight) &&
    w.nMessVersion = messVerHash && E.isValid w

section
variable (H : WinnerHash) (E : WinnerEnv) (w : PaymentWinner) (s : WinnerState)

theorem processWinner_eq :
    s.processWinner H E w =
      if reachesCanVote H E w s then s.castVote H E w else s := by
  rw [WinnerState.processWinner, reachesCanVote]
  cases E.peerVersion <;> cases s.mapMasternodePayeeVotes.contains (w.getHash H) <;>
    cases w.nBlockHeight < E.nFirstBlock || E.nHeight + 20 < w.nBlockHeight <;>
    by_cases hv : w.nMessVersion = messVerHash <;> cases E.isValid w <;> simp [hv]

/-- How a message ends: the height is remembered already, or is remembered now and the
winner is added if it is signed well. -/
theorem castVote_cases :
    (s.mapMasternodesLastVote.find? w.vinMasternode = some w.nBlockHeight ∧ s.castVote H E w = s) ∨
      (s.mapMasternodesLastVote.find? w.vinMasternode ≠ some w.nBlockHeight ∧
        s.castVote H E w =
          if !E.checkSignature w then { s with
            mapMasternodesLastVote := s.mapMasternodesLastVote.insert w.vinMasternode w.nBlockHeight }
          else (WinnerState.addWinningMasternode H E.nHeight w { s with
            mapMasternodesLastVote :=
              s.mapMasternodesLastVote.insert w.vinMasternode w.nBlockHeight }).2) := by
  rw [WinnerState.castVote, WinnerState.canVote]
  by_cases hlast : s.mapMasternodesLastVote.find? w.vinMasternode = some w.nBlockHeight
  · rw [if_pos hlast]
    exact .inl ⟨hlast, rfl⟩
  · rw [if_neg hlast]
    exact .inr ⟨hlast, rfl⟩

end

theorem Tallied.processWinner (hi : Tallied s) (E : WinnerEnv) : Tallied (s.processWinner H E w) := by
  rw [processWinner_eq]
  split_ifs
  · rcases castVote_cases H E w s with ⟨-, heq⟩ | ⟨-, heq⟩ <;> rw [heq]
    · exact hi
    · split_ifs
      · exact ⟨hi.counted, hi.kept⟩
      · exact Tallied.add ⟨hi.counted, hi.kept⟩
  · exact hi

/-! ### Cleaning -/

/-- The entries that are too old. -/
def oldEntries (nHeight : Int) (size : Nat) (s : WinnerState) : List (Nat × PaymentWinner) :=
  s.mapMasternodePayeeVotes.entries.filter fun e => WinnerState.isOld nHeight size e.2

theorem cleanPaymentList_eq (nHeight : Int) (size : Nat) (s : WinnerState) :
    s.cleanPaymentList nHeight size = { s with
      mapMasternodePayeeVotes := (oldEntries nHeight size s).foldl (fun m e => m.erase e.1)
        s.mapMasternodePayeeVotes
      mapMasternodeBlocks := (oldEntries nHeight size s).foldl (fun m e => m.erase e.2.nBlockHeight)
        s.mapMasternodeBlocks } := by
  rw [WinnerState.cleanPaymentList, oldEntries]
  suffices hfold : ∀ (l : List (Nat × PaymentWinner)) (s : WinnerState),
      l.foldl (WinnerState.cleanVote nHeight size) s = { s with
        mapMasternodePayeeVotes := (l.filter fun e => WinnerState.isOld nHeight size e.2).foldl
          (fun m e => m.erase e.1) s.mapMasternodePayeeVotes
        mapMasternodeBlocks := (l.filter fun e => WinnerState.isOld nHeight size e.2).foldl
          (fun m e => m.erase e.2.nBlockHeight) s.mapMasternodeBlocks } from hfold _ s
  intro l
  induction l with
  | nil => exact fun s => rfl
  | cons e rest ih =>
    intro s
    rw [List.foldl_cons, ih, List.filter_cons, WinnerState.cleanVote]
    split_ifs <;> rfl

/-- Votes of one height are old together, so cleaning takes all of them or none. -/
theorem Tallied.clean (hi : Tallied s) : Tallied (s.cleanPaymentList nHeight size) := by
  have hsame : ∀ h payee, (∀ e ∈ oldEntries nHeight size s, e.2.nBlockHeight ≠ h) →
      ((storedWinners (s.cleanPaymentList nHeight size) h payee).length : Int) =
        (storedWinners s h payee).length := by
    intro h payee hno
    rw [storedWinners_length, storedWinners_length, cleanPaymentList_eq]
    refine sumBy_foldl_erase Prod.fst _ _ _ fun e he w hf => ?_
    have hmem := mem_entries_iff.mp (List.mem_of_mem_filter he)
    rw [hf] at hmem
    cases hmem
    exact if_neg fun hand => hno e he hand.1
  have hmaps := cleanPaymentList_eq nHeight size s
  refine ⟨fun h payees hf => ?_, fun k w hf => ?_⟩
  · have hf' := hf
    rw [hmaps] at hf'
    rw [find?_foldl_erase fun e : Nat × PaymentWinner => e.2.nBlockHeight] at hf'
    split_ifs at hf' with hgone
    obtain ⟨hheight, hnd, hcount⟩ := hi.counted h payees hf'
    refine ⟨hheight, hnd, fun payee => ?_⟩
    rw [hcount, hsame h payee fun e he heq => hgone (List.mem_map.mpr ⟨e, he, heq⟩)]
  · rw [hmaps] at hf ⊢
    rw [find?_foldl_erase] at hf
    split_ifs at hf with hgone
    rw [find?_foldl_erase fun e : Nat × PaymentWinner => e.2.nBlockHeight, if_neg fun hold => ?_]
    · exact hi.kept k w hf
    · obtain ⟨e, he, heq⟩ := List.mem_map.mp hold
      refine hgone (List.mem_map.mpr ⟨(k, w), List.mem_filter.mpr ⟨mem_entries_iff.mpr hf, ?_⟩, rfl⟩)
      have hisOld := (List.mem_filter.mp he).2
      rw [WinnerState.isOld, heq] at hisOld
      exact hisOld

/-- **Every tally counts exactly the stored winners**, after every sequence of messages
and calls. -/
theorem run_tallied (H : WinnerHash) (es : List WinnerEvent) : Tallied (winnerRun H es) := by
  refine List.foldlRecOn es (winnerStep H) .empty fun s hi e _ => ?_
  cases e with
  | winner E w => exact hi.processWinner E
  | add nHeight w => exact hi.add
  | clean nHeight size => exact hi.clean

/-! ### One vote -/

/-- Stored winners of one masternode and height are one winner. -/
structure OneVote (H : WinnerHash) (s : WinnerState) : Prop where
  keyed : ∀ k w, s.mapMasternodePayeeVotes.find? k = some w → k = w.getHash H
  single : ∀ k k' w w', s.mapMasternodePayeeVotes.find? k = some w →
    s.mapMasternodePayeeVotes.find? k' = some w' → w.vinMasternode = w'.vinMasternode →
    w.nBlockHeight = w'.nBlockHeight → k = k'

/-- A winner of the masternode is stored for the height. -/
def hasVoted (s : WinnerState) (outMasternode : OutPoint) (h : Int) : Bool :=
  s.mapMasternodePayeeVotes.entries.any fun e => e.2.vinMasternode = outMasternode && e.2.nBlockHeight = h

/-- **The condition on a message**: where a winner of its masternode is stored for its
height, that height is the one that is remembered. A call is for a winner whose
masternode has none stored for the height. -/
def winnerSafe (H : WinnerHash) (s : WinnerState) : WinnerEvent → Bool
  | .winner E w =>
    !reachesCanVote H E w s || !E.checkSignature w || !hasVoted s w.vinMasternode w.nBlockHeight ||
      s.mapMasternodesLastVote.find? w.vinMasternode = some w.nBlockHeight
  | .add _ w =>
    s.mapMasternodePayeeVotes.contains (w.getHash H) || !hasVoted s w.vinMasternode w.nBlockHeight
  | .clean _ _ => true

/-- Messages that meet the condition. -/
def safeWinnerStep (H : WinnerHash) : WinnerState → WinnerEvent → Option WinnerState :=
  guarded (winnerSafe H) fun s e => some (winnerStep H s e)

theorem hasVoted_eq_false {mn : OutPoint} {h : Int} (hno : hasVoted s mn h = false) {k : Nat}
    {x : PaymentWinner} (hf : s.mapMasternodePayeeVotes.find? k = some x) (hm : x.vinMasternode = mn) :
    x.nBlockHeight ≠ h := by
  intro hh
  rw [hasVoted, List.any_eq_false] at hno
  refine hno (k, x) (mem_entries_iff.mpr hf) ?_
  rw [hm, hh, decide_eq_true rfl, decide_eq_true rfl, Bool.and_self]

theorem OneVote.add (hi : OneVote H s)
    (hsafe : s.mapMasternodePayeeVotes.contains (w.getHash H) = true ∨
      hasVoted s w.vinMasternode w.nBlockHeight = false) :
    OneVote H (s.addWinningMasternode H nHeight w).2 := by
  rcases addWinningMasternode_cases H nHeight w s with heq | ⟨hnew, payees, -, heq⟩
  · rw [heq]
    exact hi
  have hno : hasVoted s w.vinMasternode w.nBlockHeight = false := by
    rcases hsafe with hseen | hno
    · rw [contains, hnew] at hseen
      cases hseen
    · exact hno
  rw [heq]
  refine ⟨fun k x hf => ?_, fun k k' x x' hf hf' hm hh => ?_⟩
  · rw [find?_insert] at hf
    split_ifs at hf with hk
    · rw [hk, Option.some.inj hf]
    · exact hi.keyed k x hf
  · rw [find?_insert] at hf hf'
    split_ifs at hf hf' with hk hk' hk'
    · rw [hk, hk']
    · cases hf
      exact absurd hh.symm (hasVoted_eq_false hno hf' hm.symm)
    · cases hf'
      exact absurd hh (hasVoted_eq_false hno hf hm)
    · exact hi.single k k' x x' hf hf' hm hh

theorem OneVote.clean (hi : OneVote H s) : OneVote H (s.cleanPaymentList nHeight size) := by
  have hold : ∀ k x, (s.cleanPaymentList nHeight size).mapMasternodePayeeVotes.find? k = some x →
      s.mapMasternodePayeeVotes.find? k = some x := by
    intro k x hf
    rw [cleanPaymentList_eq] at hf
    rw [find?_foldl_erase] at hf
    split_ifs at hf
    exact hf
  exact ⟨fun k x hf => hi.keyed k x (hold k x hf),
    fun k k' x x' hf hf' => hi.single k k' x x' (hold k x hf) (hold k' x' hf')⟩

/-- One vote for each masternode and height, in every run that meets the condition. -/
theorem run_oneVote {es : List WinnerEvent} (h : run (safeWinnerStep H) .empty es = some s) :
    OneVote H s := by
  have hempty : OneVote H .empty := by
    refine ⟨fun k w hf => ?_, fun k k' w w' hf => ?_⟩ <;> cases hf
  refine run_invariant (fun s e s' hi hstep => ?_) hempty h
  obtain ⟨hsafe, hstep⟩ := guarded_eq_some.mp hstep
  cases hstep
  cases e with
  | winner E w =>
    rw [winnerStep, processWinner_eq]
    split_ifs with hreach
    swap
    · exact hi
    rcases castVote_cases H E w s with ⟨-, heq⟩ | ⟨hlast, heq⟩ <;> rw [heq]
    · exact hi
    split_ifs with hsig
    · exact ⟨hi.keyed, hi.single⟩
    rw [Bool.not_eq_true, Bool.not_eq_false'] at hsig
    simp only [winnerSafe, hreach, hsig, Bool.not_true, Bool.false_or, Bool.or_eq_true, Bool.not_eq_true',
      decide_eq_true_eq, hlast, or_false] at hsafe
    exact OneVote.add ⟨hi.keyed, hi.single⟩ (.inr hsafe)
  | add nHeight w =>
    simp only [winnerSafe, Bool.or_eq_true, Bool.not_eq_true'] at hsafe
    exact hi.add hsafe
  | clean nHeight size => exact hi.clean

end

/-! ### Messages that are not signed well -/

/-- **The message does no harm**: whatever follows, a vote of the same masternode that is
signed well is stored afterwards exactly if it is without the message. -/
def DoesNoHarm (H : WinnerHash) (es : List WinnerEvent) (E : WinnerEnv) (w : PaymentWinner) : Prop :=
  ∀ es' E' w', w'.vinMasternode = w.vinMasternode → E'.checkSignature w' = true →
    ((winnerRun H (es ++ .winner E w :: es' ++ [.winner E' w'])).mapMasternodePayeeVotes.contains
        (w'.getHash H) =
      (winnerRun H (es ++ es' ++ [.winner E' w'])).mapMasternodePayeeVotes.contains (w'.getHash H))

theorem winnerRun_append (H : WinnerHash) (es es' : List WinnerEvent) :
    winnerRun H (es ++ es') = es'.foldl (winnerStep H) (winnerRun H es) :=
  List.foldl_append

theorem processWinner_forged {H : WinnerHash} {E : WinnerEnv} {w : PaymentWinner} {s : WinnerState}
    (hbad : E.checkSignature w = false) :
    s.processWinner H E w =
      if reachesCanVote H E w s && decide (s.mapMasternodesLastVote.find? w.vinMasternode ≠
        some w.nBlockHeight) then { s with
          mapMasternodesLastVote := s.mapMasternodesLastVote.insert w.vinMasternode w.nBlockHeight }
      else s := by
  rw [processWinner_eq]
  cases hreach : reachesCanVote H E w s with
  | false => rfl
  | true =>
    rw [if_pos rfl, Bool.true_and]
    rcases castVote_cases H E w s with ⟨hlast, heq⟩ | ⟨hlast, heq⟩
    · rw [heq, if_neg (by simpa using hlast)]
    · rw [heq, hbad, Bool.not_false, if_pos rfl, if_pos (decide_eq_true hlast)]

/-- A message that is signed well and whose height is not remembered is counted. -/
theorem processWinner_counted {H : WinnerHash} {E : WinnerEnv} {w : PaymentWinner} {s : WinnerState}
    (hreach : reachesCanVote H E w s = true)
    (hlast : s.mapMasternodesLastVote.find? w.vinMasternode ≠ some w.nBlockHeight)
    (hgood : E.checkSignature w = true) :
    (s.processWinner H E w).mapMasternodePayeeVotes.contains (w.getHash H) = true := by
  rw [processWinner_eq, if_pos hreach]
  simp only [reachesCanVote, Bool.and_eq_true, Bool.not_eq_true', Bool.or_eq_false_iff,
    decide_eq_false_iff_not, decide_eq_true_eq] at hreach
  obtain ⟨⟨⟨⟨-, hnew⟩, -, hheight⟩, -⟩, -⟩ := hreach
  rcases castVote_cases H E w s with ⟨hsame, -⟩ | ⟨-, heq⟩
  · exact absurd hsame hlast
  rw [heq, hgood, Bool.not_true, if_neg Bool.false_ne_true, WinnerState.addWinningMasternode,
    if_neg (by omega), if_neg (by rw [hnew]; exact Bool.false_ne_true)]
  rw [contains_insert, decide_eq_true rfl, Bool.true_or]

/-- **What the maps of winners guarantee**: the tallies count the stored winners after
every sequence of messages and calls; one winner is stored for each masternode and
height, if the messages meet the condition; and a badly signed message does no harm
exactly if it does not come to `CanVote` or repeats the height that is remembered. -/
theorem winners_sound (H : WinnerHash) (es : List WinnerEvent) :
    Tallied (winnerRun H es) ∧
    (∀ s, run (safeWinnerStep H) .empty es = some s → OneVote H s) ∧
    ∀ E w, E.checkSignature w = false →
      (DoesNoHarm H es E w ↔ reachesCanVote H E w (winnerRun H es) = false ∨
        (winnerRun H es).mapMasternodesLastVote.find? w.vinMasternode = some w.nBlockHeight) := by
  refine ⟨run_tallied H es, fun s => run_oneVote, fun E w hbad => ⟨fun hharmless => ?_, fun hcond => ?_⟩⟩
  · by_contra hnot
    push Not at hnot
    obtain ⟨hreach, hlast⟩ := hnot
    rw [ne_eq, Bool.not_eq_false] at hreach
    -- the same message, signed well
    have hiff := hharmless [] { E with checkSignature := fun _ => true } w rfl rfl
    rw [List.append_nil, List.append_assoc, winnerRun_append, winnerRun_append] at hiff
    have hcounted := processWinner_counted (E := { E with checkSignature := fun _ => true }) hreach hlast rfl
    have hstored : (((winnerRun H es).processWinner H E w).processWinner H
        { E with checkSignature := fun _ => true } w).mapMasternodePayeeVotes.contains
          (w.getHash H) = true := hiff.trans hcounted
    rw [processWinner_forged hbad, hreach, decide_eq_true hlast, Bool.and_self, if_pos rfl,
      processWinner_eq] at hstored
    have hnew : (winnerRun H es).mapMasternodePayeeVotes.contains (w.getHash H) = false := by
      simp only [reachesCanVote, Bool.and_eq_true, Bool.not_eq_true'] at hreach
      exact hreach.1.1.1.2
    split_ifs at hstored
    · -- the height is remembered
      rcases castVote_cases H { E with checkSignature := fun _ => true } w { winnerRun H es with
        mapMasternodesLastVote := (winnerRun H es).mapMasternodesLastVote.insert w.vinMasternode
          w.nBlockHeight } with ⟨-, heq⟩ | ⟨hne, -⟩
      · rw [heq, hnew] at hstored
        cases hstored
      · exact hne (find?_insert_self _ _ _)
    · rw [hnew] at hstored
      cases hstored
  · intro es' E' w' _ _
    have hsame : (winnerRun H es).processWinner H E w = winnerRun H es := by
      rw [processWinner_forged hbad, if_neg]
      rcases hcond with hreach | hlast
      · rw [hreach, Bool.false_and]
        exact Bool.false_ne_true
      · simp [hlast]
    rw [List.append_assoc, List.append_assoc, winnerRun_append, winnerRun_append, List.cons_append,
      List.foldl_cons, winnerStep, hsame]

/-! ### Examples -/

/-- A hash of the examples. -/
def sumHash : WinnerHash := fun payee h o => 1000 * payee.length + 100 * h.toNat + o.hash

/-- All masternodes may vote; a signature is good if it is one byte. -/
def winnerEnv : WinnerEnv := ⟨true, 10, 0, fun _ => true, fun w => w.vchSig.length = 1⟩

def winnerFor (h : Int) (payee : Script) (vchSig : List UInt8) : PaymentWinner :=
  ⟨⟨1, 0⟩, h, payee, vchSig, messVerHash⟩

/-- A masternode votes for two heights, and someone repeats the last one with a bad
signature. -/
theorem winners_sound_twoHeights :
    Tallied (winnerRun sumHash [.winner winnerEnv (winnerFor 11 [1] [1]),
        .winner winnerEnv (winnerFor 12 [1] [1])]) ∧
      (∃ s, run (safeWinnerStep sumHash) .empty [.winner winnerEnv (winnerFor 11 [1] [1]),
        .winner winnerEnv (winnerFor 12 [1] [1])] = some s ∧ OneVote sumHash s) ∧
      DoesNoHarm sumHash [.winner winnerEnv (winnerFor 11 [1] [1]),
        .winner winnerEnv (winnerFor 12 [1] [1])] winnerEnv (winnerFor 12 [2, 2] []) := by
  obtain ⟨htallied, hone, hharmless⟩ := winners_sound sumHash
    [.winner winnerEnv (winnerFor 11 [1] [1]), .winner winnerEnv (winnerFor 12 [1] [1])]
  have hrun : (run (safeWinnerStep sumHash) .empty [.winner winnerEnv (winnerFor 11 [1] [1]),
      .winner winnerEnv (winnerFor 12 [1] [1])]).isSome = true := by
    decide +kernel
  obtain ⟨s, hs⟩ := Option.isSome_iff_exists.mp hrun
  exact ⟨htallied, ⟨s, hs, hone s hs⟩, (hharmless _ _ rfl).mpr (.inr (by decide +kernel))⟩

/-- A badly signed message makes the node drop the genuine vote for the height; and
after a vote for another height the masternode votes for the first one again. -/
theorem winners_forged_and_repeated :
    ¬ ∀ (H : WinnerHash) (es : List WinnerEvent), OneVote H (winnerRun H es) ∧
      ∀ E w, E.checkSignature w = false → DoesNoHarm H es E w := by
  intro hall
  have hharm := (hall sumHash []).2 winnerEnv (winnerFor 11 [1] []) rfl [] winnerEnv
    (winnerFor 11 [1] [1]) rfl rfl
  revert hharm
  decide +kernel

/-- The second of them alone. -/
example : (storedWinners (winnerRun sumHash [.winner winnerEnv (winnerFor 11 [1] [1]),
    .winner winnerEnv (winnerFor 12 [1] [1]), .winner winnerEnv (winnerFor 11 [2, 2] [1])]) 11 [1]).length +
    (storedWinners (winnerRun sumHash [.winner winnerEnv (winnerFor 11 [1] [1]),
    .winner winnerEnv (winnerFor 12 [1] [1]), .winner winnerEnv (winnerFor 11 [2, 2] [1])]) 11
      [2, 2]).length = 2 := by
  decide +kernel

end Rapids.Masternode
