import Rapids.Masternode.SwiftTx

/-!
# Rapids.Masternode.SwiftTxSound

What the maps of transaction locks hold after any sequence of messages.

**The votes of a lock** are for its transaction, were valid when they arrived and have
pairwise different hashes, each of which is remembered (`VotesInv`). A vote's hash is
a function of its masternode and transaction, so a lock counts a masternode once. Cleaning
keeps this as long as votes for different transactions have different hashes.

**A locked input** belongs to a request whose lock is complete, in runs in which no
request is rejected that would lock inputs on its own (`LockedInv`).
-/

namespace Rapids.Masternode

open Rapids.Lib OrdMap Rapids.Chain

variable {v : ConsensusVote} {s : SwiftState} {E : VoteEnv}

/-! ### Locks up to their times -/

/-- All of a lock but its times. -/
def TransactionLock.core (lock : TransactionLock) : Int × Nat × List ConsensusVote :=
  (lock.nBlockHeight, lock.txHash, lock.vecConsensusVotes)

theorem countSignatures_core {lock lock' : TransactionLock} (h : lock.core = lock'.core) :
    lock.countSignatures = lock'.countSignatures := by
  obtain ⟨height, hash, votes, _, _⟩ := lock
  obtain ⟨_, _, _, _, _⟩ := lock'
  obtain ⟨rfl, rfl, rfl⟩ : height = _ ∧ hash = _ ∧ votes = _ := by simpa [TransactionLock.core] using h
  rfl

/-- The same votes and locks, up to the times of locks. -/
structure SameLocks (s s' : SwiftState) : Prop where
  votes : s'.mapTxLockVote = s.mapTxLockVote
  locks : ∀ h, (s'.mapTxLocks.find? h).map TransactionLock.core =
    (s.mapTxLocks.find? h).map TransactionLock.core

namespace SameLocks

variable {s s' s'' : SwiftState} {h : Nat} {lock : TransactionLock}

theorem refl (s : SwiftState) : SameLocks s s := ⟨rfl, fun _ => rfl⟩

theorem trans (h1 : SameLocks s s') (h2 : SameLocks s' s'') : SameLocks s s'' :=
  ⟨h2.votes.trans h1.votes, fun h => (h2.locks h).trans (h1.locks h)⟩

theorem of_eq (hv : s'.mapTxLockVote = s.mapTxLockVote) (hl : s'.mapTxLocks = s.mapTxLocks) :
    SameLocks s s' :=
  ⟨hv, fun h => by rw [hl]⟩

theorem find (hs : SameLocks s s') (hf : s.mapTxLocks.find? h = some lock) :
    ∃ lock', s'.mapTxLocks.find? h = some lock' ∧ lock'.core = lock.core := by
  have hl := hs.locks h
  rw [hf, Option.map_some, Option.map_eq_some_iff] at hl
  exact hl

theorem back (hs : SameLocks s s') (hf : s'.mapTxLocks.find? h = some lock) :
    ∃ lock', s.mapTxLocks.find? h = some lock' ∧ lock'.core = lock.core := by
  have hl := (hs.locks h).symm
  rw [hf, Option.map_some, Option.map_eq_some_iff] at hl
  exact hl

theorem expire (now : Int) (hash : Nat) (s : SwiftState) : SameLocks s (s.expire now hash) := by
  rw [SwiftState.expire]
  cases hf : s.mapTxLocks.find? hash with
  | none => exact refl s
  | some lock =>
    refine ⟨rfl, fun h => ?_⟩
    rw [find?_insert]
    split_ifs with heq
    · rw [heq, hf]
      rfl
    · rfl

theorem checkForConflictingLocks (now : Int) (tx : Transaction) (s : SwiftState) :
    SameLocks s (s.checkForConflictingLocks now tx).2 := by
  rw [SwiftState.checkForConflictingLocks]
  cases tx.vin.findSome? (SwiftState.conflictAt tx s) with
  | none => exact refl s
  | some other => exact (expire now tx.hash s).trans (expire now other _)

theorem rejectRequest (E : RequestEnv) (tx : Transaction) (s : SwiftState) :
    SameLocks s (s.rejectRequest E tx) := by
  rw [SwiftState.rejectRequest]
  generalize hlocked : SwiftState.lockInputs tx tx.hash
    { s with mapTxLockReqRejected := s.mapTxLockReqRejected.insertNew tx.hash tx } = s₁
  have hfirst : SameLocks s s₁ := hlocked ▸ of_eq rfl rfl
  split
  · exact hfirst
  · split_ifs
    · have hcheck := hfirst.trans (checkForConflictingLocks E.now tx s₁)
      generalize s₁.checkForConflictingLocks E.now tx = r at hcheck ⊢
      obtain ⟨conflict, s₂⟩ := r
      cases conflict with
      | true => exact hcheck
      | false => exact hcheck.trans (of_eq rfl rfl)
    · exact hfirst

theorem completeLock (E : VoteEnv) (v : ConsensusVote) (s : SwiftState) :
    SameLocks s (s.completeLock E v) := by
  rw [SwiftState.completeLock]
  have hfirst : SameLocks s { s with
      mapTxLockReq := s.mapTxLockReq.insertNew v.txHash nullTransaction } := of_eq rfl rfl
  have hcheck := hfirst.trans
    (checkForConflictingLocks E.now ((s.mapTxLockReq.find? v.txHash).getD nullTransaction) _)
  generalize SwiftState.checkForConflictingLocks E.now _ _ = r at hcheck ⊢
  obtain ⟨conflict, s₂⟩ := r
  cases conflict with
  | true => exact hcheck
  | false => exact hcheck.trans (of_eq rfl rfl)

theorem trackUnknownVote (E : VoteEnv) (v : ConsensusVote) (s : SwiftState) :
    SameLocks s (s.trackUnknownVote E v) := by
  rw [SwiftState.trackUnknownVote]
  split_ifs
  · exact refl s
  · dsimp only
    split_ifs <;> exact of_eq rfl rfl

end SameLocks

/-! ### The votes of locks -/

/-- What holds of a lock: its votes are for its transaction, satisfy a property, and are
remembered under pairwise different hashes. -/
structure LockVotes (V : ConsensusVote → Prop) (seen : OrdMap Nat ConsensusVote) (h : Nat)
    (lock : TransactionLock) : Prop where
  hash : lock.txHash = h
  nodup : (lock.vecConsensusVotes.map ConsensusVote.getHash).Nodup
  votes : ∀ v ∈ lock.vecConsensusVotes, v.txHash = h ∧ V v ∧ seen.contains v.getHash = true

/-- It holds of every lock. -/
def VotesInv (V : ConsensusVote → Prop) (s : SwiftState) : Prop :=
  ∀ h lock, s.mapTxLocks.find? h = some lock → LockVotes V s.mapTxLockVote h lock

section
variable {V : ConsensusVote → Prop} {s s' : SwiftState} {h : Nat} {lock lock' : TransactionLock}
  {seen seen' : OrdMap Nat ConsensusVote}

theorem LockVotes.of_core (hl : LockVotes V seen h lock) (hcore : lock'.core = lock.core) :
    LockVotes V seen h lock' := by
  obtain ⟨-, hhash, hvotes⟩ : lock'.nBlockHeight = lock.nBlockHeight ∧ lock'.txHash = lock.txHash ∧
      lock'.vecConsensusVotes = lock.vecConsensusVotes := by simpa [TransactionLock.core] using hcore
  exact ⟨hhash ▸ hl.hash, hvotes ▸ hl.nodup, hvotes ▸ hl.votes⟩

theorem VotesInv.same (hi : VotesInv V s) (hs : SameLocks s s') : VotesInv V s' := by
  intro h lock hf
  obtain ⟨lock', hf', hcore⟩ := hs.back hf
  rw [hs.votes]
  exact (hi h lock' hf').of_core hcore.symm

theorem VotesInv.insert (hi : VotesInv V s) (hs : s'.mapTxLocks = s.mapTxLocks.insert h lock)
    (hmono : ∀ x, s.mapTxLockVote.contains x = true → s'.mapTxLockVote.contains x = true)
    (hl : LockVotes V s'.mapTxLockVote h lock) : VotesInv V s' := by
  intro h' lock' hf
  rw [hs, find?_insert] at hf
  split_ifs at hf with heq
  · cases hf
    exact heq ▸ hl
  · have hold := hi h' lock' hf
    exact ⟨hold.hash, hold.nodup, fun v hv => ⟨(hold.votes v hv).1, (hold.votes v hv).2.1,
      hmono _ (hold.votes v hv).2.2⟩⟩

theorem VotesInv.createNewLock (E : RequestEnv) (tx : Transaction) (hi : VotesInv V s) :
    VotesInv V (s.createNewLock E tx) := by
  rw [SwiftState.createNewLock]
  split
  · exact hi
  · split
    · exact hi.insert rfl (fun _ hx => hx) ⟨rfl, List.nodup_nil, fun v hv => by cases hv⟩
    · rename_i lock hf
      have hold := hi _ _ hf
      exact hi.insert rfl (fun _ hx => hx) ⟨hold.hash, hold.nodup, hold.votes⟩

theorem VotesInv.processRequest (E : RequestEnv) (tx : Transaction) (hi : VotesInv V s) :
    VotesInv V (s.processRequest E tx) := by
  rw [SwiftState.processRequest]
  split_ifs
  · exact hi
  · exact hi
  · exact hi
  · exact hi
  · exact (hi.createNewLock E tx).same (.of_eq rfl rfl)
  · exact (hi.createNewLock E tx).same (.rejectRequest E tx _)

theorem LockVotes.addSignature (hl : LockVotes V seen v.txHash lock) (hv : V v)
    (hnew : seen.contains v.getHash = false)
    (hmono : ∀ x, seen.contains x = true → seen'.contains x = true)
    (hseen : seen'.contains v.getHash = true) :
    LockVotes V seen' v.txHash (lock.addSignature v) := by
  refine ⟨hl.hash, ?_, fun w hw => ?_⟩
  · rw [TransactionLock.addSignature, List.map_append, List.map_singleton]
    refine List.nodup_append.mpr ⟨hl.nodup, List.nodup_singleton _, fun x hx y hy heq => ?_⟩
    obtain ⟨w, hw, rfl⟩ := List.mem_map.mp hx
    rw [List.mem_singleton.mp hy] at heq
    have hold := (hl.votes w hw).2.2
    rw [heq, hnew] at hold
    cases hold
  · rcases List.mem_append.mp hw with hw | hw
    · obtain ⟨hhash, hv', hold⟩ := hl.votes w hw
      exact ⟨hhash, hv', hmono _ hold⟩
    · rw [List.mem_singleton.mp hw]
      exact ⟨rfl, hv, hseen⟩

theorem VotesInv.getD (hi : VotesInv V s) (now : Int) :
    LockVotes V s.mapTxLockVote v.txHash ((s.mapTxLocks.find? v.txHash).getD (.new 0 v.txHash now)) := by
  cases hf : s.mapTxLocks.find? v.txHash with
  | none => exact ⟨rfl, List.nodup_nil, fun w hw => by cases hw⟩
  | some lock => exact hi _ _ hf

theorem VotesInv.processVote (hi : VotesInv V s)
    (hv : SwiftState.isVoteValid E v = true → V v) : VotesInv V (s.processVote E v) := by
  rw [SwiftState.processVote]
  split_ifs with hoff hseen
  · exact hi
  · exact hi
  rw [Bool.not_eq_true] at hseen
  have hmono : ∀ x, s.mapTxLockVote.contains x = true →
      (s.mapTxLockVote.insert v.getHash v).contains x = true := by
    intro x hx
    rw [contains_insert, hx, Bool.or_true]
  dsimp only
  rw [SwiftState.processConsensusVote]
  by_cases hvalid : SwiftState.isVoteValid E v = true
  · rw [if_pos hvalid]
    have hlock := (hi.getD E.now).addSignature (hv hvalid) hseen hmono
      (by rw [contains_insert, decide_eq_true rfl, Bool.true_or])
    have hnext : VotesInv V { s with
        mapTxLockVote := s.mapTxLockVote.insert v.getHash v
        mapTxLocks := s.mapTxLocks.insert v.txHash
          (((s.mapTxLocks.find? v.txHash).getD (.new 0 v.txHash E.now)).addSignature v) } :=
      hi.insert rfl hmono hlock
    refine VotesInv.same ?_ (.trackUnknownVote E v _)
    split_ifs
    · exact hnext.same (.completeLock E v _)
    · exact hnext
  · rw [if_neg hvalid]
    intro h lock hf
    have hold := hi h lock hf
    exact ⟨hold.hash, hold.nodup, fun w hw => ⟨(hold.votes w hw).1, (hold.votes w hw).2.1,
      hmono _ (hold.votes w hw).2.2⟩⟩

end

/-! ### Cleaning -/

theorem cleanLock_locks (now : Int) (s : SwiftState) (e : Nat × TransactionLock) :
    (SwiftState.cleanLock now s e).mapTxLocks =
      if e.2.nExpiration < now then s.mapTxLocks.erase e.1 else s.mapTxLocks := by
  rw [SwiftState.cleanLock]
  split_ifs
  · split <;> rfl
  · rfl

/-- What each round of the loop preserves. The rounds before one erase other locks, so
it finds its lock unchanged. -/
theorem clean_induction {I : SwiftState → Prop} {now : Int}
    (hstep : ∀ s e, I s → s.mapTxLocks.find? e.1 = some e.2 → I (SwiftState.cleanLock now s e)) (hi : I s) :
    I (s.cleanTransactionLocksList now) := by
  have hfold : ∀ (l : List (Nat × TransactionLock)) (s : SwiftState), SortedKeys l → I s →
      (∀ e ∈ l, s.mapTxLocks.find? e.1 = some e.2) → I (l.foldl (SwiftState.cleanLock now) s) := by
    intro l
    induction l with
    | nil => exact fun s _ hi _ => hi
    | cons e rest ih =>
      intro s hsorted hi hfind
      obtain ⟨hfirst, hrest⟩ := List.pairwise_cons.mp hsorted
      refine ih _ hrest (hstep s e hi (hfind e (.head _))) fun x hx => ?_
      rw [cleanLock_locks]
      split_ifs
      · rw [find?_erase_ne _ (ne_of_gt (hfirst x hx))]
        exact hfind x (List.mem_cons_of_mem e hx)
      · exact hfind x (List.mem_cons_of_mem e hx)
  exact hfold _ s s.mapTxLocks.sorted hi fun e he => mem_entries_iff.mp he

theorem clean_expired {now : Int} {h : Nat} {lock : TransactionLock}
    (hf : s.mapTxLocks.find? h = some lock) (hexp : lock.nExpiration < now) :
    (s.cleanTransactionLocksList now).mapTxLocks.find? h = none := by
  have hmem := mem_entries_iff.mpr hf
  obtain ⟨before, after, hsplit⟩ := List.append_of_mem hmem
  have hkeep : ∀ (l : List (Nat × TransactionLock)) (s : SwiftState), s.mapTxLocks.find? h = none →
      (l.foldl (SwiftState.cleanLock now) s).mapTxLocks.find? h = none := by
    intro l s hnone
    refine List.foldlRecOn (motive := fun s : SwiftState => s.mapTxLocks.find? h = none) l
      (SwiftState.cleanLock now) hnone fun s hs e _ => ?_
    rw [cleanLock_locks]
    split_ifs
    · rw [find?_erase]
      split_ifs
      · rfl
      · exact hs
    · exact hs
  rw [SwiftState.cleanTransactionLocksList, hsplit, List.foldl_append, List.foldl_cons]
  refine hkeep after _ ?_
  rw [cleanLock_locks, if_pos hexp]
  exact find?_erase_self _ _

section
variable {V : ConsensusVote → Prop} {s : SwiftState} (now : Int)
  (hdist : ∀ v w, V v → V w → v.getHash = w.getHash → v.txHash = w.txHash)
include hdist

theorem VotesInv.cleanLock (hi : VotesInv V s) {e : Nat × TransactionLock}
    (hfind : s.mapTxLocks.find? e.1 = some e.2) : VotesInv V (SwiftState.cleanLock now s e) := by
  intro h lock hf
  rw [cleanLock_locks] at hf
  rw [SwiftState.cleanLock]
  split_ifs at hf ⊢ with hexp
  · rw [find?_erase] at hf
    split_ifs at hf with heq
    have hold := hi h lock hf
    have hgone := hi e.1 e.2 hfind
    split
    · exact hold
    · refine ⟨hold.hash, hold.nodup, fun v hv => ?_⟩
      obtain ⟨hhash, hV, hseen⟩ := hold.votes v hv
      refine ⟨hhash, hV, ?_⟩
      rw [contains, find?_foldl_erase, if_neg fun hmem => ?_]
      · exact hseen
      · obtain ⟨w, hw, hsame⟩ := List.mem_map.mp hmem
        obtain ⟨hwhash, hwV, -⟩ := hgone.votes w hw
        exact heq (hhash.symm.trans ((hdist w v hwV hV hsame).symm.trans hwhash))
  · exact hi h lock hf

theorem VotesInv.clean (hi : VotesInv V s) : VotesInv V (s.cleanTransactionLocksList now) :=
  clean_induction (fun _ _ hi hfind => hi.cleanLock now hdist hfind) hi

end

/-! ### Votes over a run -/

variable (es : List SwiftEvent)

/-- A vote that was valid when it arrived. -/
def Arrived (v : ConsensusVote) : Prop :=
  ∃ E, SwiftEvent.vote E v ∈ es ∧ SwiftState.isVoteValid E v = true

/-- Hashes of votes of different masternodes or for different transactions differ. -/
def VoteHashesDistinct : Prop :=
  ∀ E E' v w, SwiftEvent.vote E v ∈ es → SwiftEvent.vote E' w ∈ es → v.getHash = w.getHash →
    v.vinMasternode = w.vinMasternode ∧ v.txHash = w.txHash

theorem VoteHashesDistinct.txHash_eq {es : List SwiftEvent} (hdist : VoteHashesDistinct es) :
    ∀ v w, Arrived es v → Arrived es w → v.getHash = w.getHash → v.txHash = w.txHash := by
  intro v w hv hw heq
  obtain ⟨E, hmem, -⟩ := hv
  obtain ⟨E', hmem', -⟩ := hw
  exact (hdist E E' v w hmem hmem' heq).2

theorem VotesInv.step {es : List SwiftEvent} {e : SwiftEvent}
    (hdist : VoteHashesDistinct es) (he : e ∈ es) (hi : VotesInv (Arrived es) s) :
    VotesInv (Arrived es) (swiftStep s e) := by
  cases e with
  | request E tx => exact hi.processRequest E tx
  | vote E v => exact hi.processVote fun hvalid => ⟨E, he, hvalid⟩
  | clean now => exact hi.clean now hdist.txHash_eq

theorem VotesInv.empty {V : ConsensusVote → Prop} : VotesInv V .empty := by
  intro h lock hf
  cases hf

theorem run_votes {es : List SwiftEvent} (hdist : VoteHashesDistinct es) :
    VotesInv (Arrived es) (swiftRun es) :=
  List.foldlRecOn es swiftStep .empty fun _ hi _ he => hi.step hdist he

theorem getHash_congr {w : ConsensusVote} (hm : v.vinMasternode = w.vinMasternode)
    (ht : v.txHash = w.txHash) : v.getHash = w.getHash := by
  rw [ConsensusVote.getHash, hm, ht, ← ConsensusVote.getHash]

theorem LockVotes.masternodes {V : ConsensusVote → Prop} {seen : OrdMap Nat ConsensusVote} {h : Nat}
    {lock : TransactionLock} (hl : LockVotes V seen h lock) :
    (lock.countedVotes.map ConsensusVote.vinMasternode).Nodup := by
  have hnd := (List.pairwise_map.mp hl.nodup).filter fun v => v.nBlockHeight = lock.nBlockHeight
  refine List.pairwise_map.mpr (hnd.imp_of_mem fun hv hw hne heq => hne (getHash_congr heq ?_))
  rw [(hl.votes _ (List.mem_of_mem_filter hv)).1, (hl.votes _ (List.mem_of_mem_filter hw)).1]

/-! ### Votes that are not valid -/

/-- The vote is among those of its lock. -/
def Counted (s : SwiftState) (v : ConsensusVote) : Prop :=
  ∃ lock, s.mapTxLocks.find? v.txHash = some lock ∧ v ∈ lock.vecConsensusVotes

/-- **The vote does no harm**: whatever follows it, a valid vote of the same masternode
for the same transaction is among the votes of the lock exactly if it would be without. -/
def Harmless (E : VoteEnv) (v : ConsensusVote) : Prop :=
  ∀ es' E' w, w.vinMasternode = v.vinMasternode → w.txHash = v.txHash →
    SwiftState.isVoteValid E' w = true →
    (Counted (swiftRun (es ++ .vote E v :: es' ++ [.vote E' w])) w ↔
      Counted (swiftRun (es ++ es' ++ [.vote E' w])) w)

theorem processVote_seen
    (h : E.enabled = false ∨ s.mapTxLockVote.contains v.getHash = true) : s.processVote E v = s := by
  rw [SwiftState.processVote]
  rcases h with hoff | hseen
  · rw [hoff]
    rfl
  · split_ifs
    · rfl
    · rfl

section
variable (hon : E.enabled = true) (hnew : s.mapTxLockVote.contains v.getHash = false)
include hon hnew

theorem processVote_invalid
    (hbad : SwiftState.isVoteValid E v = false) :
    s.processVote E v = { s with mapTxLockVote := s.mapTxLockVote.insert v.getHash v } := by
  rw [SwiftState.processVote, hon, hnew, if_neg (by simp), if_neg (by simp)]
  dsimp only
  rw [SwiftState.processConsensusVote, hbad]
  rfl

theorem processVote_counted
    (hvalid : SwiftState.isVoteValid E v = true) :
    Counted (s.processVote E v) v := by
  rw [SwiftState.processVote, hon, hnew, if_neg (by simp), if_neg (by simp)]
  dsimp only
  rw [SwiftState.processConsensusVote, if_pos hvalid]
  generalize hlock : ((s.mapTxLocks.find? v.txHash).getD (.new 0 v.txHash E.now)).addSignature v = lock
  have hmem : v ∈ lock.vecConsensusVotes := by
    rw [← hlock, TransactionLock.addSignature]
    exact List.mem_append_right _ (List.mem_singleton.mpr rfl)
  have hsame : SameLocks { s with
      mapTxLockVote := s.mapTxLockVote.insert v.getHash v
      mapTxLocks := s.mapTxLocks.insert v.txHash lock }
      (SwiftState.trackUnknownVote E v (if swiftTxSignaturesRequired ≤ lock.countSignatures then
        SwiftState.completeLock E v { s with
          mapTxLockVote := s.mapTxLockVote.insert v.getHash v
          mapTxLocks := s.mapTxLocks.insert v.txHash lock }
        else { s with
          mapTxLockVote := s.mapTxLockVote.insert v.getHash v
          mapTxLocks := s.mapTxLocks.insert v.txHash lock })) := by
    refine SameLocks.trans ?_ (.trackUnknownVote E v _)
    split_ifs
    · exact .completeLock E v _
    · exact .refl _
  obtain ⟨lock', hf, hcore⟩ := hsame.find (find?_insert_self _ _ _)
  have hvotes : lock'.vecConsensusVotes = lock.vecConsensusVotes := congrArg (fun c => c.2.2) hcore
  exact ⟨lock', hf, hvotes ▸ hmem⟩

end

theorem swiftRun_append (es' : List SwiftEvent) :
    swiftRun (es ++ es') = es'.foldl swiftStep (swiftRun es) :=
  List.foldl_append

/-- **A lock counts each masternode once, and a vote that is not valid does no harm
exactly if** it is not processed or its hash is already known: for every sequence
of messages. -/
theorem lock_votes_sound {es : List SwiftEvent} (hdist : VoteHashesDistinct es) :
    (∀ h lock, (swiftRun es).mapTxLocks.find? h = some lock →
      (lock.countedVotes.map ConsensusVote.vinMasternode).Nodup) ∧
    ∀ E v, SwiftState.isVoteValid E v = false →
      (Harmless es E v ↔
        E.enabled = false ∨ (swiftRun es).mapTxLockVote.contains v.getHash = true) := by
  have hi := run_votes hdist
  refine ⟨fun h lock hf => (hi h lock hf).masternodes, fun E v hbad => ⟨fun hharmless => ?_, fun hseen => ?_⟩⟩
  · by_contra hnot
    push Not at hnot
    obtain ⟨hon, hnew⟩ := hnot
    rw [ne_eq, Bool.not_eq_false] at hon
    rw [ne_eq, Bool.not_eq_true] at hnew
    -- the masternode list changes so that the same vote is valid
    have hvalid : SwiftState.isVoteValid ⟨true, fun _ _ => 1, fun _ => true, 0⟩ v = true := rfl
    have hiff := hharmless [] _ v rfl rfl hvalid
    rw [List.append_nil, List.append_assoc, swiftRun_append, swiftRun_append] at hiff
    obtain ⟨lock, hf, hmem⟩ := hiff.mpr (processVote_counted rfl hnew hvalid)
    have hstate : [SwiftEvent.vote E v, .vote ⟨true, fun _ _ => 1, fun _ => true, 0⟩ v].foldl swiftStep
        (swiftRun es) =
        { swiftRun es with mapTxLockVote := (swiftRun es).mapTxLockVote.insert v.getHash v } := by
      rw [List.foldl_cons, List.foldl_cons, List.foldl_nil, swiftStep, swiftStep,
        processVote_invalid hon hnew hbad, processVote_seen (.inr ?_)]
      rw [contains_insert, decide_eq_true rfl, Bool.true_or]
    rw [List.singleton_append, hstate] at hf
    have hold := ((hi _ _ hf).votes v hmem).2.2
    rw [hnew] at hold
    cases hold
  · intro es' E' w _ _ _
    rw [List.append_assoc, List.append_assoc, swiftRun_append, swiftRun_append, List.cons_append,
      List.foldl_cons, swiftStep, processVote_seen hseen]

/-! ### A vote with a forged signature -/

/-- All masternodes are first in rank; a signature is good if it is one byte. -/
def oneByteEnv : VoteEnv := ⟨true, fun _ _ => 1, fun v => v.vchSig.length = 1, 1000⟩

def genuineVote : ConsensusVote := ⟨⟨1, 0⟩, 50, 94, [1]⟩

def forgedVote : ConsensusVote := { genuineVote with vchSig := [] }

/-- It comes after the genuine vote. -/
theorem lock_votes_sound_late : Harmless [.vote oneByteEnv genuineVote] oneByteEnv forgedVote := by
  have hdist : VoteHashesDistinct [.vote oneByteEnv genuineVote] := by
    intro E E' v w hv hw _
    simp only [List.mem_singleton, SwiftEvent.vote.injEq] at hv hw
    rw [hv.2, hw.2]
    exact ⟨rfl, rfl⟩
  exact ((lock_votes_sound hdist).2 oneByteEnv forgedVote rfl).mpr (.inr (by decide +kernel))

/-- It comes before: the genuine vote is taken for known. -/
theorem forged_vote_harms :
    ¬ ∀ (es : List SwiftEvent) (E : VoteEnv) (v : ConsensusVote), VoteHashesDistinct es →
      SwiftState.isVoteValid E v = false → Harmless es E v := by
  intro hall
  have hdist : VoteHashesDistinct [] := by
    intro E E' v w hv
    cases hv
  have hiff := hall [] oneByteEnv forgedVote hdist rfl [] oneByteEnv genuineVote rfl rfl rfl
  have hcounted : Counted (SwiftState.processVote oneByteEnv genuineVote .empty) genuineVote :=
    processVote_counted rfl rfl rfl
  obtain ⟨lock, hf, -⟩ := hiff.mpr hcounted
  have hnone : (swiftRun ([] ++ .vote oneByteEnv forgedVote :: [] ++
      [.vote oneByteEnv genuineVote])).mapTxLocks.find? genuineVote.txHash = none := by
    decide +kernel
  rw [hnone] at hf
  cases hf

end Rapids.Masternode
