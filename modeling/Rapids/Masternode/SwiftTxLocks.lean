import Rapids.Masternode.SwiftTxSound

/-!
# Rapids.Masternode.SwiftTxLocks

**Locked inputs and the votes behind them.** A request that the mempool rejects locks its
inputs at once, whether or not anyone voted for it, and cleaning looks for inputs to
release only among the requests that were accepted. So a rejected request without votes
makes `CheckBlock` reject blocks, for as long as the node runs.

In runs in which a rejected request finds its lock complete and its inputs free, or all of
its inputs locked, every locked input belongs to a complete lock (`run_locked`).
-/

namespace Rapids.Masternode

open Rapids.Lib OrdMap Rapids.Chain

/-- **A locked input has consensus behind it**: its transaction spends it and has a lock with
the votes required. -/
def Completed (s : SwiftState) (o : OutPoint) (h : Nat) : Prop :=
  ∃ tx lock, s.mapTxLockReq.find? h = some tx ∧ tx.hash = h ∧ o ∈ tx.vin.map TxIn.prevout ∧
    s.mapTxLocks.find? h = some lock ∧ swiftTxSignaturesRequired ≤ lock.countSignatures

/-- What holds of requests and locked inputs. -/
structure LockedInv (s : SwiftState) : Prop where
  requests : ∀ h tx, s.mapTxLockReq.find? h = some tx → tx.hash = h ∨ tx.vin = []
  locked : ∀ o h, s.mapLockedInputs.find? o = some h → Completed s o h

/-! ### The operations -/

section
variable {s s' : SwiftState} {tx : Transaction} {h : Nat} {o : OutPoint}

theorem find?_lockInputs :
    (s.lockInputs tx h).mapLockedInputs.find? o =
      (s.mapLockedInputs.find? o).or (if o ∈ tx.vin.map TxIn.prevout then some h else none) := by
  rw [SwiftState.lockInputs, find?_foldl_insertNew]
  split_ifs <;> rfl

theorem lockInputs_cases {x : Nat} (hf : (s.lockInputs tx h).mapLockedInputs.find? o = some x) :
    s.mapLockedInputs.find? o = some x ∨
      (x = h ∧ s.mapLockedInputs.find? o = none ∧ o ∈ tx.vin.map TxIn.prevout) := by
  rw [find?_lockInputs] at hf
  cases hold : s.mapLockedInputs.find? o with
  | some y =>
    rw [hold, Option.some_or] at hf
    exact .inl hf
  | none =>
    rw [hold, Option.none_or] at hf
    split_ifs at hf with hmem
    exact .inr ⟨(Option.some.inj hf).symm, rfl, hmem⟩

variable (now : Int) (E : RequestEnv)

theorem expire_maps (hash : Nat) (s : SwiftState) :
    (s.expire now hash).mapTxLockReq = s.mapTxLockReq ∧
      (s.expire now hash).mapLockedInputs = s.mapLockedInputs := by
  rw [SwiftState.expire]
  split <;> exact ⟨rfl, rfl⟩

theorem checkForConflictingLocks_maps (tx : Transaction) (s : SwiftState) :
    (s.checkForConflictingLocks now tx).2.mapTxLockReq = s.mapTxLockReq ∧
      (s.checkForConflictingLocks now tx).2.mapLockedInputs = s.mapLockedInputs := by
  rw [SwiftState.checkForConflictingLocks]
  split
  · exact ⟨rfl, rfl⟩
  · exact ⟨(expire_maps _ _ _).1.trans (expire_maps _ _ _).1,
      (expire_maps _ _ _).2.trans (expire_maps _ _ _).2⟩

/-- No input is locked by another transaction. -/
def NoConflict (s : SwiftState) (tx : Transaction) : Prop :=
  ∀ i ∈ tx.vin, SwiftState.conflictAt tx s i = none

theorem checkForConflictingLocks_free (hfree : NoConflict s tx) :
    s.checkForConflictingLocks now tx = (false, s) := by
  rw [SwiftState.checkForConflictingLocks, List.findSome?_eq_none_iff.mpr hfree]

theorem NoConflict.lockInputs (hfree : NoConflict s tx) : NoConflict (s.lockInputs tx tx.hash) tx := by
  intro i hi
  have hold := hfree i hi
  rw [SwiftState.conflictAt] at hold ⊢
  rw [find?_lockInputs]
  cases hf : s.mapLockedInputs.find? i.prevout with
  | some x =>
    rw [hf] at hold
    exact hold
  | none =>
    rw [Option.none_or, if_pos (List.mem_map_of_mem hi), Option.bind_some, if_pos rfl]

theorem rejectRequest_maps (tx : Transaction) (s : SwiftState) :
    (s.rejectRequest E tx).mapLockedInputs = (s.lockInputs tx tx.hash).mapLockedInputs ∧
      ((s.rejectRequest E tx).mapTxLockReq = s.mapTxLockReq ∨
        (s.rejectRequest E tx).mapTxLockReq = s.mapTxLockReq.insertNew tx.hash tx) := by
  rw [SwiftState.rejectRequest]
  generalize hlocked : SwiftState.lockInputs tx tx.hash
    { s with mapTxLockReqRejected := s.mapTxLockReqRejected.insertNew tx.hash tx } = s₁
  have hinputs : s₁.mapLockedInputs = (s.lockInputs tx tx.hash).mapLockedInputs := hlocked ▸ rfl
  have hreq : s₁.mapTxLockReq = s.mapTxLockReq := hlocked ▸ rfl
  split
  · exact ⟨hinputs, .inl hreq⟩
  · split_ifs
    · have hcheck := checkForConflictingLocks_maps E.now tx s₁
      generalize s₁.checkForConflictingLocks E.now tx = r at hcheck ⊢
      obtain ⟨conflict, s₂⟩ := r
      cases conflict with
      | true => exact ⟨hcheck.2.trans hinputs, .inl (hcheck.1.trans hreq)⟩
      | false =>
        refine ⟨hcheck.2.trans hinputs, .inr ?_⟩
        dsimp only at hcheck ⊢
        rw [hcheck.1, hreq]
    · exact ⟨hinputs, .inl hreq⟩

/-- A rejected request whose lock is complete and whose inputs are free is taken up after
all. -/
theorem rejectRequest_complete {lock : TransactionLock}
    (hf : s.mapTxLocks.find? tx.hash = some lock)
    (hcount : swiftTxSignaturesRequired ≤ lock.countSignatures) (hfree : NoConflict s tx) :
    (s.rejectRequest E tx).mapTxLockReq = s.mapTxLockReq.insertNew tx.hash tx := by
  have hafter : NoConflict (SwiftState.lockInputs tx tx.hash
      { s with mapTxLockReqRejected := s.mapTxLockReqRejected.insertNew tx.hash tx }) tx :=
    hfree.lockInputs
  have hlock : (SwiftState.lockInputs tx tx.hash
      { s with mapTxLockReqRejected := s.mapTxLockReqRejected.insertNew tx.hash tx }).mapTxLocks.find?
        tx.hash = some lock := hf
  rw [SwiftState.rejectRequest, hlock]
  dsimp only
  rw [if_pos hcount, checkForConflictingLocks_free E.now hafter]
  rfl

theorem completeLock_maps (E : VoteEnv) (v : ConsensusVote) (s : SwiftState) :
    (s.completeLock E v).mapTxLockReq = s.mapTxLockReq.insertNew v.txHash nullTransaction ∧
      ((s.completeLock E v).mapLockedInputs = s.mapLockedInputs ∨
        (s.completeLock E v).mapLockedInputs =
          (s.lockInputs ((s.mapTxLockReq.find? v.txHash).getD nullTransaction) v.txHash).mapLockedInputs) := by
  rw [SwiftState.completeLock]
  have hcheck := checkForConflictingLocks_maps E.now ((s.mapTxLockReq.find? v.txHash).getD nullTransaction)
    { s with mapTxLockReq := s.mapTxLockReq.insertNew v.txHash nullTransaction }
  generalize SwiftState.checkForConflictingLocks E.now _ _ = r at hcheck ⊢
  obtain ⟨conflict, s₂⟩ := r
  cases conflict with
  | true => exact ⟨hcheck.1, .inl hcheck.2⟩
  | false =>
    refine ⟨hcheck.1, .inr ?_⟩
    dsimp only [SwiftState.lockInputs] at hcheck ⊢
    rw [hcheck.2]

theorem trackUnknownVote_maps (E : VoteEnv) (v : ConsensusVote) (s : SwiftState) :
    (s.trackUnknownVote E v).mapTxLockReq = s.mapTxLockReq ∧
      (s.trackUnknownVote E v).mapLockedInputs = s.mapLockedInputs := by
  rw [SwiftState.trackUnknownVote]
  split_ifs
  · exact ⟨rfl, rfl⟩
  · dsimp only
    split_ifs <;> exact ⟨rfl, rfl⟩

/-! ### Steps -/

/-- Requests stay and locks lose no votes; what is locked newly has consensus. -/
theorem LockedInv.grow (hi : LockedInv s)
    (hkeep : ∀ h tx, s.mapTxLockReq.find? h = some tx → s'.mapTxLockReq.find? h = some tx)
    (hrequests : ∀ h tx, s'.mapTxLockReq.find? h = some tx → tx.hash = h ∨ tx.vin = [])
    (hlocks : ∀ h tx lock, s.mapTxLockReq.find? h = some tx → s.mapTxLocks.find? h = some lock →
      ∃ lock', s'.mapTxLocks.find? h = some lock' ∧ lock.countSignatures ≤ lock'.countSignatures)
    (hlocked : ∀ o h, s'.mapLockedInputs.find? o = some h →
      s.mapLockedInputs.find? o = some h ∨ Completed s' o h) : LockedInv s' := by
  refine ⟨hrequests, fun o h hf => ?_⟩
  rcases hlocked o h hf with hold | hnew
  · obtain ⟨tx, lock, hreq, hhash, hmem, hlock, hcount⟩ := hi.locked o h hold
    obtain ⟨lock', hlock', hle⟩ := hlocks h tx lock hreq hlock
    exact ⟨tx, lock', hkeep h tx hreq, hhash, hmem, hlock', hcount.trans hle⟩
  · exact hnew

theorem LockedInv.insertNew (hi : LockedInv s) {x : Transaction} (hx : x.hash = h ∨ x.vin = []) (k : Nat)
    (y : Transaction) (hf : (s.mapTxLockReq.insertNew h x).find? k = some y) :
    y.hash = k ∨ y.vin = [] := by
  rcases find?_insertNew_cases hf with hold | ⟨rfl, rfl⟩
  · exact hi.requests k y hold
  · exact hx

theorem find?_insertNew_of_some {m : OrdMap Nat Transaction} {k : Nat} {x y : Transaction}
    (hf : m.find? k = some y) : (m.insertNew h x).find? k = some y := by
  rw [find?_insertNew]
  split_ifs with heq
  · rw [← heq, hf, Option.some_or]
  · exact hf

theorem createNewLock_maps (tx : Transaction) (s : SwiftState) :
    (s.createNewLock E tx).mapTxLockReq = s.mapTxLockReq ∧
      (s.createNewLock E tx).mapLockedInputs = s.mapLockedInputs ∧
      ∀ h, h ≠ tx.hash → (s.createNewLock E tx).mapTxLocks.find? h = s.mapTxLocks.find? h := by
  rw [SwiftState.createNewLock]
  split
  · exact ⟨rfl, rfl, fun _ _ => rfl⟩
  · split <;> exact ⟨rfl, rfl, fun h hne => find?_insert_ne _ _ hne⟩

/-- A request gets to the mempool. -/
def isProcessed (tx : Transaction) (s : SwiftState) : Bool :=
  E.enabled && !(s.mapTxLockReq.contains tx.hash || s.mapTxLockReqRejected.contains tx.hash) &&
    E.isIXTXValid && tx.vout.all fun o => E.allowedScript o.scriptPubKey

theorem processRequest_eq (tx : Transaction) (s : SwiftState) :
    s.processRequest E tx =
      if isProcessed E tx s then
        if E.acceptToMemoryPool then
          { s.createNewLock E tx with
            mapTxLockReq := (s.createNewLock E tx).mapTxLockReq.insertNew tx.hash tx }
        else (s.createNewLock E tx).rejectRequest E tx
      else s := by
  rw [SwiftState.processRequest, isProcessed]
  cases E.enabled <;> cases s.mapTxLockReq.contains tx.hash || s.mapTxLockReqRejected.contains tx.hash <;>
    cases E.isIXTXValid <;> cases tx.vout.all fun o => E.allowedScript o.scriptPubKey <;> rfl

/-- The lock of a request has the votes required once its height is known. -/
def isComplete (tx : Transaction) (s : SwiftState) : Bool :=
  ((s.createNewLock E tx).mapTxLocks.find? tx.hash).any fun lock =>
    swiftTxSignaturesRequired ≤ lock.countSignatures

theorem isComplete_iff {E : RequestEnv} :
    isComplete E tx s = true ↔ ∃ lock, (s.createNewLock E tx).mapTxLocks.find? tx.hash = some lock ∧
      swiftTxSignaturesRequired ≤ lock.countSignatures := by
  rw [isComplete]
  cases (s.createNewLock E tx).mapTxLocks.find? tx.hash <;> simp

/-- **The condition on a request that the mempool rejects**: its lock is complete and no
input is locked by another transaction, or all its inputs are locked. -/
def requestSafe (tx : Transaction) (s : SwiftState) : Bool :=
  !isProcessed E tx s || E.acceptToMemoryPool ||
    (isComplete E tx s && tx.vin.all fun i => (SwiftState.conflictAt tx s i).isNone) ||
    tx.vin.all fun i => s.mapLockedInputs.contains i.prevout

section
variable (hi : LockedInv s) (E : RequestEnv) (hnone : s.mapTxLockReq.find? tx.hash = none)
include hi hnone

theorem LockedInv.createNewLock :
    LockedInv (s.createNewLock E tx) := by
  obtain ⟨hreq, hinputs, hlocks⟩ := createNewLock_maps E tx s
  refine hi.grow (fun h y hy => hreq ▸ hy) (fun h y hy => hi.requests h y (hreq ▸ hy))
    (fun h y lock hy hl => ⟨lock, ?_, le_refl _⟩) fun o h hf => .inl ?_
  · rw [hlocks h fun heq => by rw [heq, hnone] at hy; cases hy]
    exact hl
  · rw [hinputs] at hf
    exact hf

/-- A request that the mempool rejects locks its inputs all the same: its lock is complete
and they are free, or they are locked. -/
theorem LockedInv.rejectRequest
    (hsafe : (∃ lock, s.mapTxLocks.find? tx.hash = some lock ∧ swiftTxSignaturesRequired ≤ lock.countSignatures ∧
        NoConflict s tx) ∨ ∀ i ∈ tx.vin, s.mapLockedInputs.contains i.prevout = true) :
    LockedInv (s.rejectRequest E tx) := by
  obtain ⟨hinputs, hreq⟩ := rejectRequest_maps E tx s
  have hsame := SameLocks.rejectRequest E tx s
  refine hi.grow (fun h y hy => ?_) (fun h y hy => ?_) (fun h y lock _ hl => ?_) fun o h hf => ?_
  · rcases hreq with heq | heq <;> rw [heq]
    · exact hy
    · exact find?_insertNew_of_some hy
  · rcases hreq with heq | heq <;> rw [heq] at hy
    · exact hi.requests h y hy
    · exact hi.insertNew (.inl rfl) h y hy
  · obtain ⟨lock', hl', hcore⟩ := hsame.find hl
    exact ⟨lock', hl', le_of_eq (countSignatures_core hcore.symm)⟩
  · rw [hinputs] at hf
    rcases lockInputs_cases hf with hwas | ⟨rfl, hfree, hmem⟩
    · exact .inl hwas
    rcases hsafe with ⟨lock, hl, hcount, hnoconf⟩ | hall
    · -- the request is taken up, because its lock is complete
      obtain ⟨lock', hl', hcore⟩ := hsame.find hl
      refine .inr ⟨tx, lock', ?_, rfl, hmem, hl', ?_⟩
      · rw [rejectRequest_complete E hl hcount hnoconf, find?_insertNew, if_pos rfl, hnone, Option.none_or]
      · rw [countSignatures_core hcore]
        exact hcount
    · obtain ⟨i, hi', rfl⟩ := List.mem_map.mp hmem
      have hwas := hall i hi'
      rw [contains, hfree] at hwas
      cases hwas

end

theorem LockedInv.processRequest {E : RequestEnv} (hi : LockedInv s) (hsafe : requestSafe E tx s = true) :
    LockedInv (s.processRequest E tx) := by
  rw [processRequest_eq]
  by_cases hproc : isProcessed E tx s = true
  swap
  · rw [if_neg hproc]
    exact hi
  rw [if_pos hproc]
  have hnone : s.mapTxLockReq.find? tx.hash = none := by
    simp only [isProcessed, Bool.and_eq_true, Bool.not_eq_true', Bool.or_eq_false_iff] at hproc
    exact Option.isSome_eq_false_iff.mp hproc.1.1.2.1 |> Option.isNone_iff_eq_none.mp
  obtain ⟨hreq, hinputs, -⟩ := createNewLock_maps E tx s
  have hcreated := hi.createNewLock E hnone
  by_cases hacc : E.acceptToMemoryPool = true
  · rw [if_pos hacc]
    exact hcreated.grow (fun h y hy => find?_insertNew_of_some hy) (hcreated.insertNew (.inl rfl))
      (fun h y lock _ hl => ⟨lock, hl, le_refl _⟩) fun o h hf => .inl hf
  rw [if_neg hacc]
  refine hcreated.rejectRequest E (by rw [hreq, hnone]) ?_
  simp only [requestSafe, hproc, Bool.not_true, Bool.false_or, Bool.or_eq_true, Bool.and_eq_true,
    List.all_eq_true] at hsafe
  rcases hsafe with (hacc' | ⟨hcomplete, hnoconf⟩) | hall
  · exact absurd hacc' hacc
  · obtain ⟨lock, hl, hcount⟩ := isComplete_iff.mp hcomplete
    refine .inl ⟨lock, hl, hcount, fun i hmem => ?_⟩
    rw [SwiftState.conflictAt, hinputs]
    exact Option.isNone_iff_eq_none.mp (hnoconf i hmem)
  · right
    rw [hinputs]
    exact hall

theorem le_countSignatures_addSignature (lock : TransactionLock) (v : ConsensusVote) :
    lock.countSignatures ≤ (lock.addSignature v).countSignatures := by
  rw [TransactionLock.countSignatures, TransactionLock.countSignatures]
  have hle : lock.countedVotes.length ≤ (lock.addSignature v).countedVotes.length := by
    rw [TransactionLock.countedVotes, TransactionLock.countedVotes]
    exact ((List.sublist_append_left _ _).filter _).length_le
  dsimp only [TransactionLock.addSignature] at hle ⊢
  split_ifs <;> omega

section
variable (hi : LockedInv s)
include hi

/-- Locks that lose no votes, where requests and locked inputs stay as they are. -/
theorem LockedInv.of_same (hreq : s'.mapTxLockReq = s.mapTxLockReq)
    (hinputs : s'.mapLockedInputs = s.mapLockedInputs)
    (hlocks : ∀ h lock, s.mapTxLocks.find? h = some lock →
      ∃ lock', s'.mapTxLocks.find? h = some lock' ∧ lock.countSignatures ≤ lock'.countSignatures) :
    LockedInv s' := by
  refine hi.grow (fun h y hy => hreq ▸ hy) (fun h y hy => hi.requests h y (hreq ▸ hy))
    (fun h y lock _ hl => hlocks h lock hl) fun o h hf => .inl ?_
  rw [hinputs] at hf
  exact hf

theorem LockedInv.addVote (now : Int) (v : ConsensusVote) :
    LockedInv { s with
      mapTxLockVote := s.mapTxLockVote.insert v.getHash v
      mapTxLocks := s.mapTxLocks.insert v.txHash
        (((s.mapTxLocks.find? v.txHash).getD (.new 0 v.txHash now)).addSignature v) } := by
  refine hi.of_same rfl rfl fun h lock hl => ?_
  by_cases heq : h = v.txHash
  · subst heq
    refine ⟨_, find?_insert_self _ _ _, ?_⟩
    rw [hl, Option.getD_some]
    exact le_countSignatures_addSignature lock v
  · exact ⟨lock, (find?_insert_ne _ _ heq).trans hl, le_refl _⟩

theorem LockedInv.completeLock (E : VoteEnv) {v : ConsensusVote} {lock : TransactionLock}
    (hlock : s.mapTxLocks.find? v.txHash = some lock) (hcount : swiftTxSignaturesRequired ≤ lock.countSignatures) :
    LockedInv (s.completeLock E v) := by
  obtain ⟨hreq, hinputs⟩ := completeLock_maps E v s
  have hsame := SameLocks.completeLock E v s
  refine hi.grow (fun h y hy => ?_) (fun h y hy => ?_) (fun h y l _ hl => ?_) fun o h hf => ?_
  · rw [hreq]
    exact find?_insertNew_of_some hy
  · rw [hreq] at hy
    exact hi.insertNew (.inr rfl) h y hy
  · obtain ⟨l', hl', hcore⟩ := hsame.find hl
    exact ⟨l', hl', le_of_eq (countSignatures_core hcore.symm)⟩
  · rcases hinputs with heq | heq <;> rw [heq] at hf
    · exact .inl hf
    rcases lockInputs_cases hf with hwas | ⟨rfl, -, hmem⟩
    · exact .inl hwas
    -- only a request that is there has inputs
    cases hfind : s.mapTxLockReq.find? v.txHash with
    | none =>
      rw [hfind] at hmem
      cases hmem
    | some y =>
      rw [hfind, Option.getD_some] at hmem
      obtain ⟨l', hl', hcore⟩ := hsame.find hlock
      refine .inr ⟨y, l', ?_, ?_, hmem, hl', ?_⟩
      · rw [hreq]
        exact find?_insertNew_of_some hfind
      · rcases hi.requests _ y hfind with hhash | hempty
        · exact hhash
        · rw [hempty] at hmem
          cases hmem
      · rw [countSignatures_core hcore]
        exact hcount

theorem LockedInv.trackUnknownVote (E : VoteEnv) (v : ConsensusVote) :
    LockedInv (s.trackUnknownVote E v) := by
  obtain ⟨hreq, hinputs⟩ := trackUnknownVote_maps E v s
  refine hi.of_same hreq hinputs fun h lock hl => ?_
  obtain ⟨lock', hl', hcore⟩ := (SameLocks.trackUnknownVote E v s).find hl
  exact ⟨lock', hl', le_of_eq (countSignatures_core hcore.symm)⟩

theorem LockedInv.processVote {E : VoteEnv} {v : ConsensusVote} :
    LockedInv (s.processVote E v) := by
  rw [SwiftState.processVote]
  split_ifs
  · exact hi
  · exact hi
  dsimp only
  rw [SwiftState.processConsensusVote]
  by_cases hvalid : SwiftState.isVoteValid E v = true
  swap
  · rw [if_neg hvalid]
    exact ⟨hi.requests, hi.locked⟩
  rw [if_pos hvalid]
  have hadded := hi.addVote E.now v
  refine LockedInv.trackUnknownVote ?_ E v
  split_ifs with hcount
  · exact hadded.completeLock E (find?_insert_self _ _ _) hcount
  · exact hadded

end

theorem LockedInv.clean {V : ConsensusVote → Prop}
    (hdist : ∀ v w, V v → V w → v.getHash = w.getHash → v.txHash = w.txHash) (hv : VotesInv V s)
    (hi : LockedInv s) : LockedInv (s.cleanTransactionLocksList now) := by
  suffices hboth : VotesInv V (s.cleanTransactionLocksList now) ∧
      LockedInv (s.cleanTransactionLocksList now) from hboth.2
  refine clean_induction (I := fun s => VotesInv V s ∧ LockedInv s) (fun s e hboth hfind => ?_) ⟨hv, hi⟩
  obtain ⟨hv, hi⟩ := hboth
  refine ⟨hv.cleanLock now hdist hfind, ?_⟩
  have hhash : e.2.txHash = e.1 := (hv e.1 e.2 hfind).hash
  rw [SwiftState.cleanLock, hhash]
  split_ifs
  swap
  · exact hi
  cases hreq : s.mapTxLockReq.find? e.1 with
  | none =>
    refine ⟨hi.requests, fun o h hf => ?_⟩
    obtain ⟨tx, lock, hr, hh, hmem, hl, hcount⟩ := hi.locked o h hf
    have hne : h ≠ e.1 := fun heq => by
      rw [heq, hreq] at hr
      cases hr
    exact ⟨tx, lock, hr, hh, hmem, (find?_erase_ne _ hne).trans hl, hcount⟩
  | some tx =>
    refine ⟨fun h y hy => ?_, fun o h hf => ?_⟩
    · rw [find?_erase] at hy
      split_ifs at hy
      exact hi.requests h y hy
    · rw [find?_foldl_erase] at hf
      split_ifs at hf with hgone
      obtain ⟨y, lock, hr, hh, hmem, hl, hcount⟩ := hi.locked o h hf
      have hne : h ≠ e.1 := fun heq => by
        rw [heq, hreq] at hr
        cases hr
        exact hgone hmem
      exact ⟨y, lock, (find?_erase_ne _ hne).trans hr, hh, hmem,
        (find?_erase_ne _ hne).trans hl, hcount⟩

end

/-! ### Runs -/

/-- The condition on a message. -/
def swiftSafe (s : SwiftState) : SwiftEvent → Bool
  | .request E tx => requestSafe E tx s
  | .vote _ _ => true
  | .clean _ => true

/-- Messages that meet the condition. -/
def safeSwiftStep : SwiftState → SwiftEvent → Option SwiftState :=
  guarded swiftSafe fun s e => some (swiftStep s e)

/-- **A locked input is backed**: its transaction spends it, and the lock of the
transaction counts enough votes of different masternodes, each of which was known, among
the top ranks at the lock's height and had signed when its vote arrived. -/
def Backed (es : List SwiftEvent) (s : SwiftState) (o : OutPoint) (h : Nat) : Prop :=
  ∃ tx lock, s.mapTxLockReq.find? h = some tx ∧ tx.hash = h ∧ o ∈ tx.vin.map TxIn.prevout ∧
    s.mapTxLocks.find? h = some lock ∧
    swiftTxSignaturesRequired ≤ (lock.countedVotes.map ConsensusVote.vinMasternode).length ∧
    (lock.countedVotes.map ConsensusVote.vinMasternode).Nodup ∧
    ∀ v ∈ lock.countedVotes, v.txHash = h ∧ v.nBlockHeight = lock.nBlockHeight ∧ Arrived es v

section
variable {es : List SwiftEvent} {s : SwiftState}

theorem run_locked (hdist : VoteHashesDistinct es) (h : run safeSwiftStep .empty es = some s) :
    VotesInv (Arrived es) s ∧ LockedInv s := by
  have hempty : LockedInv .empty := by
    refine ⟨fun h tx hf => ?_, fun o h hf => ?_⟩ <;> cases hf
  refine run_invariant_mem (I := fun s => VotesInv (Arrived es) s ∧ LockedInv s)
    (fun s e he s' hi hstep => ?_) ⟨.empty, hempty⟩ h
  obtain ⟨hsafe, hstep⟩ := guarded_eq_some.mp hstep
  cases hstep
  refine ⟨hi.1.step hdist he, ?_⟩
  cases e with
  | request E tx => exact hi.2.processRequest hsafe
  | vote E v => exact hi.2.processVote
  | clean now => exact hi.2.clean now hdist.txHash_eq hi.1

theorem Completed.backed {o : OutPoint} {h : Nat} (hv : VotesInv (Arrived es) s) (hc : Completed s o h) :
    Backed es s o h := by
  obtain ⟨tx, lock, hreq, hhash, hmem, hlock, hcount⟩ := hc
  have hvotes := hv h lock hlock
  refine ⟨tx, lock, hreq, hhash, hmem, hlock, ?_, hvotes.masternodes, fun v hmem => ?_⟩
  · rw [TransactionLock.countSignatures, swiftTxSignaturesRequired] at hcount
    rw [List.length_map, swiftTxSignaturesRequired]
    split_ifs at hcount
    · omega
    · exact hcount
  · obtain ⟨hv, hheight⟩ := List.mem_filter.mp hmem
    obtain ⟨htx, harrived, -⟩ := hvotes.votes v hv
    exact ⟨htx, of_decide_eq_true hheight, harrived⟩

/-- **Every locked input is backed by votes**, an expired lock releases its inputs when it
is cleaned, and a block that the scan refuses conflicts with a transaction that has
consensus: in every state of every run whose requests meet the condition. -/
theorem locked_inputs_backed (hdist : VoteHashesDistinct es)
    (h : run safeSwiftStep .empty es = some s) :
    (∀ o hash, s.mapLockedInputs.find? o = some hash → Backed es s o hash) ∧
    (∀ now hash lock, s.mapTxLocks.find? hash = some lock → lock.nExpiration < now →
      ∀ o, (s.cleanTransactionLocksList now).mapLockedInputs.find? o ≠ some hash) ∧
    ∀ vtx, s.scanBlock true vtx = false →
      ∃ tx ∈ vtx, ∃ i ∈ tx.vin, ∃ hash, hash ≠ tx.hash ∧
        s.mapLockedInputs.find? i.prevout = some hash ∧ Backed es s i.prevout hash := by
  obtain ⟨hv, hi⟩ := run_locked hdist h
  have hbacked := fun o hash hf => (hi.locked o hash hf).backed hv
  refine ⟨hbacked, fun now hash lock hf hexp o hlocked => ?_, fun vtx hscan => ?_⟩
  · have hclean := hi.clean now hdist.txHash_eq hv
    obtain ⟨_, _, -, -, -, hlock, -⟩ := hclean.locked o hash hlocked
    rw [clean_expired hf hexp] at hlock
    cases hlock
  · rw [SwiftState.scanBlock, Bool.not_true, Bool.false_or, List.all_eq_false] at hscan
    obtain ⟨tx, htx, hscan⟩ := hscan
    rw [Bool.or_eq_true, not_or, Bool.not_eq_true, Bool.not_eq_true, List.all_eq_false] at hscan
    obtain ⟨-, i, hmem, hconf⟩ := hscan
    rw [Option.isNone_iff_eq_none] at hconf
    obtain ⟨hash, hconf⟩ := Option.ne_none_iff_exists'.mp hconf
    rw [SwiftState.conflictAt] at hconf
    obtain ⟨x, hx, hne⟩ := Option.bind_eq_some_iff.mp hconf
    split_ifs at hne with heq
    obtain rfl := Option.some.inj hne
    exact ⟨tx, htx, i, hmem, x, heq, hx, hbacked _ _ hx⟩

end

/-! ### Six votes and none -/

/-- A request for a coin that is deep enough. -/
def requestEnv (accept : Bool) : RequestEnv := ⟨true, true, fun _ => true, 100, fun _ => 10, 1000, accept⟩

/-- All masternodes are first in rank and sign well. -/
def voteEnv : VoteEnv := ⟨true, fun _ _ => 1, fun _ => true, 1000⟩

def lockedCoin : OutPoint := ⟨7, 0⟩

def lockedTransaction : Transaction := ⟨50, [⟨lockedCoin, []⟩], []⟩

/-- A request and six votes at the height of its lock. -/
def sixVotes : List SwiftEvent :=
  .request (requestEnv true) lockedTransaction ::
    (List.range 6).map fun k => .vote voteEnv ⟨⟨k + 1, 0⟩, 50, 94, []⟩

theorem locked_inputs_backed_sixVotes :
    ∃ s, run safeSwiftStep .empty sixVotes = some s ∧ s.mapLockedInputs.find? lockedCoin = some 50 ∧
      Backed sixVotes s lockedCoin 50 := by
  have hrun : (run safeSwiftStep .empty sixVotes).map (fun s => s.mapLockedInputs.find? lockedCoin) =
      some (some 50) := by
    decide +kernel
  obtain ⟨s, hs, hvalue⟩ := Option.map_eq_some_iff.mp hrun
  have hdist : VoteHashesDistinct sixVotes := by
    intro E E' v w hv hw heq
    simp only [sixVotes, List.mem_cons, List.mem_map, List.mem_range, reduceCtorEq, false_or,
      SwiftEvent.vote.injEq] at hv hw
    obtain ⟨k, hk, -, rfl⟩ := hv
    obtain ⟨k', hk', -, rfl⟩ := hw
    simp only [ConsensusVote.getHash] at heq ⊢
    rw [Nat.mod_eq_of_lt (by omega), Nat.mod_eq_of_lt (by omega)] at heq
    exact ⟨by rw [show k = k' by omega], trivial⟩
  exact ⟨s, hs, hvalue, (locked_inputs_backed hdist hs).1 _ _ hvalue⟩

/-- The mempool rejects a request that nobody voted for: its input is locked. -/
theorem rejected_request_locks :
    ¬ ∀ (es : List SwiftEvent), VoteHashesDistinct es → ∀ o hash,
      (swiftRun es).mapLockedInputs.find? o = some hash → Backed es (swiftRun es) o hash := by
  intro hall
  have hdist : VoteHashesDistinct [.request (requestEnv false) lockedTransaction] := by
    intro E E' v w hv
    simp at hv
  obtain ⟨tx, lock, hreq, -⟩ := hall _ hdist lockedCoin 50 (by decide +kernel)
  have hnone : (swiftRun [.request (requestEnv false) lockedTransaction]).mapTxLockReq.find? 50 = none := by
    decide +kernel
  rw [hnone] at hreq
  cases hreq

/-- Cleaning does not release it, and blocks that spend it otherwise are refused. -/
example : ((swiftRun [.request (requestEnv false) lockedTransaction, .clean 100000]).scanBlock true
    [⟨60, [⟨lockedCoin, []⟩], []⟩]) = false := by
  decide +kernel

end Rapids.Masternode
