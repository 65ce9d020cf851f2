import Rapids.Masternode.BroadcastSound

/-!
# Rapids.Masternode.Cleaning

**The loops of `CMasternodeMan::CheckAndRemove`**, one by one, with the maps that `Broadcast` leaves out:
the requests for the list that were received and sent, the requests for single entries, and the
broadcasts that the synchronization counts (`mapSeenSyncMNB`).

A loop over a map that erases the entry it stands on goes over the entries that were there at its
start. The loop over old broadcasts also reads an entry after it has moved on: the hash that it takes
out of the synchronization's map is that of the next broadcast, and behind the last one there is none.
`none` stands for reading there.
-/

namespace Rapids.Masternode

open Rapids.Lib OrdMap Rapids.Chain

/-! ### Loops that erase -/

section EraseLoop

variable {κ ν : Type} [LinearOrder κ]

/-- `if (...) m.erase(it++); else ++it;` over entries. -/
def eraseLoop (erased : κ × ν → Bool) : List (κ × ν) → OrdMap κ ν → OrdMap κ ν
  | [], m => m
  | e :: rest, m => eraseLoop erased rest (if erased e then m.erase e.1 else m)

theorem eraseLoop_eq (erased : κ × ν → Bool) (l : List (κ × ν)) (m : OrdMap κ ν) :
    eraseLoop erased l m = (l.filter erased).foldl (fun m e => m.erase e.1) m := by
  induction l generalizing m with
  | nil => rfl
  | cons e rest ih =>
    rw [eraseLoop, ih, List.filter_cons]
    by_cases herased : erased e = true
    · rw [if_pos herased, if_pos herased, List.foldl_cons]
    · rw [if_neg herased, if_neg herased]

theorem mem_keys_iff (m : OrdMap κ ν) (erased : κ × ν → Bool) (k : κ) :
    k ∈ (m.entries.filter erased).map Prod.fst ↔ (m.find? k).any (fun v => erased (k, v)) = true := by
  rw [List.mem_map, Option.any_eq_true]
  constructor
  · rintro ⟨e, he, rfl⟩
    obtain ⟨hmem, herased⟩ := List.mem_filter.mp he
    exact ⟨e.2, mem_entries_iff.mp hmem, herased⟩
  · rintro ⟨v, hv, herased⟩
    exact ⟨(k, v), List.mem_filter.mpr ⟨mem_entries_iff.mpr hv, herased⟩, rfl⟩

theorem eraseLoop_entries (erased : κ × ν → Bool) (m : OrdMap κ ν) :
    eraseLoop erased m.entries m = m.filter fun e => !erased e := by
  refine ext_find? fun k => ?_
  rw [eraseLoop_eq, find?_foldl_erase, find?_filter, if_congr (mem_keys_iff m erased k) rfl rfl]
  cases m.find? k with
  | none => rfl
  | some v =>
    rw [Option.any_some, Option.filter_some]
    cases erased (k, v) <;> rfl

end EraseLoop

/-! ### The maps -/

/-- The maps of `CMasternodeMan` and `mapSeenSyncMNB`. An address is a number. -/
structure MasternodeLists where
  man : MasternodeMan
  mAskedUsForMasternodeList : OrdMap Nat Int
  mWeAskedForMasternodeList : OrdMap Nat Int
  mWeAskedForMasternodeListEntry : OrdMap OutPoint Int
  mapSeenSyncMNB : OrdMap Nat Int

namespace MasternodeLists

variable (W : MasternodeCode) (E : MasternodeEnv)

/-- The broadcast is of the masternode that is removed. -/
def isOf (mn : CMasternode) (e : Nat × MasternodeBroadcast) : Bool :=
  decide (e.2.vin = mn.vin) && decide (e.2.nSequence = mn.nSequence)

/-- The broadcast is old. -/
def isExpired (e : Nat × MasternodeBroadcast) : Bool :=
  decide (e.2.lastPing.sigTime < E.now - masternodeRemovalSeconds * 2)

/-- The loop over the broadcasts of a masternode. -/
def eraseBroadcasts (mn : CMasternode) : List (Nat × MasternodeBroadcast) →
    OrdMap Nat MasternodeBroadcast × OrdMap Nat Int → OrdMap Nat MasternodeBroadcast × OrdMap Nat Int
  | [], maps => maps
  | e :: rest, (seen, sync) =>
    eraseBroadcasts mn rest (if isOf mn e then (seen.erase e.1, sync.erase e.1) else (seen, sync))

/-- A masternode is removed. -/
def removeMasternode (L : MasternodeLists) (e : OutPoint × CMasternode) : MasternodeLists :=
  let r := eraseBroadcasts e.2 L.man.mapSeenMasternodeBroadcast.entries
    (L.man.mapSeenMasternodeBroadcast, L.mapSeenSyncMNB)
  { L with
    man := { L.man with
      mapMasternodes := L.man.mapMasternodes.erase e.1
      mapSeenMasternodeBroadcast := r.1 }
    mapSeenSyncMNB := r.2
    mWeAskedForMasternodeListEntry :=
      eraseLoop (fun x => decide (x.1 = e.1)) L.mWeAskedForMasternodeListEntry.entries
        L.mWeAskedForMasternodeListEntry }

/-- The loop over the masternodes. -/
def removeMasternodes (forceExpiredRemoval : Bool) : List (OutPoint × CMasternode) → MasternodeLists → MasternodeLists
  | [], L => L
  | e :: rest, L =>
    removeMasternodes forceExpiredRemoval rest
      (if MasternodeMan.isRemoved W E forceExpiredRemoval e.2 then L.removeMasternode e else L)

/-- The loop over old broadcasts: an entry is erased, and then the next one is read. -/
def expireBroadcasts : List (Nat × MasternodeBroadcast) →
    OrdMap Nat MasternodeBroadcast × OrdMap Nat Int →
    Option (OrdMap Nat MasternodeBroadcast × OrdMap Nat Int)
  | [], maps => some maps
  | e :: rest, (seen, sync) =>
    if isExpired E e then
      rest.head?.bind fun next => expireBroadcasts rest (seen.erase e.1, sync.erase (W.getHash next.2))
    else expireBroadcasts rest (seen, sync)

/-- The time of a request is over. -/
def isPast {κ : Type} (e : κ × Int) : Bool := decide (e.2 < E.now)

/-- The ping is old. -/
def isOldPing (e : Nat × MasternodePing) : Bool := decide (e.2.sigTime < E.now - masternodeRemovalSeconds * 2)

/-- `CheckAndRemove` -/
def checkAndRemove (forceExpiredRemoval : Bool) (L : MasternodeLists) : Option MasternodeLists :=
  let L := removeMasternodes W E forceExpiredRemoval L.man.mapMasternodes.entries L
  (expireBroadcasts W E L.man.mapSeenMasternodeBroadcast.entries
    (L.man.mapSeenMasternodeBroadcast, L.mapSeenSyncMNB)).map fun r =>
      { man := { L.man with
          mapSeenMasternodeBroadcast := r.1
          mapSeenMasternodePing :=
            eraseLoop (isOldPing E) L.man.mapSeenMasternodePing.entries L.man.mapSeenMasternodePing }
        mAskedUsForMasternodeList :=
          eraseLoop (isPast E) L.mAskedUsForMasternodeList.entries L.mAskedUsForMasternodeList
        mWeAskedForMasternodeList :=
          eraseLoop (isPast E) L.mWeAskedForMasternodeList.entries L.mWeAskedForMasternodeList
        mWeAskedForMasternodeListEntry :=
          eraseLoop (isPast E) L.mWeAskedForMasternodeListEntry.entries L.mWeAskedForMasternodeListEntry
        mapSeenSyncMNB := r.2 }

/-! ### What the loops do -/

section Loops

variable {W E} {L r : MasternodeLists} {forceExpiredRemoval : Bool}

theorem eraseBroadcasts_eq (mn : CMasternode) (l : List (Nat × MasternodeBroadcast))
    (seen : OrdMap Nat MasternodeBroadcast) (sync : OrdMap Nat Int) :
    eraseBroadcasts mn l (seen, sync) =
      (eraseLoop (isOf mn) l seen, (l.filter (isOf mn)).foldl (fun m e => m.erase e.1) sync) := by
  induction l generalizing seen sync with
  | nil => rfl
  | cons e rest ih =>
    rw [eraseBroadcasts, eraseLoop, List.filter_cons]
    by_cases hof : isOf mn e = true
    · rw [if_pos hof, if_pos hof, if_pos hof, ih, List.foldl_cons]
    · rw [if_neg hof, if_neg hof, if_neg hof, ih]

section
variable (e : OutPoint × CMasternode)

theorem removeMasternode_seen :
    (L.removeMasternode e).man.mapSeenMasternodeBroadcast =
      L.man.mapSeenMasternodeBroadcast.filter fun b => !isOf e.2 b := by
  simp [removeMasternode, eraseBroadcasts_eq, eraseLoop_entries]

theorem removeMasternode_sync (h : Nat) :
    (L.removeMasternode e).mapSeenSyncMNB.find? h =
      if (L.man.mapSeenMasternodeBroadcast.find? h).any (fun b => isOf e.2 (h, b)) then none
      else L.mapSeenSyncMNB.find? h := by
  simp only [removeMasternode, eraseBroadcasts_eq]
  rw [find?_foldl_erase, if_congr (mem_keys_iff _ _ h) rfl rfl]

theorem removeMasternode_entries :
    (L.removeMasternode e).mWeAskedForMasternodeListEntry =
      L.mWeAskedForMasternodeListEntry.filter fun x => !decide (x.1 = e.1) := by
  simp [removeMasternode, eraseLoop_entries]

end

/-- The masternodes in a list are removed that are to be removed: what that does to the other maps. -/
structure Removed (W : MasternodeCode) (E : MasternodeEnv) (forceExpiredRemoval : Bool)
    (l : List (OutPoint × CMasternode)) (L r : MasternodeLists) : Prop where
  masternodes : r.man.mapMasternodes = eraseLoop (fun e => MasternodeMan.isRemoved W E forceExpiredRemoval e.2) l
    L.man.mapMasternodes
  seen : ∀ h, r.man.mapSeenMasternodeBroadcast.find? h = (L.man.mapSeenMasternodeBroadcast.find? h).filter fun b =>
    !(l.any fun x => MasternodeMan.isRemoved W E forceExpiredRemoval x.2 && isOf x.2 (h, b))
  sync : ∀ h, r.mapSeenSyncMNB.find? h =
    if (L.man.mapSeenMasternodeBroadcast.find? h).any (fun b =>
      l.any fun x => MasternodeMan.isRemoved W E forceExpiredRemoval x.2 && isOf x.2 (h, b)) then none
    else L.mapSeenSyncMNB.find? h
  entries : ∀ o, r.mWeAskedForMasternodeListEntry.find? o = (L.mWeAskedForMasternodeListEntry.find? o).filter fun _ =>
    !(l.any fun x => MasternodeMan.isRemoved W E forceExpiredRemoval x.2 && decide (o = x.1))
  pings : r.man.mapSeenMasternodePing = L.man.mapSeenMasternodePing
  asked : r.mAskedUsForMasternodeList = L.mAskedUsForMasternodeList
  weAsked : r.mWeAskedForMasternodeList = L.mWeAskedForMasternodeList

theorem removeMasternodes_removed (l : List (OutPoint × CMasternode)) (L : MasternodeLists) :
    Removed W E forceExpiredRemoval l L (removeMasternodes W E forceExpiredRemoval l L) := by
  induction l generalizing L with
  | nil =>
    refine ⟨rfl, fun h => ?_, fun h => ?_, fun o => ?_, rfl, rfl, rfl⟩
    · rw [removeMasternodes]
      cases L.man.mapSeenMasternodeBroadcast.find? h <;> rfl
    · simp [removeMasternodes]
    · rw [removeMasternodes]
      cases L.mWeAskedForMasternodeListEntry.find? o <;> rfl
  | cons e rest ih =>
    rw [removeMasternodes]
    by_cases hremoved : MasternodeMan.isRemoved W E forceExpiredRemoval e.2 = true
    · rw [if_pos hremoved]
      obtain ⟨hmns, hseen, hsync, hentries, hpings, hasked, hweAsked⟩ := ih (L.removeMasternode e)
      refine ⟨?_, fun h => ?_, fun h => ?_, fun o => ?_, hpings, hasked, hweAsked⟩
      · rw [hmns, eraseLoop, if_pos hremoved]
        rfl
      · rw [hseen, removeMasternode_seen, find?_filter, Option.filter_filter]
        refine congrArg (fun p => Option.filter p _) (funext fun b => ?_)
        rw [List.any_cons, hremoved, Bool.true_and, Bool.not_or]
      · rw [hsync, removeMasternode_seen, removeMasternode_sync, find?_filter]
        cases L.man.mapSeenMasternodeBroadcast.find? h with
        | none => rfl
        | some b =>
          rw [Option.any_some, Option.any_some, List.any_cons, hremoved, Bool.true_and, Option.filter_some]
          generalize isOf e.2 (h, b) = ofFirst
          cases ofFirst <;> rfl
      · rw [hentries, removeMasternode_entries, find?_filter, Option.filter_filter]
        refine congrArg (fun p => Option.filter p _) (funext fun time => ?_)
        rw [List.any_cons, hremoved, Bool.true_and, Bool.not_or]
    · rw [if_neg hremoved]
      obtain ⟨hmns, hseen, hsync, hentries, hpings, hasked, hweAsked⟩ := ih L
      refine ⟨?_, fun h => ?_, fun h => ?_, fun o => ?_, hpings, hasked, hweAsked⟩
      · rw [hmns, eraseLoop, if_neg hremoved]
      · simp [hseen, hremoved]
      · simp [hsync, hremoved]
      · simp [hentries, hremoved]

/-- The hashes that the loop over old broadcasts takes out of the synchronization's map: those of the
broadcasts behind old ones. -/
def rightHashes (W : MasternodeCode) (E : MasternodeEnv) : List (Nat × MasternodeBroadcast) → List Nat
  | [] => []
  | e :: rest =>
    if isExpired E e then (rest.head?.map fun next => W.getHash next.2).toList ++ rightHashes W E rest
    else rightHashes W E rest

/-- The last broadcast is old. -/
def lastExpired (E : MasternodeEnv) (l : List (Nat × MasternodeBroadcast)) : Bool := l.getLast?.any (isExpired E)

/-- **The loop over old broadcasts** leaves the map if the last one is old. -/
theorem expireBroadcasts_eq (l : List (Nat × MasternodeBroadcast)) (seen : OrdMap Nat MasternodeBroadcast)
    (sync : OrdMap Nat Int) :
    expireBroadcasts W E l (seen, sync) =
      if lastExpired E l then none
      else some (eraseLoop (isExpired E) l seen, (rightHashes W E l).foldl (fun m h => m.erase h) sync) := by
  induction l generalizing seen sync with
  | nil => rfl
  | cons e rest ih =>
    rw [expireBroadcasts, eraseLoop, rightHashes]
    by_cases hexpired : isExpired E e = true
    · rw [if_pos hexpired, if_pos hexpired, if_pos hexpired]
      cases rest with
      | nil => simp [lastExpired, hexpired]
      | cons next rest =>
        rw [List.head?_cons, Option.bind_some, ih, Option.map_some, Option.toList_some, List.singleton_append,
          List.foldl_cons, lastExpired, lastExpired, List.getLast?_cons_cons]
    · rw [if_neg hexpired, if_neg hexpired, if_neg hexpired, ih]
      cases rest with
      | nil => simp [lastExpired, hexpired]
      | cons next rest => rw [lastExpired, lastExpired, List.getLast?_cons_cons]

end Loops

/-! ### The whole call -/

section Call

variable (W : MasternodeCode) (E : MasternodeEnv) (forceExpiredRemoval : Bool) (L : MasternodeLists)

/-- The broadcast is of a masternode that is removed. -/
def ofRemoved (e : Nat × MasternodeBroadcast) : Bool :=
  L.man.mapMasternodes.entries.any fun x => MasternodeMan.isRemoved W E forceExpiredRemoval x.2 && isOf x.2 e

/-- The output is that of a masternode that is removed. -/
def entryOfRemoved (o : OutPoint) : Bool :=
  L.man.mapMasternodes.entries.any fun x =>
    MasternodeMan.isRemoved W E forceExpiredRemoval x.2 && decide (o = x.1)

/-- The broadcasts that the loop over the masternodes leaves. -/
def remaining : OrdMap Nat MasternodeBroadcast :=
  L.man.mapSeenMasternodeBroadcast.filter fun e => !ofRemoved W E forceExpiredRemoval L e

/-- What that loop leaves in the synchronization's map. -/
def remainingSync : OrdMap Nat Int :=
  L.mapSeenSyncMNB.filter fun e =>
    !(L.man.mapSeenMasternodeBroadcast.find? e.1).any fun b => ofRemoved W E forceExpiredRemoval L (e.1, b)

variable {W E forceExpiredRemoval L} {r : MasternodeLists}

section
variable (h : Removed W E forceExpiredRemoval L.man.mapMasternodes.entries L r)
include h

theorem Removed.seen_eq :
    r.man.mapSeenMasternodeBroadcast = remaining W E forceExpiredRemoval L := by
  refine ext_find? fun k => ?_
  rw [h.seen, remaining, find?_filter]
  rfl

theorem Removed.sync_eq :
    r.mapSeenSyncMNB = remainingSync W E forceExpiredRemoval L := by
  refine ext_find? fun k => ?_
  rw [h.sync, remainingSync, find?_filter]
  cases L.mapSeenSyncMNB.find? k with
  | none => simp
  | some n =>
    rw [Option.filter_some]
    by_cases hof : (L.man.mapSeenMasternodeBroadcast.find? k).any
        (fun b => ofRemoved W E forceExpiredRemoval L (k, b)) = true
    · rw [hof]
      exact if_pos hof
    · rw [Bool.not_eq_true] at hof
      rw [hof]
      exact if_neg (Bool.not_eq_true _ ▸ hof)

theorem Removed.entries_eq :
    r.mWeAskedForMasternodeListEntry =
      L.mWeAskedForMasternodeListEntry.filter fun e => !entryOfRemoved W E forceExpiredRemoval L e.1 := by
  refine ext_find? fun k => ?_
  rw [h.entries, find?_filter]
  rfl

end

/-- The maps of the masternodes are cleaned as `MasternodeMan.checkAndRemove` says. -/
theorem filter_remaining :
    (remaining W E forceExpiredRemoval L).filter (fun e => !isExpired E e) =
      (MasternodeMan.checkAndRemove W E forceExpiredRemoval L.man).mapSeenMasternodeBroadcast := by
  refine ext_find? fun k => ?_
  rw [find?_filter, remaining, find?_filter, MasternodeMan.checkAndRemove, find?_filter,
    Option.filter_filter]
  refine congrArg (fun p => Option.filter p _) (funext fun mnb => ?_)
  simp [ofRemoved, isOf, isExpired, Bool.and_assoc]

/-- **The whole call**, as filters. -/
theorem checkAndRemove_eq :
    checkAndRemove W E forceExpiredRemoval L =
      if lastExpired E (remaining W E forceExpiredRemoval L).entries then none
      else some
        { man := MasternodeMan.checkAndRemove W E forceExpiredRemoval L.man
          mAskedUsForMasternodeList := L.mAskedUsForMasternodeList.filter fun e => !isPast E e
          mWeAskedForMasternodeList := L.mWeAskedForMasternodeList.filter fun e => !isPast E e
          mWeAskedForMasternodeListEntry :=
            (L.mWeAskedForMasternodeListEntry.filter fun e => !entryOfRemoved W E forceExpiredRemoval L e.1).filter
              fun e => !isPast E e
          mapSeenSyncMNB := (rightHashes W E (remaining W E forceExpiredRemoval L).entries).foldl
            (fun m h => m.erase h) (remainingSync W E forceExpiredRemoval L) } := by
  have h := @removeMasternodes_removed W E forceExpiredRemoval L.man.mapMasternodes.entries L
  simp only [checkAndRemove, h.seen_eq, h.sync_eq, h.entries_eq, h.pings, h.asked, h.weAsked, eraseLoop_entries,
    expireBroadcasts_eq, h.masternodes]
  by_cases hlast : lastExpired E (remaining W E forceExpiredRemoval L).entries = true
  · rw [if_pos hlast, if_pos hlast, Option.map_none]
  · rw [if_neg hlast, if_neg hlast, Option.map_some, filter_remaining]
    rfl

theorem rightHashes_eq_nil {l : List (Nat × MasternodeBroadcast)} (h : ∀ e ∈ l, isExpired E e = false) :
    rightHashes W E l = [] := by
  induction l with
  | nil => rfl
  | cons e rest ih =>
    have he : ¬ isExpired E e = true := by simp [h e (List.mem_cons_self ..)]
    rw [rightHashes, if_neg he]
    exact ih fun x hx => h x (.tail _ hx)

theorem find?_foldl_erase_none {l : List Nat} {m : OrdMap Nat Int} {k : Nat} (h : m.find? k = none) :
    (l.foldl (fun m h => m.erase h) m).find? k = none := by
  rw [find?_foldl_erase (fun h => h), h, ite_self]

end Call

/-- What is removed from each map, and from no other. -/
structure Cleaned (W : MasternodeCode) (E : MasternodeEnv) (forceExpiredRemoval : Bool) (L r : MasternodeLists) :
    Prop where
  masternodes : r.man.mapMasternodes =
    L.man.mapMasternodes.filter fun e => !MasternodeMan.isRemoved W E forceExpiredRemoval e.2
  broadcasts : r.man.mapSeenMasternodeBroadcast =
    L.man.mapSeenMasternodeBroadcast.filter fun e =>
      !ofRemoved W E forceExpiredRemoval L e && !isExpired E e
  pings : r.man.mapSeenMasternodePing = L.man.mapSeenMasternodePing.filter fun e => !isOldPing E e
  asked : r.mAskedUsForMasternodeList = L.mAskedUsForMasternodeList.filter fun e => !isPast E e
  weAsked : r.mWeAskedForMasternodeList = L.mWeAskedForMasternodeList.filter fun e => !isPast E e
  /-- A masternode that is removed may be asked for again. -/
  entries : r.mWeAskedForMasternodeListEntry =
    L.mWeAskedForMasternodeListEntry.filter fun e =>
      !entryOfRemoved W E forceExpiredRemoval L e.1 && !isPast E e
  sync : ∀ e ∈ L.man.mapSeenMasternodeBroadcast.entries, ofRemoved W E forceExpiredRemoval L e = true →
    r.mapSeenSyncMNB.find? e.1 = none
  onlySync : (∀ e ∈ (remaining W E forceExpiredRemoval L).entries, isExpired E e = false) →
    r.mapSeenSyncMNB = remainingSync W E forceExpiredRemoval L

/-- **Cleaning the masternode list.** Where the last of the broadcasts that stay with their masternodes
is not old, no loop leaves its map, and each map is rid of what the others say. -/
theorem check_and_remove_cleans {W : MasternodeCode} {E : MasternodeEnv} {forceExpiredRemoval : Bool}
    {L : MasternodeLists} (hlast : lastExpired E (remaining W E forceExpiredRemoval L).entries = false) :
    ∃ r, checkAndRemove W E forceExpiredRemoval L = some r ∧ Cleaned W E forceExpiredRemoval L r := by
  have hlast' : ¬ lastExpired E (remaining W E forceExpiredRemoval L).entries = true := by simp [hlast]
  refine ⟨_, by rw [checkAndRemove_eq, if_neg hlast'], ?_⟩
  refine ⟨rfl, ?_, rfl, rfl, rfl, ?_, ?_, ?_⟩
  · rw [← filter_remaining]
    refine ext_find? fun k => ?_
    rw [remaining, find?_filter, find?_filter, find?_filter, Option.filter_filter]
  · refine ext_find? fun k => ?_
    rw [find?_filter, find?_filter, find?_filter, Option.filter_filter]
  · intro e he hof
    refine find?_foldl_erase_none ?_
    -- the key is gone before the loop over old broadcasts
    have hfind : L.man.mapSeenMasternodeBroadcast.find? e.1 = some e.2 := mem_entries_iff.mp he
    rw [remainingSync, find?_filter]
    simp only [hfind, Option.any_some, hof]
    cases L.mapSeenSyncMNB.find? e.1 <;> rfl
  · intro hnone
    rw [rightHashes_eq_nil hnone]
    rfl

/-! ### Three states -/

/-- A time at which a ping of 4900 is old. -/
def cleaningEnv : MasternodeEnv := { masternodeEnv with now := 1000000 }

/-- A masternode whose collateral is spent, with one of its broadcasts and a request for it that is not old. -/
def askedForSpent : MasternodeLists where
  man :=
    { mapMasternodes := (∅ : OrdMap OutPoint CMasternode).insert ⟨5, 0⟩
        { broadcastOf 0 [1] with fCollateralSpent := true }
      mapSeenMasternodeBroadcast := (∅ : OrdMap Nat MasternodeBroadcast).insert 5000 (broadcastOf 0 [1])
      mapSeenMasternodePing := ∅ }
  mAskedUsForMasternodeList := ∅
  mWeAskedForMasternodeList := ∅
  mWeAskedForMasternodeListEntry := (∅ : OrdMap OutPoint Int).insert ⟨5, 0⟩ 1000100
  mapSeenSyncMNB := (∅ : OrdMap Nat Int).insert 5000 1

theorem check_and_remove_cleans_askedForSpent :
    ∃ r, checkAndRemove masternodeCode cleaningEnv false askedForSpent = some r ∧
      Cleaned masternodeCode cleaningEnv false askedForSpent r :=
  check_and_remove_cleans (by decide +kernel)

/-- Broadcasts of masternodes that have gone. -/
def seenOnly (seen : OrdMap Nat MasternodeBroadcast) (sync : OrdMap Nat Int) : MasternodeLists where
  man := ⟨∅, seen, ∅⟩
  mAskedUsForMasternodeList := ∅
  mWeAskedForMasternodeList := ∅
  mWeAskedForMasternodeListEntry := ∅
  mapSeenSyncMNB := sync

/-- An old broadcast. -/
def oldOnly : OrdMap Nat MasternodeBroadcast := (∅ : OrdMap Nat MasternodeBroadcast).insert 5000 (broadcastOf 0 [1])

/-- An old broadcast before a fresh one. -/
def oldThenFresh : OrdMap Nat MasternodeBroadcast :=
  oldOnly.insert 5001 { broadcastOf 1 [1] with
    sigTime := 4001, lastPing := ⟨⟨⟨5, 1⟩, []⟩, 0, 1, 999000, [], 1⟩ }

/-- A request that is not old goes with its masternode; the loop runs past an old broadcast that is the
last one; and before a fresh one it takes the hash of the fresh one. -/
theorem cleaning_not_exact :
    (¬ ∃ r, checkAndRemove masternodeCode cleaningEnv false askedForSpent = some r ∧
      r.mWeAskedForMasternodeListEntry =
        askedForSpent.mWeAskedForMasternodeListEntry.filter fun e => !isPast cleaningEnv e) ∧
    checkAndRemove masternodeCode cleaningEnv false (seenOnly oldOnly ∅) = none ∧
    (checkAndRemove masternodeCode cleaningEnv false
        (seenOnly oldThenFresh (((∅ : OrdMap Nat Int).insert 5000 1).insert 5001 1))).map
      (fun r => (r.man.mapSeenMasternodeBroadcast.contains 5000, r.man.mapSeenMasternodeBroadcast.contains 5001,
        r.mapSeenSyncMNB.contains 5000, r.mapSeenSyncMNB.contains 5001)) = some (false, true, true, false) := by
  refine ⟨?_, by decide +kernel, by decide +kernel⟩
  intro h
  obtain ⟨r, hr, hentries⟩ := h
  have hfind : (checkAndRemove masternodeCode cleaningEnv false askedForSpent).map
      (fun r => r.mWeAskedForMasternodeListEntry.contains ⟨5, 0⟩) = some false := by decide +kernel
  rw [hr, Option.map_some, hentries] at hfind
  revert hfind
  decide +kernel

end MasternodeLists

end Rapids.Masternode
