import Rapids.Masternode.BroadcastSound

/-!
# Rapids.Masternode.BroadcastRejected

What a rejected broadcast leaves behind, and what that does to a genuine one.

It changes the list exactly if it **alters** an entry: the entry of its collateral is older
and either is updated from it, which happens before its outpoint is checked, or is not
enabled and is removed, which happens before the coin is checked. And a node that
**remembers** it, under its time and its collateral key only, does not look at a genuine
one with the same time and key. What is remembered is all of a node besides the list that
a broadcast reads, and only for that; so with neither, the genuine one fares as it would
have.
-/

namespace Rapids.Masternode

open Rapids.Lib OrdMap Rapids.Chain

variable {mn : CMasternode}

namespace MasternodeMan

variable {W : MasternodeCode} {E : MasternodeEnv} {m m' : MasternodeMan} {mnb : MasternodeBroadcast}
  {coins : Coins}

/-! ### Only the list is read -/

section
variable (h : m.mapMasternodes = m'.mapMasternodes)
include h

theorem find_congr (o : OutPoint) : m.find o = m'.find o := by
  rw [find, h, find]

theorem modify_congr (o : OutPoint)
    (f : CMasternode → CMasternode) : (m.modify o f).mapMasternodes = (m'.modify o f).mapMasternodes := by
  refine ext_find? fun k => ?_
  have hk := find_modify m o k f
  have hk' := find_modify m' o k f
  rw [find_congr h, find_congr h] at hk
  exact hk.trans hk'.symm

theorem checkPing_congr (fRequireAvailable : Bool)
    (p : MasternodePing) :
    (checkPing W E fRequireAvailable p m).1 = (checkPing W E fRequireAvailable p m').1 ∧
      (checkPing W E fRequireAvailable p m).2.mapMasternodes =
        (checkPing W E fRequireAvailable p m').2.mapMasternodes := by
  rw [checkPing, checkPing, find_congr h]
  by_cases htime : (!pingInTime E p) = true
  · rw [if_pos htime, if_pos htime]
    exact ⟨rfl, h⟩
  rw [if_neg htime, if_neg htime]
  cases m'.find p.vin.prevout with
  | none => exact ⟨rfl, h⟩
  | some mn =>
    dsimp only
    split_ifs
    · exact ⟨rfl, h⟩
    · exact ⟨rfl, h⟩
    · exact ⟨rfl, h⟩
    · exact ⟨rfl, h⟩
    · exact ⟨rfl, h⟩
    · exact ⟨rfl, modify_congr h _ _⟩

theorem updateFromNewBroadcast_congr (mnb : MasternodeBroadcast) :
    (updateFromNewBroadcast W E mnb m).mapMasternodes = (updateFromNewBroadcast W E mnb m').mapMasternodes := by
  rw [updateFromNewBroadcast, updateFromNewBroadcast]
  have hmod := modify_congr h mnb.vin.prevout fun mn => { mn with
    pubKeyMasternode := mnb.pubKeyMasternode
    pubKeyCollateralAddress := mnb.pubKeyCollateralAddress
    sigTime := mnb.sigTime
    vchSig := mnb.vchSig
    protocolVersion := mnb.protocolVersion
    addr := mnb.addr }
  by_cases hnull : mnb.lastPing.isNull = true
  · rw [if_pos hnull, if_pos hnull, if_pos rfl, if_pos rfl]
    exact modify_congr hmod _ _
  · rw [if_neg hnull, if_neg hnull]
    obtain ⟨hok, hlist⟩ := checkPing_congr hmod false mnb.lastPing
    rw [hok]
    split_ifs
    · exact modify_congr hlist _ _
    · exact hlist

theorem checkMessage_congr (mnb : MasternodeBroadcast) :
    checkMessage W E mnb m = checkMessage W E mnb m' := by
  rw [checkMessage, checkMessage, checkPingSigTime, checkPingSigTime, pingSignedOrUnknown, pingSignedOrUnknown,
    find_congr h]

theorem checkAndUpdate_congr (mnb : MasternodeBroadcast) :
    (checkAndUpdate W E mnb m).1 = (checkAndUpdate W E mnb m').1 ∧
      (checkAndUpdate W E mnb m).2.mapMasternodes = (checkAndUpdate W E mnb m').2.mapMasternodes := by
  rw [checkAndUpdate, checkAndUpdate, checkMessage_congr h, find_congr h]
  by_cases hcheck : (!checkMessage W E mnb m') = true
  · rw [if_pos hcheck, if_pos hcheck]
    exact ⟨rfl, h⟩
  rw [if_neg hcheck, if_neg hcheck]
  cases m'.find mnb.vin.prevout with
  | none => exact ⟨rfl, h⟩
  | some mn =>
    dsimp only
    split_ifs
    · exact ⟨rfl, h⟩
    · exact ⟨rfl, updateFromNewBroadcast_congr h mnb⟩
    · exact ⟨rfl, h⟩

/-- Two results that a peer cannot tell apart: the answer and the list. -/
def SameOutcome (r r' : BroadcastResult) : Prop :=
  r.accepted = r'.accepted ∧ r.man.mapMasternodes = r'.man.mapMasternodes

theorem add_congr (mn : CMasternode) :
    (m.add W E mn).2.mapMasternodes = (m'.add W E mn).2.mapMasternodes := by
  rw [add, add, find_congr h]
  split_ifs
  · exact h
  · exact h
  · rw [h]

section
variable (coins : Coins) (mnb : MasternodeBroadcast)

theorem addBroadcast_congr
    :
    SameOutcome (addBroadcast W E coins mnb m) (addBroadcast W E coins mnb m') := by
  rw [addBroadcast, addBroadcast]
  split_ifs
  · exact ⟨rfl, h⟩
  · exact ⟨rfl, h⟩
  · exact ⟨rfl, h⟩
  · exact ⟨rfl, add_congr h _⟩

theorem checkInputsAndAdd_congr
    :
    SameOutcome (checkInputsAndAdd W E coins mnb m) (checkInputsAndAdd W E coins mnb m') := by
  rw [checkInputsAndAdd, checkInputsAndAdd, checkPingSigTime, checkPingSigTime, pingSignedOrUnknown,
    pingSignedOrUnknown, find_congr h, find_congr h mnb.vin.prevout]
  by_cases hours : E.isOurs mnb = true
  · rw [if_pos hours, if_pos hours]
    exact ⟨rfl, h⟩
  rw [if_neg hours, if_neg hours]
  split_ifs
  · exact ⟨rfl, h⟩
  cases m'.find mnb.vin.prevout with
  | none => exact addBroadcast_congr h coins mnb
  | some mn =>
    dsimp only
    split_ifs
    · exact ⟨rfl, h⟩
    · exact addBroadcast_congr (congrArg (fun l => l.erase mnb.vin.prevout) h) coins mnb

/-- **What becomes of a broadcast depends on the list only.** -/
theorem checkBroadcast_congr
    :
    SameOutcome (checkBroadcast W E coins mnb m) (checkBroadcast W E coins mnb m') := by
  obtain ⟨hok, hlist⟩ := checkAndUpdate_congr h mnb
  rw [checkBroadcast, checkBroadcast, hok]
  split_ifs
  · exact ⟨rfl, hlist⟩
  · exact ⟨rfl, hlist⟩
  · exact checkInputsAndAdd_congr hlist coins mnb

end

end

/-! ### What a rejected broadcast leaves -/

/-- **The broadcast alters an entry**: the entry of its collateral is older, and is
updated, or is not enabled and is removed. -/
def alters (W : MasternodeCode) (E : MasternodeEnv) (mnb : MasternodeBroadcast) (m : MasternodeMan) : Bool :=
  takesUp W E mnb m && checkMessage W E mnb m &&
    (m.find mnb.vin.prevout).any fun mn => mn.sigTime < mnb.sigTime &&
      (updates W E mnb mn ||
        (!mn.isEnabled W E && isInputAssociatedWithPubkey W E mnb && !E.isOurs mnb))

/-- **The broadcast is remembered**: it is taken up, and does not wait for confirmations of
its collateral. -/
def remembers (W : MasternodeCode) (E : MasternodeEnv) (coins : Coins) (mnb : MasternodeBroadcast)
    (m : MasternodeMan) : Bool :=
  takesUp W E mnb m &&
    !(checkMessage W E mnb m && (m.find mnb.vin.prevout).isNone && isInputAssociatedWithPubkey W E mnb &&
        !E.isOurs mnb && !(coins.accessCoin mnb.vin.prevout).isSpent && comesAgain E coins mnb)

theorem checkPing_sigTime (fRequireAvailable : Bool) {p : MasternodePing} {k : OutPoint}
    (hf : m.find k = some mn) :
    ∃ mn', (checkPing W E fRequireAvailable p m).2.find k = some mn' ∧ mn'.sigTime = mn.sigTime := by
  rw [checkPing]
  by_cases htime : (!pingInTime E p) = true
  · rw [if_pos htime]
    exact ⟨mn, hf, rfl⟩
  rw [if_neg htime]
  cases m.find p.vin.prevout with
  | none => exact ⟨mn, hf, rfl⟩
  | some old =>
    dsimp only
    split_ifs
    · exact ⟨mn, hf, rfl⟩
    · exact ⟨mn, hf, rfl⟩
    · exact ⟨mn, hf, rfl⟩
    · exact ⟨mn, hf, rfl⟩
    · exact ⟨mn, hf, rfl⟩
    · have hmod := find_modify m p.vin.prevout k fun mn => { mn with lastPing := p }
      rw [acceptPing]
      show ∃ mn', (m.modify p.vin.prevout fun mn => { mn with lastPing := p }).find k = some mn' ∧ _
      rw [hmod]
      split_ifs with hk
      · rw [← hk, hf]
        exact ⟨_, rfl, rfl⟩
      · exact ⟨mn, hf, rfl⟩

theorem updateFromNewBroadcast_sigTime (hf : m.find mnb.vin.prevout = some mn) :
    ∃ mn', (updateFromNewBroadcast W E mnb m).find mnb.vin.prevout = some mn' ∧ mn'.sigTime = mnb.sigTime := by
  rw [updateFromNewBroadcast]
  have hmod := find_modify m mnb.vin.prevout mnb.vin.prevout fun mn => { mn with
    pubKeyMasternode := mnb.pubKeyMasternode
    pubKeyCollateralAddress := mnb.pubKeyCollateralAddress
    sigTime := mnb.sigTime
    vchSig := mnb.vchSig
    protocolVersion := mnb.protocolVersion
    addr := mnb.addr }
  rw [if_pos rfl, hf, Option.map_some] at hmod
  have hping : ∀ m₁ : MasternodeMan, ∀ mn₁, m₁.find mnb.vin.prevout = some mn₁ → mn₁.sigTime = mnb.sigTime →
      ∃ mn', (m₁.modify mnb.vin.prevout fun mn => { mn with lastPing := mnb.lastPing }).find
        mnb.vin.prevout = some mn' ∧ mn'.sigTime = mnb.sigTime := by
    intro m₁ mn₁ hf1 htime
    have hmod1 := find_modify m₁ mnb.vin.prevout mnb.vin.prevout fun mn => { mn with lastPing := mnb.lastPing }
    rw [if_pos rfl, hf1, Option.map_some] at hmod1
    exact ⟨_, hmod1, htime⟩
  by_cases hnull : mnb.lastPing.isNull = true
  · rw [if_pos hnull, if_pos rfl]
    exact hping _ _ hmod rfl
  · rw [if_neg hnull]
    obtain ⟨mn₁, hf1, htime⟩ := checkPing_sigTime false hmod
    split_ifs
    · exact hping _ _ hf1 htime
    · exact ⟨mn₁, hf1, htime⟩

/-- Adding a broadcast where it is rejected: the list stays, and the broadcast is forgotten
if it may come again. -/
theorem addBroadcast_rejected (h : (addBroadcast W E coins mnb m).accepted = false) :
    (addBroadcast W E coins mnb m).man.mapMasternodes = m.mapMasternodes ∧
      (addBroadcast W E coins mnb m).man.mapSeenMasternodeBroadcast =
        if !(coins.accessCoin mnb.vin.prevout).isSpent && comesAgain E coins mnb then
          m.mapSeenMasternodeBroadcast.erase (W.getHash mnb)
        else m.mapSeenMasternodeBroadcast := by
  rw [addBroadcast] at h ⊢
  by_cases hspent : (coins.accessCoin mnb.vin.prevout).isSpent = true
  · rw [if_pos hspent, hspent]
    exact ⟨rfl, rfl⟩
  · rw [if_neg hspent] at h ⊢
    rw [Bool.not_eq_true] at hspent
    rw [hspent]
    by_cases hagain : comesAgain E coins mnb = true
    · rw [if_pos hagain, hagain]
      exact ⟨rfl, rfl⟩
    · rw [if_neg hagain] at h ⊢
      rw [Bool.not_eq_true] at hagain
      rw [hagain]
      by_cases htime : (E.confirmationTime mnb.vin.prevout.hash).any (fun time => mnb.sigTime < time) = true
      · rw [if_pos htime]
        exact ⟨rfl, rfl⟩
      · rw [if_neg htime] at h
        cases h

theorem checkMessage_ping (h : checkMessage W E mnb m = true) :
    (mnb.lastPing.isNull || !checkPingSigTime W E mnb.lastPing m) = false := by
  simp only [checkMessage, Bool.and_eq_true] at h
  obtain ⟨⟨⟨⟨⟨⟨⟨⟨-, hnull⟩, hping⟩, -⟩, -⟩, -⟩, -⟩, -⟩, -⟩ := h
  rw [hping, Bool.not_true, Bool.or_false]
  exact Bool.not_eq_true' _ ▸ hnull

theorem erase_remember (h : m.mapSeenMasternodeBroadcast.contains (W.getHash mnb) = false) :
    (m.remember W mnb).mapSeenMasternodeBroadcast.erase (W.getHash mnb) = m.mapSeenMasternodeBroadcast := by
  have hnone : m.mapSeenMasternodeBroadcast.find? (W.getHash mnb) = none :=
    Option.isNone_iff_eq_none.mp (Option.isSome_eq_false_iff.mp h)
  refine ext_find? fun k => ?_
  rw [remember, find?_erase, find?_insertNew]
  split_ifs with hk
  · rw [hk, hnone]
  · rfl

theorem checkAndUpdate_cases (W : MasternodeCode) (E : MasternodeEnv) (mnb : MasternodeBroadcast)
    (m : MasternodeMan) :
    (checkMessage W E mnb m = false ∧ checkAndUpdate W E mnb m = (false, m)) ∨
      (checkMessage W E mnb m = true ∧ m.find mnb.vin.prevout = none ∧ checkAndUpdate W E mnb m = (true, m)) ∨
      ∃ mn, checkMessage W E mnb m = true ∧ m.find mnb.vin.prevout = some mn ∧
        ((mnb.sigTime ≤ mn.sigTime ∧ checkAndUpdate W E mnb m = (false, m)) ∨
          (mn.sigTime < mnb.sigTime ∧ updates W E mnb mn = true ∧
            checkAndUpdate W E mnb m = (true, updateFromNewBroadcast W E mnb m)) ∨
          (mn.sigTime < mnb.sigTime ∧ updates W E mnb mn = false ∧ checkAndUpdate W E mnb m = (true, m))) := by
  rw [checkAndUpdate]
  cases hmsg : checkMessage W E mnb m with
  | false => exact .inl ⟨rfl, rfl⟩
  | true =>
    rw [Bool.not_true, if_neg Bool.false_ne_true]
    cases hf : m.find mnb.vin.prevout with
    | none => exact .inr (.inl ⟨rfl, rfl, rfl⟩)
    | some mn =>
      refine .inr (.inr ⟨mn, rfl, rfl, ?_⟩)
      dsimp only
      by_cases hold : mnb.sigTime ≤ mn.sigTime
      · rw [if_pos hold]
        exact .inl ⟨hold, rfl⟩
      · rw [if_neg hold]
        cases hupd : updates W E mnb mn with
        | true => exact .inr (.inl ⟨by omega, rfl, rfl⟩)
        | false => exact .inr (.inr ⟨by omega, rfl, rfl⟩)

/-- How the end of a broadcast is rejected: by its ping, or where there is no entry, or
where the entry was removed first. -/
theorem checkInputsAndAdd_rejected (h : (checkInputsAndAdd W E coins mnb m).accepted = false) :
    E.isOurs mnb = false ∧
      (((mnb.lastPing.isNull || !checkPingSigTime W E mnb.lastPing m) = true ∧
          (checkInputsAndAdd W E coins mnb m).man = m) ∨
        (m.find mnb.vin.prevout = none ∧ (addBroadcast W E coins mnb m).accepted = false ∧
          checkInputsAndAdd W E coins mnb m = addBroadcast W E coins mnb m) ∨
        (∃ mn, m.find mnb.vin.prevout = some mn ∧ mn.isEnabled W E = false ∧
          (checkInputsAndAdd W E coins mnb m).man.find mnb.vin.prevout = none)) := by
  rw [checkInputsAndAdd] at h ⊢
  cases hours : E.isOurs mnb with
  | true =>
    rw [hours, if_pos rfl] at h
    cases h
  | false =>
    rw [hours, if_neg Bool.false_ne_true] at h
    rw [if_neg Bool.false_ne_true]
    refine ⟨rfl, ?_⟩
    by_cases hping : (mnb.lastPing.isNull || !checkPingSigTime W E mnb.lastPing m) = true
    · rw [if_pos hping]
      exact .inl ⟨hping, rfl⟩
    · rw [if_neg hping] at h ⊢
      cases hf : m.find mnb.vin.prevout with
      | none =>
        rw [hf] at h
        exact .inr (.inl ⟨rfl, h, rfl⟩)
      | some mn =>
        rw [hf] at h
        dsimp only at h ⊢
        cases henabled : mn.isEnabled W E with
        | true =>
          rw [henabled, if_pos rfl] at h
          cases h
        | false =>
          rw [henabled, if_neg Bool.false_ne_true] at h
          rw [if_neg Bool.false_ne_true]
          refine .inr (.inr ⟨mn, rfl, henabled, ?_⟩)
          rw [find, (addBroadcast_rejected h).1, remove]
          exact find?_erase_self _ _

/-- A rejected broadcast for a new collateral leaves the list, and is forgotten if it may
come again. -/
theorem checkInputsAndAdd_rejected_new (h : (checkInputsAndAdd W E coins mnb m).accepted = false)
    (hmsg : checkMessage W E mnb m = true) (hf : m.find mnb.vin.prevout = none) :
    E.isOurs mnb = false ∧ (checkInputsAndAdd W E coins mnb m).man.mapMasternodes = m.mapMasternodes ∧
      (checkInputsAndAdd W E coins mnb m).man.mapSeenMasternodeBroadcast =
        if !(coins.accessCoin mnb.vin.prevout).isSpent && comesAgain E coins mnb then
          m.mapSeenMasternodeBroadcast.erase (W.getHash mnb)
        else m.mapSeenMasternodeBroadcast := by
  obtain ⟨hours, ⟨hping, -⟩ | ⟨-, hadd, hsame⟩ | ⟨mn, hsome, -⟩⟩ := checkInputsAndAdd_rejected h
  · rw [checkMessage_ping hmsg] at hping
    cases hping
  · obtain ⟨hkept, hseen⟩ := addBroadcast_rejected hadd
    rw [hsame]
    exact ⟨hours, hkept, hseen⟩
  · rw [hf] at hsome
    cases hsome

/-- A rejected broadcast that has updated an entry leaves another list: the entry has the
broadcast's time, or is gone. -/
theorem checkBroadcast_rejected_updated (h : (checkBroadcast W E coins mnb m).accepted = false)
    (hf : m.find mnb.vin.prevout = some mn) (hlater : mn.sigTime < mnb.sigTime)
    (heq : checkAndUpdate W E mnb m = (true, updateFromNewBroadcast W E mnb m)) :
    (checkBroadcast W E coins mnb m).man.mapMasternodes ≠ m.mapMasternodes := by
  intro hsame
  obtain ⟨mn', hf', htime⟩ := updateFromNewBroadcast_sigTime hf
  have hupdated : (updateFromNewBroadcast W E mnb m).mapMasternodes = m.mapMasternodes → False := by
    intro heq
    rw [find_congr heq, hf] at hf'
    have := congrArg CMasternode.sigTime (Option.some.inj hf')
    omega
  rw [checkBroadcast, heq, Bool.not_true, if_neg Bool.false_ne_true] at h hsame
  split_ifs at h hsame
  · exact hupdated hsame
  · obtain ⟨-, ⟨-, hman⟩ | ⟨hnone, -⟩ | ⟨_, -, -, hgone⟩⟩ := checkInputsAndAdd_rejected h
    · exact hupdated ((congrArg mapMasternodes hman).symm.trans hsame)
    · rw [hf'] at hnone
      cases hnone
    · rw [find_congr hsame, hf] at hgone
      cases hgone

/-- A rejected broadcast for an entry that it has not updated leaves another list if the
entry was not enabled, since it is removed first. -/
theorem checkInputsAndAdd_rejected_old (h : (checkInputsAndAdd W E coins mnb m).accepted = false)
    (hmsg : checkMessage W E mnb m = true) (hf : m.find mnb.vin.prevout = some mn) :
    E.isOurs mnb = false ∧ mn.isEnabled W E = false ∧
      (checkInputsAndAdd W E coins mnb m).man.mapMasternodes ≠ m.mapMasternodes := by
  obtain ⟨hours, ⟨hping, -⟩ | ⟨hnone, -⟩ | ⟨mn', hsome, henabled, hgone⟩⟩ := checkInputsAndAdd_rejected h
  · rw [checkMessage_ping hmsg] at hping
    cases hping
  · rw [hf] at hnone
    cases hnone
  · obtain rfl := Option.some.inj (hf.symm.trans hsome)
    refine ⟨hours, henabled, fun hsame => ?_⟩
    rw [find_congr hsame, hf] at hgone
    cases hgone

/-- **What a rejected broadcast leaves**: if it alters an entry, another list; and else the
same list, where the broadcast is remembered or not. -/
theorem processBroadcast_rejected (h : (processBroadcast W E coins mnb m).accepted = false) :
    (alters W E mnb m = true ∧
        (processBroadcast W E coins mnb m).man.mapMasternodes ≠ m.mapMasternodes) ∨
      (alters W E mnb m = false ∧
        (processBroadcast W E coins mnb m).man.mapMasternodes = m.mapMasternodes ∧
        (processBroadcast W E coins mnb m).man.mapSeenMasternodeBroadcast =
          if remembers W E coins mnb m then (m.remember W mnb).mapSeenMasternodeBroadcast
          else m.mapSeenMasternodeBroadcast) := by
  rw [alters, remembers]
  cases ht : takesUp W E mnb m with
  | false =>
    rw [processBroadcast, ht, if_neg Bool.false_ne_true]
    exact .inr ⟨rfl, rfl, rfl⟩
  | true =>
  have hnew : m.mapSeenMasternodeBroadcast.contains (W.getHash mnb) = false := by
    rw [takesUp, Bool.and_eq_true] at ht
    exact (Bool.not_eq_true' _).mp ht.2
  have hlist : (m.remember W mnb).mapMasternodes = m.mapMasternodes := rfl
  rw [processBroadcast, ht, if_pos rfl] at h ⊢
  rw [Bool.true_and, Bool.true_and, ← checkMessage_congr hlist, ← find_congr hlist]
  rcases checkAndUpdate_cases W E mnb (m.remember W mnb) with ⟨hmsg, heq⟩ | ⟨hmsg, hf, heq⟩ |
      ⟨mn, hmsg, hf, ⟨hold, heq⟩ | ⟨hlater, hupd, heq⟩ | ⟨hlater, hupd, heq⟩⟩ <;> rw [hmsg]
  · -- the message fails its checks
    rw [checkBroadcast, heq]
    exact .inr ⟨rfl, rfl, rfl⟩
  · -- a new collateral
    right
    rw [checkBroadcast, heq, Bool.not_true, if_neg Bool.false_ne_true] at h ⊢
    rw [hf]
    cases hassoc : isInputAssociatedWithPubkey W E mnb with
    | false => exact ⟨rfl, rfl, rfl⟩
    | true =>
      rw [hassoc, Bool.not_true, if_neg Bool.false_ne_true] at h
      rw [Bool.not_true, if_neg Bool.false_ne_true]
      obtain ⟨hours, hkept, hseen⟩ := checkInputsAndAdd_rejected_new h hmsg hf
      rw [hseen, erase_remember hnew, hours]
      refine ⟨rfl, hkept, ?_⟩
      cases (coins.accessCoin mnb.vin.prevout).isSpent <;> cases comesAgain E coins mnb <;> rfl
  · -- the entry is not older
    rw [checkBroadcast, heq, hf, Option.any_some, decide_eq_false (by omega)]
    exact .inr ⟨rfl, rfl, rfl⟩
  · -- the entry is updated
    left
    rw [hf, Option.any_some, decide_eq_true hlater, hupd]
    exact ⟨rfl, checkBroadcast_rejected_updated h hf hlater heq⟩
  · -- the entry is older and not updated
    rw [hf, Option.any_some, decide_eq_true hlater, hupd, Bool.true_and, Bool.false_or, Bool.true_and]
    rw [checkBroadcast, heq, Bool.not_true, if_neg Bool.false_ne_true] at h ⊢
    cases hassoc : isInputAssociatedWithPubkey W E mnb with
    | false =>
      right
      rw [Bool.and_false, Bool.false_and]
      exact ⟨rfl, rfl, rfl⟩
    | true =>
      left
      rw [hassoc, Bool.not_true, if_neg Bool.false_ne_true] at h
      rw [Bool.not_true, if_neg Bool.false_ne_true]
      obtain ⟨hours, henabled, hother⟩ := checkInputsAndAdd_rejected_old h hmsg hf
      rw [hours, henabled]
      exact ⟨rfl, hother⟩

end MasternodeMan

/-! ### The next broadcast -/

/-- **The first broadcast does no harm to the second**: the list is as it was, and the
second has the same answer and leads to the same list. -/
def HarmlessTo (W : MasternodeCode) (E₁ E₂ : MasternodeEnv) (coins₁ coins₂ : Coins)
    (mnb₁ mnb₂ : MasternodeBroadcast) (m : MasternodeMan) : Prop :=
  (m.processBroadcast W E₁ coins₁ mnb₁).man.mapMasternodes = m.mapMasternodes ∧
    MasternodeMan.SameOutcome
      ((m.processBroadcast W E₁ coins₁ mnb₁).man.processBroadcast W E₂ coins₂ mnb₂)
      (m.processBroadcast W E₂ coins₂ mnb₂)

/-- **A rejected broadcast does no harm to a genuine one exactly if it alters no entry, and
is not remembered under the hash of the genuine one.** -/
theorem rejected_broadcast_harmless (W : MasternodeCode) (E₁ E₂ : MasternodeEnv) (coins₁ coins₂ : Coins)
    (mnb₁ mnb₂ : MasternodeBroadcast) (m : MasternodeMan)
    (hrejected : (m.processBroadcast W E₁ coins₁ mnb₁).accepted = false)
    (hgenuine : (m.processBroadcast W E₂ coins₂ mnb₂).accepted = true) :
    HarmlessTo W E₁ E₂ coins₁ coins₂ mnb₁ mnb₂ m ↔
      MasternodeMan.alters W E₁ mnb₁ m = false ∧
        (MasternodeMan.remembers W E₁ coins₁ mnb₁ m = true → W.getHash mnb₁ ≠ W.getHash mnb₂) := by
  have htakes : MasternodeMan.takesUp W E₂ mnb₂ m = true := by
    by_contra hnot
    rw [MasternodeMan.processBroadcast, if_neg hnot] at hgenuine
    cases hgenuine
  rw [HarmlessTo]
  rcases MasternodeMan.processBroadcast_rejected hrejected with ⟨halters, hother⟩ | ⟨hkeeps, hlist, hseen⟩
  · refine ⟨fun h => absurd h.1 hother, fun h => ?_⟩
    rw [halters] at h
    cases h.1
  generalize (m.processBroadcast W E₁ coins₁ mnb₁).man = m' at hlist hseen ⊢
  constructor
  · intro hharmless
    refine ⟨hkeeps, fun hrem hsame => ?_⟩
    -- the node remembers the hash, so it does not take the second one up
    have hnot : MasternodeMan.takesUp W E₂ mnb₂ m' = false := by
      rw [MasternodeMan.takesUp, hseen, if_pos hrem, MasternodeMan.remember, ← hsame]
      dsimp only
      rw [contains_insertNew, decide_eq_true rfl, Bool.true_or, Bool.not_true, Bool.and_false]
    have haccepted := hharmless.2.1
    rw [hgenuine, MasternodeMan.processBroadcast, hnot, if_neg Bool.false_ne_true] at haccepted
    cases haccepted
  · rintro ⟨-, hdistinct⟩
    refine ⟨hlist, ?_⟩
    have htakes' : MasternodeMan.takesUp W E₂ mnb₂ m' = true := by
      rw [MasternodeMan.takesUp] at htakes ⊢
      rw [hseen]
      cases hrem : MasternodeMan.remembers W E₁ coins₁ mnb₁ m with
      | false => exact htakes
      | true =>
        rw [if_pos rfl, MasternodeMan.remember]
        dsimp only
        rw [contains_insertNew, decide_eq_false (Ne.symm (hdistinct hrem)), Bool.false_or]
        exact htakes
    rw [MasternodeMan.processBroadcast, MasternodeMan.processBroadcast, htakes, htakes', if_pos rfl, if_pos rfl]
    have hlist' : (m'.remember W mnb₂).mapMasternodes = (m.remember W mnb₂).mapMasternodes := hlist
    exact MasternodeMan.checkBroadcast_congr hlist' coins₂ mnb₂

/-! ### Examples -/

/-- Badly signed, and not with the time of a genuine one. -/
def badlySigned : MasternodeBroadcast := { broadcastOf 0 [] with sigTime := 4001 }

/-- One that is badly signed, and one that is genuine. -/
theorem rejected_broadcast_harmless_badlySigned :
    HarmlessTo masternodeCode masternodeEnv masternodeEnv collateralCoins collateralCoins badlySigned
      (broadcastOf 0 [1]) MasternodeMan.empty :=
  (rejected_broadcast_harmless masternodeCode masternodeEnv masternodeEnv collateralCoins collateralCoins
    badlySigned (broadcastOf 0 [1]) MasternodeMan.empty (by decide +kernel) (by decide +kernel)).mpr
      ⟨by decide +kernel, fun _ => by decide +kernel⟩

/-- Badly signed, with the time and the key of a genuine one for another output. -/
theorem rejected_broadcast_sameHash :
    ¬ ∀ W E₁ E₂ coins₁ coins₂ mnb₁ mnb₂ m, (MasternodeMan.processBroadcast W E₁ coins₁ mnb₁ m).accepted = false →
      (MasternodeMan.processBroadcast W E₂ coins₂ mnb₂ m).accepted = true →
        HarmlessTo W E₁ E₂ coins₁ coins₂ mnb₁ mnb₂ m := by
  intro hall
  have haccepted := (hall masternodeCode masternodeEnv masternodeEnv collateralCoins collateralCoins
    (broadcastOf 1 []) (broadcastOf 0 [1]) MasternodeMan.empty (by decide +kernel) (by decide +kernel)).2.1
  revert haccepted
  decide +kernel

/-- An entry that is enabled is updated by a broadcast whose transaction the node does not
know. -/
example : MasternodeMan.alters masternodeCode { masternodeEnv with getTransaction := fun _ => none }
    { broadcastOf 0 [1] with sigTime := 4500 }
    (MasternodeMan.empty.add masternodeCode masternodeEnv (broadcastOf 0 [1])).2 = true := by
  decide +kernel

end Rapids.Masternode
