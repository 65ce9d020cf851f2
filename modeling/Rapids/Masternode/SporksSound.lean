import Mathlib.Data.List.Induction
import Rapids.Masternode.Sporks

/-!
# Rapids.Masternode.SporksSound

**Sporks converge** between nodes to which the same messages came.

Taking over a message if it was signed later is a maximum, one message at a time
(`newest_concat`), so a node that never loses a message holds the newest of those
that came to it, whatever their order and their repetitions. A message is lost where
`UpdateSpork` puts an older one over it, and where a restart does not find it in the
database, to which `UpdateSpork` does not write.
-/

namespace Rapids.Masternode

open Rapids.Lib OrdMap

variable {sporks : List SporkMessage}

/-! ### The newest message -/

variable {m : SporkMessage} {db : OrdMap Int SporkMessage} {s : SporkNode}

theorem isNewer_iff {nSporkID : Int} {best : Option SporkMessage} :
    isNewer nSporkID best m = true ↔
      m.nSporkID = nSporkID ∧ ∀ active ∈ best, active.nTimeSigned < m.nTimeSigned := by
  rw [isNewer, Bool.and_eq_true, decide_eq_true_iff, Option.all_eq_true]
  simp

/-- One more message is the newest if it was signed later than the newest so far. -/
theorem newest_concat (sporks : List SporkMessage) (m : SporkMessage) (nSporkID : Int) :
    newest (sporks ++ [m]) nSporkID =
      if isNewer nSporkID (newest sporks nSporkID) m then some m else newest sporks nSporkID := by
  rw [newest, List.foldl_append]
  rfl

/-- The newest message is one of the spork, and none of the spork was signed later. -/
theorem newest_spec (sporks : List SporkMessage) (nSporkID : Int) :
    (∀ best ∈ newest sporks nSporkID, best ∈ sporks ∧ best.nSporkID = nSporkID) ∧
      ∀ m ∈ sporks, m.nSporkID = nSporkID →
        ∃ best ∈ newest sporks nSporkID, m.nTimeSigned ≤ best.nTimeSigned := by
  induction sporks using List.reverseRecOn with
  | nil =>
    refine ⟨fun best hbest => ?_, fun m hm => absurd hm List.not_mem_nil⟩
    have hbest : none = some best := hbest
    cases hbest
  | append_singleton sporks last ih =>
    obtain ⟨hmem, hmax⟩ := ih
    rw [newest_concat]
    by_cases hnewer : isNewer nSporkID (newest sporks nSporkID) last = true
    · rw [if_pos hnewer]
      rw [isNewer_iff] at hnewer
      refine ⟨fun best hbest => ?_, fun m hm hid => ⟨last, rfl, ?_⟩⟩
      · cases hbest
        exact ⟨by simp, hnewer.1⟩
      · rcases List.mem_append.mp hm with hm | hm
        · obtain ⟨best, hbest, hle⟩ := hmax m hm hid
          exact hle.trans (hnewer.2 best hbest).le
        · rw [List.mem_singleton.mp hm]
    · rw [if_neg hnewer]
      refine ⟨fun best hbest => ⟨List.mem_append_left _ (hmem best hbest).1, (hmem best hbest).2⟩, ?_⟩
      intro m hm hid
      rcases List.mem_append.mp hm with hm | hm
      · exact hmax m hm hid
      · obtain rfl := List.mem_singleton.mp hm
        rw [isNewer_iff] at hnewer
        push Not at hnewer
        exact hnewer hid

/-- Where no two messages of a spork have one time, the newest depends on the messages alone. -/
theorem newest_congr {sporks' : List SporkMessage} (hmem : ∀ m, m ∈ sporks ↔ m ∈ sporks')
    (hdistinct : ∀ m ∈ sporks, ∀ m' ∈ sporks, m.nSporkID = m'.nSporkID → m.nTimeSigned = m'.nTimeSigned → m = m')
    (nSporkID : Int) : newest sporks nSporkID = newest sporks' nSporkID := by
  obtain ⟨hin, hmax⟩ := newest_spec sporks nSporkID
  obtain ⟨hin', hmax'⟩ := newest_spec sporks' nSporkID
  cases hnew : newest sporks nSporkID with
  | none =>
    cases hnew' : newest sporks' nSporkID with
    | none => rfl
    | some m' =>
      obtain ⟨hm', hid'⟩ := hin' m' hnew'
      obtain ⟨best, hbest, -⟩ := hmax m' ((hmem m').mpr hm') hid'
      rw [hnew] at hbest
      cases hbest
  | some m =>
    obtain ⟨hm, hid⟩ := hin m hnew
    obtain ⟨m', hnew', hle⟩ := hmax' m ((hmem m).mp hm) hid
    obtain ⟨hm', hid'⟩ := hin' m' hnew'
    obtain ⟨best, hbest, hle'⟩ := hmax m' ((hmem m').mpr hm') hid'
    rw [hnew] at hbest
    cases hbest
    have hsame := hdistinct m hm m' ((hmem m').mpr hm') (hid.trans hid'.symm) (le_antisymm hle hle')
    rw [hsame]
    exact hnew'.symm

/-! ### The database -/

/-- The database holds messages of known sporks under their ids. -/
def DatabaseKeyed (db : OrdMap Int SporkMessage) : Prop :=
  ∀ nSporkID m, db.find? nSporkID = some m → m.nSporkID = nSporkID ∧ knownSpork nSporkID = true

theorem DatabaseKeyed.insert (h : DatabaseKeyed db)
    (hknown : knownSpork m.nSporkID = true) : DatabaseKeyed (db.insert m.nSporkID m) := by
  intro nSporkID m' hm'
  rw [find?_insert] at hm'
  split_ifs at hm' with hid
  · cases hm'
    exact ⟨hid.symm, hid ▸ hknown⟩
  · exact h nSporkID m' hm'

theorem find?_loadFold (h : DatabaseKeyed db) (defs : List (Int × Int))
    (active : OrdMap Int SporkMessage) (nSporkID : Int) :
    (defs.foldl (loadSpork db) active).find? nSporkID =
      if defs.any fun d => d.1 = nSporkID then (db.find? nSporkID).or (active.find? nSporkID)
      else active.find? nSporkID := by
  induction defs generalizing active with
  | nil => rfl
  | cons d rest ih =>
    rw [List.foldl_cons, ih]
    have hload : (loadSpork db active d).find? nSporkID =
        if d.1 = nSporkID then (db.find? nSporkID).or (active.find? nSporkID) else active.find? nSporkID := by
      unfold loadSpork
      cases hfound : db.find? d.1 with
      | none =>
        by_cases hid : d.1 = nSporkID
        · rw [if_pos hid, ← hid, hfound]
          rfl
        · rw [if_neg hid]
      | some spork =>
        have hkey := (h d.1 spork hfound).1
        by_cases hid : d.1 = nSporkID
        · rw [if_pos hid, ← hid, hfound, ← hkey, find?_insert_self]
          rfl
        · rw [if_neg hid, find?_insert_ne]
          exact fun heq => hid (hkey.symm.trans heq.symm)
    rw [hload, List.any_cons]
    by_cases hid : d.1 = nSporkID
    · cases db.find? nSporkID with
      | none => simp [hid]
      | some m => simp [hid]
    · rw [if_neg hid, decide_eq_false hid, Bool.false_or]

theorem loadSporksFromDB_eq (h : DatabaseKeyed db) : loadSporksFromDB db = db := by
  refine ext_find? fun nSporkID => ?_
  refine (find?_loadFold h sporkDefs ∅ nSporkID).trans ?_
  cases hfound : db.find? nSporkID with
  | none => simp
  | some m =>
    have hknown := (h nSporkID m hfound).2
    rw [knownSpork] at hknown
    rw [hknown]
    rfl

/-! ### Events -/

variable {E : SporkSetup}

/-- A node to which some messages came holds the newest one of each spork. -/
structure HoldsNewest (s : SporkNode) (sporks : List SporkMessage) : Prop where
  inForce : ∀ nSporkID, s.mapSporksActive.find? nSporkID = newest sporks nSporkID
  keyed : DatabaseKeyed s.pSporkDB

theorem holdsNewest_fresh : HoldsNewest SporkNode.fresh [] where
  inForce _ := rfl
  keyed _ _ h := by cases h

theorem HoldsNewest.insert (h : HoldsNewest s sporks)
    (hlater : ∀ active ∈ s.mapSporksActive.find? m.nSporkID, active.nTimeSigned < m.nTimeSigned)
    (nSporkID : Int) :
    (s.mapSporksActive.insert m.nSporkID m).find? nSporkID = newest (sporks ++ [m]) nSporkID := by
  rw [find?_insert, newest_concat]
  by_cases hid : m.nSporkID = nSporkID
  · subst hid
    rw [← h.inForce, if_pos rfl, if_pos (isNewer_iff.mpr ⟨rfl, hlater⟩)]
  · rw [if_neg fun heq => hid heq.symm, if_neg fun hc => hid (isNewer_iff.mp hc).1, h.inForce]

/-- A message is delivered if it passes every check but the one of its time against the message
in force. -/
theorem delivers_receive_eq (now : Int) (m : SporkMessage) :
    delivers E (.receive now m) =
      if (!E.fLiteMode && knownSpork m.nSporkID && decide (m.nTimeSigned ≤ now + 2 * 60 * 60) &&
          decide (m.nMessVersion = messVerHash) && E.checkSignature m) = true then some m
      else none :=
  rfl

/-- What `ProcessSpork` can do: ignore a message that is not delivered, ignore one that is not
newer, or take it over. -/
theorem processSpork_cases (now : Int) (s : SporkNode) (m : SporkMessage) :
    (delivers E (.receive now m) = none ∧ processSpork E now s m = s) ∨
    (delivers E (.receive now m) = some m ∧ processSpork E now s m = s ∧
      ∃ active ∈ s.mapSporksActive.find? m.nSporkID, m.nTimeSigned ≤ active.nTimeSigned) ∨
    (delivers E (.receive now m) = some m ∧ knownSpork m.nSporkID = true ∧
      (∀ active ∈ s.mapSporksActive.find? m.nSporkID, active.nTimeSigned < m.nTimeSigned) ∧
      processSpork E now s m =
        ⟨s.mapSporksActive.insert m.nSporkID m, s.pSporkDB.insert m.nSporkID m⟩) := by
  have hignored := delivers_receive_eq (E := E) now m
  have hprocess : processSpork E now s m = _ := rfl
  conv_rhs at hprocess => unfold processSpork
  by_cases hlite : E.fLiteMode = true
  · rw [if_neg (by simp [hlite])] at hignored
    exact .inl ⟨hignored, hprocess.trans (if_pos hlite)⟩
  rw [if_neg hlite] at hprocess
  by_cases hknown : knownSpork m.nSporkID = true
  swap
  · rw [if_neg (by simp [hknown])] at hignored
    exact .inl ⟨hignored, hprocess.trans (if_pos (by simp [hknown]))⟩
  rw [if_neg (by simp [hknown])] at hprocess
  by_cases htime : now + 2 * 60 * 60 < m.nTimeSigned
  · rw [decide_eq_false (not_le.mpr htime), if_neg (by simp)] at hignored
    exact .inl ⟨hignored, hprocess.trans (if_pos htime)⟩
  rw [if_neg htime] at hprocess
  by_cases hversion : m.nMessVersion = messVerHash
  swap
  · rw [if_neg (by simp [hversion])] at hignored
    exact .inl ⟨hignored, hprocess.trans (if_pos hversion)⟩
  rw [if_neg (not_not.mpr hversion)] at hprocess
  by_cases hsig : E.checkSignature m = true
  swap
  · rw [if_neg (by simp [hsig])] at hignored
    refine .inl ⟨hignored, hprocess.trans ?_⟩
    have hunsigned : (!E.checkSignature m) = true := by simp [hsig]
    rw [if_pos hunsigned, ite_self]
  have hsigned : ¬ (!E.checkSignature m) = true := by simp [hsig]
  rw [if_neg hsigned] at hprocess
  have hdelivered : delivers E (.receive now m) = some m := by
    rw [hignored, Bool.eq_false_iff.mpr hlite, hknown, hsig, decide_eq_true (not_lt.mp htime),
      decide_eq_true hversion]
    rfl
  by_cases hlater : ((s.mapSporksActive.find? m.nSporkID).any fun active =>
      m.nTimeSigned ≤ active.nTimeSigned) = true
  · refine .inr (.inl ⟨hdelivered, hprocess.trans (if_pos hlater), ?_⟩)
    rw [Option.any_eq_true] at hlater
    obtain ⟨active, hactive, hle⟩ := hlater
    exact ⟨active, hactive, of_decide_eq_true hle⟩
  · refine .inr (.inr ⟨hdelivered, hknown, ?_, hprocess.trans (if_neg hlater)⟩)
    intro active hactive
    refine not_le.mp fun hle => hlater ?_
    rw [Option.any_eq_true]
    exact ⟨active, hactive, decide_eq_true hle⟩

/-- **One event** that keeps what is in force. -/
theorem HoldsNewest.step (h : HoldsNewest s sporks)
    {e : SporkEvent} (hkept : sporkKept s e = true) :
    HoldsNewest (sporkStep E s e) (sporks ++ (delivers E e).toList) := by
  cases e with
  | receive now m =>
    show HoldsNewest (processSpork E now s m) _
    rcases processSpork_cases (E := E) now s m with ⟨hnone, hsame⟩ | ⟨hsome, hsame, active, hactive, hle⟩ |
      ⟨hsome, hknown, hlater, htaken⟩
    · rw [hnone, hsame, Option.toList_none, List.append_nil]
      exact h
    · rw [hsome, hsame, Option.toList_some]
      refine ⟨fun nSporkID => ?_, h.keyed⟩
      rw [newest_concat, if_neg, h.inForce]
      intro hc
      obtain ⟨rfl, hnewer⟩ := isNewer_iff.mp hc
      rw [← h.inForce] at hnewer
      exact absurd hle (not_le.mpr (hnewer active hactive))
    · rw [hsome, htaken, Option.toList_some]
      exact ⟨h.insert hlater, h.keyed.insert hknown⟩
  | update now nSporkID nValue =>
    show HoldsNewest (updateSpork E now s nSporkID nValue) _
    rw [sporkKept, Option.all_eq_true] at hkept
    show HoldsNewest _ (sporks ++ (E.sign.map fun sign => newSpork sign nSporkID nValue now).toList)
    unfold updateSpork
    cases E.sign with
    | none =>
      rw [Option.map_none, Option.toList_none, List.append_nil]
      exact h
    | some sign =>
      rw [Option.map_some, Option.toList_some]
      refine ⟨h.insert (m := newSpork sign nSporkID nValue now) fun active hactive => ?_, h.keyed⟩
      exact of_decide_eq_true (hkept active hactive)
  | restart =>
    show HoldsNewest ⟨loadSporksFromDB s.pSporkDB, s.pSporkDB⟩ (sporks ++ [])
    have hsame : s.mapSporksActive = s.pSporkDB := of_decide_eq_true hkept
    rw [List.append_nil, loadSporksFromDB_eq h.keyed]
    exact ⟨fun nSporkID => hsame ▸ h.inForce nSporkID, h.keyed⟩

/-- What came to a node in the course of events. -/
def delivered (E : SporkSetup) (es : List SporkEvent) : List SporkMessage := es.filterMap (delivers E)

/-- A node that carries out events of which each keeps what is in force. -/
def runSporks (E : SporkSetup) (es : List SporkEvent) : Option SporkNode :=
  run (guarded sporkKept fun s e => some (sporkStep E s e)) SporkNode.fresh es

/-- **A run.** -/
theorem holdsNewest_run {es : List SporkEvent} {s' : SporkNode}
    (h : HoldsNewest s sporks) (hrun : run (guarded sporkKept fun s e => some (sporkStep E s e)) s es = some s') :
    HoldsNewest s' (sporks ++ delivered E es) := by
  induction es generalizing s sporks with
  | nil =>
    cases hrun
    rw [delivered, List.filterMap_nil, List.append_nil]
    exact h
  | cons e rest ih =>
    rw [run_cons, Option.bind_eq_some_iff] at hrun
    obtain ⟨s₁, hstep, hrest⟩ := hrun
    rw [guarded_eq_some] at hstep
    obtain ⟨hkept, hstep⟩ := hstep
    cases hstep
    have hlast := ih (h.step hkept) hrest
    have hsplit : (delivers E e).toList ++ delivered E rest = delivered E (e :: rest) := by
      unfold delivered
      cases hdelivers : delivers E e with
      | none => rw [List.filterMap_cons_none hdelivers]; rfl
      | some m => rw [List.filterMap_cons_some hdelivers]; rfl
    rw [List.append_assoc, hsplit] at hlast
    exact hlast

/-- **Sporks converge.** Two nodes, each in its own setup and after events of its own, to
which the same messages came, report the value of the newest message of each spork, or
the default. -/
theorem sporks_converge {E₁ E₂ : SporkSetup} {es₁ es₂ : List SporkEvent} {s₁ s₂ : SporkNode}
    {sporks : List SporkMessage}
    (hdistinct : ∀ m ∈ sporks, ∀ m' ∈ sporks,
      m.nSporkID = m'.nSporkID → m.nTimeSigned = m'.nTimeSigned → m = m')
    (h₁ : runSporks E₁ es₁ = some s₁) (h₂ : runSporks E₂ es₂ = some s₂)
    (hall₁ : ∀ m, m ∈ sporks ↔ m ∈ delivered E₁ es₁) (hall₂ : ∀ m, m ∈ sporks ↔ m ∈ delivered E₂ es₂)
    (nSporkID : Int) :
    getSporkValue s₁ nSporkID = sporkValue (newest sporks nSporkID) nSporkID ∧
      getSporkValue s₂ nSporkID = sporkValue (newest sporks nSporkID) nSporkID := by
  have hholds₁ := holdsNewest_run holdsNewest_fresh h₁
  have hholds₂ := holdsNewest_run holdsNewest_fresh h₂
  rw [List.nil_append] at hholds₁ hholds₂
  refine ⟨?_, ?_⟩
  · rw [getSporkValue, hholds₁.inForce, newest_congr hall₁ hdistinct]
  · rw [getSporkValue, hholds₂.inForce, newest_congr hall₂ hdistinct]

/-! ### The signer and another node -/

/-- A node with the spork key, where a signature is a copy of what is signed. -/
def signerSetup : SporkSetup where
  fLiteMode := false
  checkSignature _ := true
  sign := some fun _ _ _ => []

def peerSetup : SporkSetup := { signerSetup with sign := none }

/-- Spork 10007 is switched on. -/
def enforcement (nValue nTimeSigned : Int) : SporkMessage := ⟨10007, nValue, nTimeSigned, [], messVerHash⟩

/-- The signer issues the spork, the other node receives it twice and restarts. -/
theorem sporks_converge_issued :
    getSporkValue ⟨OrdMap.insert ∅ 10007 (enforcement 0 500), ∅⟩ 10007 = 0 ∧
      getSporkValue ⟨OrdMap.insert ∅ 10007 (enforcement 0 500), OrdMap.insert ∅ 10007 (enforcement 0 500)⟩ 10007 = 0 := by
  have hsigner : runSporks signerSetup [.update 500 10007 0] =
      some ⟨insert ∅ 10007 (enforcement 0 500), ∅⟩ := by
    decide +kernel
  have hpeer : runSporks peerSetup
      [.receive 500 (enforcement 0 500), .receive 501 (enforcement 0 500), .restart] =
      some ⟨insert ∅ 10007 (enforcement 0 500), insert ∅ 10007 (enforcement 0 500)⟩ := by
    decide +kernel
  have hdistinct : ∀ m ∈ [enforcement 0 500], ∀ m' ∈ [enforcement 0 500],
      m.nSporkID = m'.nSporkID → m.nTimeSigned = m'.nTimeSigned → m = m' := by
    intro m hm m' hm' _ _
    rw [List.mem_singleton.mp hm, List.mem_singleton.mp hm']
  have hmem₁ : ∀ m, m ∈ [enforcement 0 500] ↔ m ∈ delivered signerSetup [.update 500 10007 0] := by
    intro m
    exact Iff.rfl
  have hmem₂ : ∀ m, m ∈ [enforcement 0 500] ↔ m ∈ delivered peerSetup
      [.receive 500 (enforcement 0 500), .receive 501 (enforcement 0 500), .restart] := by
    intro m
    show m ∈ [enforcement 0 500] ↔ m ∈ [enforcement 0 500, enforcement 0 500]
    simp
  exact sporks_converge hdistinct hsigner hpeer hmem₁ hmem₂ 10007

/-- The signer restarts behind the update, and the spork is off for it; and an update behind a
message that was signed later leaves the older one in force. -/
theorem signer_diverges :
    (let signer := [SporkEvent.update 500 10007 0, .restart].foldl (sporkStep signerSetup) .fresh
      let peer := [SporkEvent.receive 500 (enforcement 0 500)].foldl (sporkStep peerSetup) .fresh
      getSporkValue signer 10007 = 4070908800 ∧ getSporkValue peer 10007 = 0) ∧
    (let signer := [SporkEvent.receive 500 (enforcement 0 600), .update 500 10007 7].foldl
        (sporkStep signerSetup) .fresh
      let peer := [SporkEvent.receive 500 (enforcement 7 500), .receive 500 (enforcement 0 600)].foldl
        (sporkStep peerSetup) .fresh
      getSporkValue signer 10007 = 7 ∧ getSporkValue peer 10007 = 0) := by
  decide +kernel

end Rapids.Masternode
