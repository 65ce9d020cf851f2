import Mathlib.Data.List.TakeWhile
import Rapids.Token.DexPayments
import Rapids.Token.OwnerShares

/-!
# Rapids.Token.Usernames

**Who a username stands for.** A username is a property with one unit, and
`GetUsernameAddress` is asked for its owner. It walks the tally map, a hash map, and stops
at the first address that has a **record** of the property, whatever the record holds.

A record stays when the unit is gone. So the answer is the owner, in every order of the
walk, as long as no other address has a record, which is to say until the unit is passed on.
The walk is any list with the entries of the map here, as in `Rapids.Token.OwnerShares`.
-/

namespace Rapids.Token

open Rapids.Lib OrdMap

/-! ### Any walk over the tally map -/

/-- The inner loop: is there a record of the property, before a property 0? -/
def traverses (p : PropertyId) (t : CMPTally) : Bool :=
  (t.entries.takeWhile fun e => e.1 != 0).any fun e => e.1 == p

/-- The loop over the addresses. Where no address has a record, the last one is left over. -/
def usernameLoop (p : PropertyId) : List (Address × CMPTally) → Address → Address
  | [], address => address
  | e :: rest, _ => if traverses p e.2 then e.1 else usernameLoop p rest e.1

/-- `GetUsernameAddress`, for a walk over the tally map. -/
def usernameAddress (walk : List (Address × CMPTally)) (s : State) (username : String) : Address :=
  let p := findSPByTicker s username
  if isUsernameValid username && p != 0 then usernameLoop p walk "" else ""

/-- Does the address have a record of the property? -/
def hasRecord (m : TallyMap) (a : Address) (p : PropertyId) : Bool := ((m.find? a).getD ∅).contains p

/-- One unit of the property exists, and `owner` has it, in any of its buckets. -/
def HeldBy (m : TallyMap) (p : PropertyId) (owner : Address) : Prop :=
  ∀ a, holding m a p = if a = owner then 1 else 0

/-- No other address has a record that the loop finds. The loop finds no record of an address
that also has one of property 0; where it finds none at all, there is one address only. -/
structure SoleRecord (m : TallyMap) (p : PropertyId) (owner : Address) : Prop where
  sole : ∀ a, hasRecord m a p = true → hasRecord m a 0 = false → a = owner
  found : hasRecord m owner 0 = false ∨ ∀ a, m.contains a = true → a = owner

section
variable {m : TallyMap} {walk : List (Address × CMPTally)} {p : PropertyId} {owner a b : Address}
  {t : CMPTally}

/-! ### The loop -/

theorem usernameLoop_eq (walk : List (Address × CMPTally)) (a : Address) :
    usernameLoop p walk a = ((walk.find? fun e => traverses p e.2).map Prod.fst).getD
      ((walk.getLast?.map Prod.fst).getD a) := by
  induction walk generalizing a with
  | nil => rfl
  | cons e rest ih =>
    rw [usernameLoop, List.find?_cons]
    cases htraverses : traverses p e.2 with
    | true => rfl
    | false =>
      rw [if_neg (by simp), ih, List.getLast?_cons]
      cases rest.getLast? <;> rfl

theorem getUsernameAddress_eq_walk (s : State) (username : String) :
    getUsernameAddress s username = usernameAddress s.tally.entries s username := by
  unfold getUsernameAddress usernameAddress
  dsimp only
  rw [usernameLoop_eq]
  unfold traverses
  cases s.tally.entries.find? _ <;> rfl

theorem usernameLoop_of_sole (h : ∀ e ∈ walk, traverses p e.2 = true → e.1 = owner)
    (hfound : ∃ e ∈ walk, traverses p e.2 = true) (a : Address) : usernameLoop p walk a = owner := by
  rw [usernameLoop_eq]
  cases hfind : walk.find? fun e => traverses p e.2 with
  | some e => exact h e (List.mem_of_find?_eq_some hfind) (by simpa using List.find?_some hfind)
  | none =>
    obtain ⟨e, he, htraverses⟩ := hfound
    exact absurd htraverses (List.find?_eq_none.mp hfind e he)

theorem usernameLoop_of_none (h : ∀ e ∈ walk, traverses p e.2 = false) (hne : walk ≠ []) (a : Address) :
    usernameLoop p walk a = (walk.getLast hne).1 := by
  have hnone : walk.find? (fun e => traverses p e.2) = none :=
    List.find?_eq_none.mpr fun e he => by simp [h e he]
  rw [usernameLoop_eq, hnone, List.getLast?_eq_getLast_of_ne_nil hne]
  rfl

theorem usernameLoop_forall_iff {l : List (Address × CMPTally)} (howner : ∃ e ∈ l, e.1 = owner) :
    (∀ walk, walk.Perm l → usernameLoop p walk "" = owner) ↔
      (∀ e ∈ l, traverses p e.2 = true → e.1 = owner) ∧
        ((∃ e ∈ l, traverses p e.2 = true) ∨ ∀ e ∈ l, e.1 = owner) := by
  constructor
  · intro h
    refine ⟨fun e he htraverses => ?_, ?_⟩
    · -- a walk may begin with this entry
      obtain ⟨before, after, rfl⟩ := List.append_of_mem he
      have hfirst := h (e :: (before ++ after)) List.perm_middle.symm
      rwa [usernameLoop, if_pos htraverses] at hfirst
    · by_contra hc
      push Not at hc
      obtain ⟨hnone, e, he, hne⟩ := hc
      -- a walk may end with this entry
      obtain ⟨before, after, rfl⟩ := List.append_of_mem he
      have hlast : ((before ++ after) ++ [e]).Perm (before ++ e :: after) :=
        (List.perm_append_singleton e _).trans List.perm_middle.symm
      have hend := h _ hlast
      rw [usernameLoop_of_none (fun e' he' => by simpa using hnone e' (hlast.mem_iff.mp he')) (by simp),
        List.getLast_append_singleton] at hend
      exact hne hend
  · intro h walk hwalk
    obtain ⟨hsole, hfound | hone⟩ := h
    · obtain ⟨e, he, htraverses⟩ := hfound
      exact usernameLoop_of_sole (fun e' he' => hsole e' (hwalk.mem_iff.mp he'))
        ⟨e, hwalk.mem_iff.mpr he, htraverses⟩ ""
    · obtain ⟨e, he, -⟩ := howner
      have hne : walk ≠ [] := List.ne_nil_of_mem (hwalk.mem_iff.mpr he)
      have hall : ∀ e ∈ walk, e.1 = owner := fun e he => hone e (hwalk.mem_iff.mp he)
      rw [usernameLoop_eq]
      cases hfind : walk.find? fun e => traverses p e.2 with
      | some e => exact hall e (List.mem_of_find?_eq_some hfind)
      | none =>
        rw [List.getLast?_eq_getLast_of_ne_nil hne]
        exact hall _ (List.getLast_mem hne)

/-! ### Records -/

theorem traverses_iff (hp : p ≠ 0) : traverses p t = true ↔ t.contains p = true ∧ t.contains 0 = false := by
  have hmem : ∀ q, t.contains q = true ↔ ∃ r, (q, r) ∈ t.entries := fun q => by
    simp [contains, Option.isSome_iff_exists, mem_entries_iff]
  have hsorted := t.sorted
  rw [hmem, ← Bool.not_eq_true, hmem]
  unfold traverses SortedKeys at *
  cases hentries : t.entries with
  | nil => simp
  | cons e rest =>
    rw [hentries] at hsorted
    by_cases hzero : e.1 = 0
    · -- a property 0 comes first
      rw [List.takeWhile_cons_of_neg (by simp [hzero])]
      simp only [List.any_nil, Bool.false_eq_true, false_iff, not_and, not_not]
      intro _
      exact ⟨e.2, by rw [← hzero]; exact .head _⟩
    · have hall : ∀ x ∈ e :: rest, x.1 ≠ 0 := by
        intro x hx
        rcases List.mem_cons.mp hx with rfl | hx
        · exact hzero
        · have hlt : e.1 < x.1 := (List.pairwise_cons.mp hsorted).1 x hx
          exact (Nat.zero_lt_of_lt hlt).ne'
      rw [List.takeWhile_eq_self_iff.mpr fun x hx => by simpa using hall x hx]
      simp only [List.any_eq_true, beq_iff_eq]
      constructor
      · rintro ⟨x, hx, rfl⟩
        refine ⟨⟨x.2, hx⟩, fun hc => ?_⟩
        obtain ⟨r, hr⟩ := hc
        exact hall _ hr rfl
      · rintro ⟨⟨r, hr⟩, -⟩
        exact ⟨_, hr, rfl⟩

theorem hasRecord_of_holding (h : holding m a p ≠ 0) : hasRecord m a p = true := by
  by_contra hc
  refine h ?_
  simp only [hasRecord, contains, Option.not_isSome_iff_eq_none] at hc
  unfold holding CMPTally.owned
  rw [hc]
  rfl

theorem contains_of_hasRecord (h : hasRecord m a p = true) : m.contains a = true := by
  unfold hasRecord at h
  unfold contains
  cases hfind : m.find? a with
  | none =>
    rw [hfind] at h
    cases h
  | some t => rfl

theorem hasRecord_of_mem {e : Address × CMPTally} (he : e ∈ m.entries) (q : PropertyId) :
    hasRecord m e.1 q = e.2.contains q := by
  rw [hasRecord, mem_entries_iff.mp he, Option.getD_some]

theorem exists_entry (h : m.contains a = true) : ∃ e ∈ m.entries, e.1 = a := by
  obtain ⟨t, ht⟩ := Option.isSome_iff_exists.mp h
  exact ⟨(a, t), mem_entries_iff.mpr ht, rfl⟩

theorem usernameLoop_eq_owner_iff (hp : p ≠ 0) (hheld : HeldBy m p owner) :
    (∀ walk, walk.Perm m.entries → usernameLoop p walk "" = owner) ↔ SoleRecord m p owner := by
  have howner : hasRecord m owner p = true := hasRecord_of_holding (by simp [hheld owner])
  rw [usernameLoop_forall_iff (exists_entry (contains_of_hasRecord howner))]
  have hentry : ∀ e ∈ m.entries, (traverses p e.2 = true ↔
      hasRecord m e.1 p = true ∧ hasRecord m e.1 0 = false) := fun e he => by
    rw [hasRecord_of_mem he, hasRecord_of_mem he, traverses_iff hp]
  constructor
  · rintro ⟨hsole, hfound⟩
    refine ⟨fun a hrec hzero => ?_, ?_⟩
    · obtain ⟨e, he, rfl⟩ := exists_entry (contains_of_hasRecord hrec)
      exact hsole e he ((hentry e he).mpr ⟨hrec, hzero⟩)
    · rcases hfound with hfound | hone
      · obtain ⟨e, he, htraverses⟩ := hfound
        left
        rw [← hsole e he htraverses]
        exact ((hentry e he).mp htraverses).2
      · right
        intro a ha
        obtain ⟨e, he, rfl⟩ := exists_entry ha
        exact hone e he
  · intro h
    refine ⟨fun e he htraverses => ?_, ?_⟩
    · obtain ⟨hrec, hzero⟩ := (hentry e he).mp htraverses
      exact h.sole _ hrec hzero
    · rcases h.found with hzero | hone
      · obtain ⟨e, he, rfl⟩ := exists_entry (contains_of_hasRecord howner)
        exact .inl ⟨e, he, (hentry e he).mpr ⟨howner, hzero⟩⟩
      · right
        intro e he
        refine hone e.1 ?_
        unfold contains
        rw [mem_entries_iff.mp he]
        rfl

/-! ### Passing the unit on -/

variable {s s' : State} {l : List Address}

end

/-! ### The lookup -/

/-- **Usernames resolve** to the owner of the unit in every walk, exactly while no one else has
a record of the property. A username that is not registered resolves to nothing. -/
theorem username_resolves_iff {s : State} {username : String} (hvalid : isUsernameValid username = true) :
    (findSPByTicker s username = 0 →
        ∀ walk, walk.Perm s.tally.entries → usernameAddress walk s username = "") ∧
      (findSPByTicker s username ≠ 0 → ∀ owner, HeldBy s.tally (findSPByTicker s username) owner →
        ((∀ walk, walk.Perm s.tally.entries → usernameAddress walk s username = owner) ↔
          SoleRecord s.tally (findSPByTicker s username) owner)) := by
  constructor
  · intro hnone walk _
    unfold usernameAddress
    simp [hnone]
  · intro hp owner hheld
    rw [← usernameLoop_eq_owner_iff hp hheld]
    have hlookup : ∀ walk, usernameAddress walk s username = usernameLoop (findSPByTicker s username) walk "" :=
      fun walk => if_pos (by simp [hvalid, hp])
    simp [hlookup]

/-- Read off the entries. -/
def isHeldBy (m : TallyMap) (p : PropertyId) (owner : Address) : Bool :=
  m.contains owner && m.entries.all fun e => CMPTally.owned e.2 p == if e.1 = owner then 1 else 0

theorem heldBy_of_isHeldBy {m : TallyMap} {p : PropertyId} {owner : Address} (h : isHeldBy m p owner = true) :
    HeldBy m p owner := by
  obtain ⟨hmem, hall⟩ := Bool.and_eq_true_iff.mp h
  intro a
  cases ha : m.find? a with
  | none =>
    have hne : a ≠ owner := by
      intro hc
      rw [contains, ← hc, ha] at hmem
      cases hmem
    rw [if_neg hne, holding, ha]
    rfl
  | some t =>
    have hentry := List.all_eq_true.mp hall _ (mem_entries_iff.mpr ha)
    rw [holding, ha, Option.getD_some]
    exact beq_iff_eq.mp hentry

/-! ### A username that is passed on -/

/-- Alice registers a username. -/
def usernameIssue : CMPTransaction :=
  { dexTx "alice" 50 1 with
    nValue := 1, ecosystem := 1, propType := 1, name := "Alice", ticker := "alice.rpd" }

/-- She sends it to Bob. -/
def usernameSend : CMPTransaction :=
  { dexTx "alice" 0 2 with property := 3, nValue := 1, receiver := "bob" }

def usernameRun : List Event :=
  [.blockBegin 1 1500000000 1, .packet usernameIssue issuanceEnv, .packet usernameSend issuanceEnv]

/-- While she has it, the username resolves to her. -/
theorem username_resolves_registered :
    ∃ n, run freshStep (Node.initial exchangeCfg) (usernameRun.take 2) = some n ∧
      HeldBy n.state.tally (findSPByTicker n.state "alice.rpd") "alice" ∧
      ∀ walk, walk.Perm n.state.tally.entries → usernameAddress walk n.state "alice.rpd" = "alice" := by
  have hrun : ((run freshStep (Node.initial exchangeCfg) (usernameRun.take 2)).map fun n =>
      decide (findSPByTicker n.state "alice.rpd" = 3 ∧ isHeldBy n.state.tally 3 "alice" = true ∧
        n.state.tally.entries.map Prod.fst = ["alice"])) = some true := by decide +kernel
  obtain ⟨n, hn, hvals⟩ := Option.map_eq_some_iff.mp hrun
  obtain ⟨hp, hheld, haddresses⟩ := of_decide_eq_true hvals
  have howner := heldBy_of_isHeldBy hheld
  have hone : ∀ a, n.state.tally.contains a = true → a = "alice" := by
    intro a ha
    obtain ⟨e, he, rfl⟩ := exists_entry ha
    have hmem := List.mem_map_of_mem (f := Prod.fst) he
    rw [haddresses] at hmem
    exact List.mem_singleton.mp hmem
  have hresolves := (@username_resolves_iff n.state "alice.rpd" (by decide +kernel)).2
  rw [hp] at hresolves
  refine ⟨n, hn, hp ▸ howner, (hresolves (by decide) "alice" howner).mpr ⟨fun a hrec _ => ?_, .inr hone⟩⟩
  exact hone a (contains_of_hasRecord hrec)

/-- Bob has it now, and the username still resolves to Alice. -/
theorem username_resolves_former_owner :
    ∃ n, run freshStep (Node.initial exchangeCfg) usernameRun = some n ∧
      isUsernameValid "alice.rpd" = true ∧ findSPByTicker n.state "alice.rpd" = 3 ∧
      HeldBy n.state.tally 3 "bob" ∧ getUsernameAddress n.state "alice.rpd" = "alice" := by
  have hrun : ((run freshStep (Node.initial exchangeCfg) usernameRun).map fun n =>
      decide (findSPByTicker n.state "alice.rpd" = 3 ∧ isHeldBy n.state.tally 3 "bob" = true ∧
        getUsernameAddress n.state "alice.rpd" = "alice")) = some true := by decide +kernel
  obtain ⟨n, hn, hvals⟩ := Option.map_eq_some_iff.mp hrun
  obtain ⟨hp, hheld, hlookup⟩ := of_decide_eq_true hvals
  exact ⟨n, hn, by decide +kernel, hp, heldBy_of_isHeldBy hheld, hlookup⟩

end Rapids.Token
