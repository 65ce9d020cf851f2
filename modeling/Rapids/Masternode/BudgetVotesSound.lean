import Mathlib.Data.List.Induction
import Rapids.Masternode.BudgetVotes

/-!
# Rapids.Masternode.BudgetVotesSound

Which votes a node holds after messages in some order.

A vote is held in the end exactly if it comes **in good order**: its item was there
before it, and no other message with its hash came before it. A vote that comes before
its item is parked, and is either replaced by the next one for that item or taken out of
the parked votes by a loop that then uses an erased entry. A message that only has the
hash of a vote (a copy with a wrong signature) makes the node ignore the vote.

The maps of one kind change only by the messages of that kind, apart from the loop over
parked votes; so the invariants are about **the messages of one kind** (`Reach`), where
the others may run that loop.
-/

namespace Rapids.Masternode

open Rapids.Lib OrdMap Rapids.Chain

variable {now : Int} {hash : Nat}

/-! ### One message of a kind -/

/-- The messages of one kind. -/
inductive SideMessage (V : Type)
  | item (hash : Nat) (c : ItemChecks)
  | vote (v : V)

namespace VoteMaps

variable {V : Type} {K : VoteKind V} {now : Int} {m : VoteMaps V} {v : V}

def sideStep (K : VoteKind V) (now : Int) (m : VoteMaps V) : SideMessage V → VoteMaps V
  | .item hash c =>
    if (m.processItem hash c).1 then (m.processItem hash c).2.checkOrphanVotes K now
    else (m.processItem hash c).2
  | .vote v => m.processVote K now v

/-- The vote is held. -/
def Holds (K : VoteKind V) (m : VoteMaps V) (v : V) : Prop :=
  ∃ mapVotes, m.items.find? (K.itemHash v) = some mapVotes ∧ mapVotes.find? (K.key v) = some v

/-- What trying a vote does: its item is not known, or the vote is refused, or it is
entered. -/
theorem updateItem_cases (K : VoteKind V) (now : Int) (fromPeer : Bool) (v : V) (m : VoteMaps V) :
    (m.items.find? (K.itemHash v) = none ∧ m.updateItem K now fromPeer v =
        (false, if fromPeer && K.synced then
          { m with orphanVotes := m.orphanVotes.insert (K.itemHash v) v } else m)) ∨
      ∃ mapVotes, m.items.find? (K.itemHash v) = some mapVotes ∧
        (m.updateItem K now fromPeer v = (false, m) ∨
          m.updateItem K now fromPeer v = (true, { m with
            items := m.items.insert (K.itemHash v) (mapVotes.insert (K.key v) v) })) := by
  rw [updateItem]
  cases hitem : m.items.find? (K.itemHash v) with
  | none => exact .inl ⟨rfl, rfl⟩
  | some mapVotes =>
    refine .inr ⟨mapVotes, rfl, ?_⟩
    dsimp only
    -- a map that is written back as it was is the same map
    have hsame : m.items.insert (K.itemHash v) mapVotes = m.items := by
      refine ext_find? fun k => ?_
      rw [find?_insert]
      split_ifs with hk
      · rw [hk, hitem]
      · rfl
    rw [addOrUpdateVote]
    split_ifs
    · rw [hsame]
      exact .inl rfl
    · rw [hsame]
      exact .inl rfl
    · exact .inr rfl

/-- A vote of a masternode that has none there is entered, if its time is accepted. -/
theorem updateItem_new {mapVotes : OrdMap Nat V} (fromPeer : Bool)
    (hitem : m.items.find? (K.itemHash v) = some mapVotes) (hnew : mapVotes.find? (K.key v) = none)
    (htime : K.getTime v ≤ now + 60 * 60) :
    m.updateItem K now fromPeer v = (true, { m with
      items := m.items.insert (K.itemHash v) (mapVotes.insert (K.key v) v) }) := by
  rw [updateItem, hitem]
  dsimp only
  rw [addOrUpdateVote, isTooSoon, hnew, Option.any_none, if_neg Bool.false_ne_true, if_neg (by omega)]

/-! ### Parked votes -/

theorem checkOrphan_cases (K : VoteKind V) (now : Int) (m : VoteMaps V) (e : Nat × V) :
    checkOrphan K now m e = m ∨ (checkOrphan K now m e).usedErased = true := by
  rw [checkOrphan]
  rcases updateItem_cases K now false e.2 m with ⟨-, hr⟩ | ⟨mapVotes, -, hr | hr⟩ <;> rw [hr]
  · exact .inl rfl
  · exact .inl rfl
  · exact .inr rfl

theorem checkOrphan_usedErased (hused : m.usedErased = true) (e : Nat × V) :
    (checkOrphan K now m e).usedErased = true := by
  rcases checkOrphan_cases K now m e with heq | hset
  · rw [heq, hused]
  · exact hset

/-- **The loop over parked votes changes nothing, or uses an erased entry.** -/
theorem checkOrphanVotes_cases (K : VoteKind V) (now : Int) (m : VoteMaps V) :
    m.checkOrphanVotes K now = m ∨ (m.checkOrphanVotes K now).usedErased = true := by
  rw [checkOrphanVotes]
  generalize m.orphanVotes.entries = l
  induction l generalizing m with
  | nil => exact .inl rfl
  | cons e rest ih =>
    rw [List.foldl_cons]
    rcases checkOrphan_cases K now m e with heq | hset
    · rw [heq]
      exact ih m
    · right
      exact List.foldlRecOn (motive := fun m : VoteMaps V => m.usedErased = true) rest
        (checkOrphan K now) hset fun m hused e _ => checkOrphan_usedErased hused e

/-- Trying votes makes no item known and no message seen. -/
def SameKnown (m m' : VoteMaps V) : Prop :=
  (∀ hash, m'.items.find? hash ≠ none → m.items.find? hash ≠ none) ∧ m'.seenItems = m.seenItems ∧
    m'.seenVotes = m.seenVotes

theorem updateItem_sameKnown (K : VoteKind V) (now : Int) (fromPeer : Bool) (v : V) (m : VoteMaps V) :
    SameKnown m (m.updateItem K now fromPeer v).2 := by
  rcases updateItem_cases K now fromPeer v m with ⟨-, hr⟩ | ⟨mapVotes, hitem, hr | hr⟩ <;> rw [hr]
  · split_ifs
    · exact ⟨fun hash hne => hne, rfl, rfl⟩
    · exact ⟨fun hash hne => hne, rfl, rfl⟩
  · exact ⟨fun hash hne => hne, rfl, rfl⟩
  · refine ⟨fun hash hne => ?_, rfl, rfl⟩
    rw [find?_insert] at hne
    split_ifs at hne with hk
    · rw [hk, hitem]
      exact Option.some_ne_none _
    · exact hne

theorem checkOrphanVotes_sameKnown (K : VoteKind V) (now : Int) (m : VoteMaps V) :
    SameKnown m (m.checkOrphanVotes K now) := by
  refine List.foldlRecOn (motive := fun m' : VoteMaps V => SameKnown m m') m.orphanVotes.entries
    (checkOrphan K now) ⟨fun hash hne => hne, rfl, rfl⟩ fun m' hsame e _ => ?_
  obtain ⟨hitems, hseenItems, hseenVotes⟩ := hsame
  obtain ⟨hitems', hseenItems', hseenVotes'⟩ := updateItem_sameKnown K now false e.2 m'
  have hboth : SameKnown m (m'.updateItem K now false e.2).2 :=
    ⟨fun hash hne => hitems hash (hitems' hash hne), hseenItems'.trans hseenItems,
      hseenVotes'.trans hseenVotes⟩
  rw [checkOrphan]
  split_ifs
  · exact hboth
  · exact hboth

theorem checkOrphanVotes_empty (hempty : m.orphanVotes = ∅) : m.checkOrphanVotes K now = m := by
  rw [checkOrphanVotes, hempty]
  rfl

/-! ### Items -/

/-- What an item changes: it is seen, and added if there is none with its hash. -/
theorem processItem_cases (hash : Nat) (c : ItemChecks) (m : VoteMaps V) :
    (m.processItem hash c).2 = m ∨
      (m.processItem hash c).2 = { m with seenItems := m.seenItems.insertNew hash () } ∨
      (m.items.find? hash = none ∧ (m.processItem hash c).2 =
        { m with seenItems := m.seenItems.insertNew hash (), items := m.items.insert hash ∅ }) := by
  rw [processItem]
  split_ifs with hseen hcollateral hvalid hadd
  · exact .inl rfl
  · exact .inl rfl
  · exact .inr (.inl rfl)
  · refine .inr (.inr ⟨?_, rfl⟩)
    rw [Bool.and_eq_true, Bool.not_eq_true', contains] at hadd
    exact Option.isNone_iff_eq_none.mp (Option.isSome_eq_false_iff.mp hadd.2)
  · exact .inr (.inl rfl)

/-- An item that passes its checks is known afterwards, if what is seen is known. -/
theorem processItem_known {c : ItemChecks}
    (hc : c.collateralValid = true ∧ c.updateValid = true ∧ c.addValid = true)
    (hseen : m.seenItems.contains hash = true → m.items.find? hash ≠ none) :
    (m.processItem hash c).2.items.find? hash ≠ none := by
  obtain ⟨h1, h2, h3⟩ := hc
  rw [processItem, h1, h2, h3, Bool.true_and]
  by_cases h : m.seenItems.contains hash = true
  · rw [if_pos h]
    exact hseen h
  · rw [if_neg h, if_neg (by decide), if_neg (by decide)]
    by_cases hknown : m.items.contains hash = true
    · rw [hknown, Bool.not_true, if_neg Bool.false_ne_true]
      exact Option.isSome_iff_ne_none.mp hknown
    · rw [Bool.not_eq_true] at hknown
      rw [hknown, Bool.not_false, if_pos rfl]
      rw [find?_insert_self]
      exact Option.some_ne_none _

theorem Holds.processItem {c : ItemChecks} (hv : m.Holds K v) :
    (m.processItem hash c).2.Holds K v := by
  obtain ⟨mapVotes, hitem, hvote⟩ := hv
  rcases processItem_cases hash c m with heq | heq | ⟨hnone, heq⟩ <;> rw [heq]
  · exact ⟨mapVotes, hitem, hvote⟩
  · exact ⟨mapVotes, hitem, hvote⟩
  · refine ⟨mapVotes, ?_, hvote⟩
    rw [find?_insert_ne, hitem]
    intro heq
    rw [heq, hnone] at hitem
    cases hitem

/-! ### Votes -/

theorem processVote_cases (K : VoteKind V) (now : Int) (v : V) (m : VoteMaps V) :
    ((m.seenVotes.contains (K.getHash v) = true ∨ K.isListed v = false) ∧ m.processVote K now v = m) ∨
      (m.seenVotes.contains (K.getHash v) = false ∧ K.isListed v = true ∧
        ((K.checkSignature v = false ∧ m.processVote K now v =
            { m with seenVotes := m.seenVotes.insertNew (K.getHash v) v }) ∨
          (K.checkSignature v = true ∧ m.processVote K now v =
            ({ m with seenVotes := m.seenVotes.insertNew (K.getHash v) v }.updateItem K now true v).2))) := by
  rw [processVote]
  cases hseen : m.seenVotes.contains (K.getHash v) with
  | true => exact .inl ⟨.inl rfl, rfl⟩
  | false =>
    rw [if_neg Bool.false_ne_true]
    cases hlisted : K.isListed v with
    | false => exact .inl ⟨.inr rfl, rfl⟩
    | true =>
      refine .inr ⟨rfl, rfl, ?_⟩
      cases hsig : K.checkSignature v with
      | false => exact .inl ⟨rfl, rfl⟩
      | true => exact .inr ⟨rfl, rfl⟩

end VoteMaps

/-! ### Messages of one kind -/

section
variable {V : Type}

/-- The messages of a kind in a sequence, each with its time; where another message comes,
there is none. -/
abbrev SideMessages (V : Type) := List (Int × Option (SideMessage V))

/-- The item comes. -/
def ItemIn (es : SideMessages V) (hash : Nat) : Prop := ∃ now c, (now, some (.item hash c)) ∈ es

/-- The vote comes. -/
def VoteIn (es : SideMessages V) (v : V) : Prop := ∃ now, (now, some (.vote v)) ∈ es

/-- The vote comes and is signed well. -/
def Genuine (K : VoteKind V) (es : SideMessages V) (v : V) : Prop :=
  VoteIn es v ∧ K.checkSignature v = true

/-- **A vote comes in good order**: its item before it, and before it no vote of a listed
masternode with its hash. -/
def GoodOrder (K : VoteKind V) (es : SideMessages V) (v : V) : Prop :=
  ∃ pre now post, es = pre ++ (now, some (.vote v)) :: post ∧ ItemIn pre (K.itemHash v) ∧
    ∀ w, VoteIn pre w → K.isListed w = true → K.getHash w ≠ K.getHash v

/-- The states that the messages of a kind lead to; another message may run the loop over
the parked votes. -/
inductive Reach (K : VoteKind V) : SideMessages V → VoteMaps V → Prop
  | empty : Reach K [] .empty
  | message {es : SideMessages V} {m : VoteMaps V} (now : Int) (e : SideMessage V) :
      Reach K es m → Reach K (es ++ [(now, some e)]) (m.sideStep K now e)
  | other {es : SideMessages V} {m : VoteMaps V} (now : Int) :
      Reach K es m → Reach K (es ++ [(now, none)]) m
  | orphans {es : SideMessages V} {m : VoteMaps V} (now : Int) :
      Reach K es m → Reach K (es ++ [(now, none)]) (m.checkOrphanVotes K now)

variable {K : VoteKind V} {es post : SideMessages V} {m : VoteMaps V} {v w : V}

theorem ItemIn.append (h : ItemIn es hash) : ItemIn (es ++ post) hash := by
  obtain ⟨now, c, hmem⟩ := h
  exact ⟨now, c, List.mem_append_left post hmem⟩

theorem VoteIn.append (h : VoteIn es v) : VoteIn (es ++ post) v := by
  obtain ⟨now, hmem⟩ := h
  exact ⟨now, List.mem_append_left post hmem⟩

theorem GoodOrder.append (h : GoodOrder K es v) : GoodOrder K (es ++ post) v := by
  obtain ⟨pre, now, rest, rfl, hitem, hfirst⟩ := h
  exact ⟨pre, now, rest ++ post, by rw [List.append_assoc, List.cons_append], hitem, hfirst⟩

theorem GoodOrder.voteIn (h : GoodOrder K es v) : VoteIn es v := by
  obtain ⟨pre, now, rest, rfl, -⟩ := h
  exact ⟨now, List.mem_append_right pre (.head _)⟩

theorem voteIn_concat {e : Option (SideMessage V)} :
    VoteIn (es ++ [(now, e)]) v ↔ VoteIn es v ∨ e = some (.vote v) := by
  simp only [VoteIn, List.mem_append, List.mem_singleton, Prod.mk.injEq]
  constructor
  · rintro ⟨t, hold | ⟨-, rfl⟩⟩
    · exact .inl ⟨t, hold⟩
    · exact .inr rfl
  · rintro (⟨t, hold⟩ | rfl)
    · exact ⟨t, .inl hold⟩
    · exact ⟨now, .inr ⟨rfl, rfl⟩⟩

/-- What the maps say about the messages so far. -/
structure Consistent (K : VoteKind V) (es : SideMessages V) (m : VoteMaps V) : Prop where
  known : ∀ hash, m.items.find? hash ≠ none → ItemIn es hash
  seenItem : ∀ hash, m.seenItems.contains hash = true → ItemIn es hash
  seen : ∀ k, m.seenVotes.contains k = true ↔ ∃ w, VoteIn es w ∧ K.isListed w = true ∧ K.getHash w = k
  held : m.usedErased = false → ∀ hash mapVotes k v, m.items.find? hash = some mapVotes →
    mapVotes.find? k = some v → K.itemHash v = hash ∧ K.key v = k ∧ K.checkSignature v = true ∧
      GoodOrder K es v

section
variable (hc : Consistent K es m)
include hc

theorem Consistent.other (now : Int) : Consistent K (es ++ [(now, none)]) m := by
  refine ⟨fun hash hne => (hc.known hash hne).append, fun hash hs => (hc.seenItem hash hs).append,
    fun k => ?_, fun hused hash mapVotes k v hitem hvote => ?_⟩
  · rw [hc.seen k]
    refine exists_congr fun w => and_congr_left' ?_
    rw [voteIn_concat]
    simp
  · obtain ⟨h1, h2, h3, horder⟩ := hc.held hused hash mapVotes k v hitem hvote
    exact ⟨h1, h2, h3, horder.append⟩

theorem Consistent.orphans (now : Int) :
    Consistent K es (m.checkOrphanVotes K now) := by
  obtain ⟨hitems, hseenItems, hseenVotes⟩ := VoteMaps.checkOrphanVotes_sameKnown K now m
  refine ⟨fun hash hne => hc.known hash (hitems hash hne), fun hash hs => ?_, fun k => ?_, fun hused => ?_⟩
  · rw [hseenItems] at hs
    exact hc.seenItem hash hs
  · rw [hseenVotes]
    exact hc.seen k
  · rcases VoteMaps.checkOrphanVotes_cases K now m with heq | hset
    · rw [heq] at hused ⊢
      exact hc.held hused
    · rw [hused] at hset
      cases hset

theorem Consistent.item (now : Int) (hash : Nat) (c : ItemChecks) :
    Consistent K (es ++ [(now, some (.item hash c))]) (m.sideStep K now (.item hash c)) := by
  suffices hitem : Consistent K (es ++ [(now, some (.item hash c))]) (m.processItem hash c).2 by
    rw [VoteMaps.sideStep]
    split_ifs
    · exact hitem.orphans now
    · exact hitem
  have hin : ItemIn (es ++ [(now, some (.item hash c))]) hash :=
    ⟨now, c, List.mem_append_right es (List.mem_singleton.mpr rfl)⟩
  have hseen : ∀ k, m.seenVotes.contains k = true ↔
      ∃ w, VoteIn (es ++ [(now, some (.item hash c))]) w ∧ K.isListed w = true ∧ K.getHash w = k := by
    intro k
    rw [hc.seen k]
    refine exists_congr fun w => and_congr_left' ?_
    rw [voteIn_concat]
    simp
  have hheld : m.usedErased = false → ∀ hash' mapVotes k v, m.items.find? hash' = some mapVotes →
      mapVotes.find? k = some v → K.itemHash v = hash' ∧ K.key v = k ∧ K.checkSignature v = true ∧
        GoodOrder K (es ++ [(now, some (.item hash c))]) v := by
    intro hused hash' mapVotes k v hitem hvote
    obtain ⟨h1, h2, h3, horder⟩ := hc.held hused hash' mapVotes k v hitem hvote
    exact ⟨h1, h2, h3, horder.append⟩
  have hseenItem : ∀ hash', (m.seenItems.insertNew hash ()).contains hash' = true →
      ItemIn (es ++ [(now, some (.item hash c))]) hash' := by
    intro hash' hs
    rw [contains_insertNew, Bool.or_eq_true, decide_eq_true_eq] at hs
    rcases hs with rfl | hold
    · exact hin
    · exact (hc.seenItem hash' hold).append
  rcases VoteMaps.processItem_cases hash c m with heq | heq | ⟨-, heq⟩ <;> rw [heq]
  · exact ⟨fun hash' hne => (hc.known hash' hne).append, fun hash' hs => (hc.seenItem hash' hs).append,
      hseen, hheld⟩
  · exact ⟨fun hash' hne => (hc.known hash' hne).append, hseenItem, hseen, hheld⟩
  · refine ⟨fun hash' hne => ?_, hseenItem, hseen, fun hused hash' mapVotes k v hitem hvote => ?_⟩
    · rw [find?_insert] at hne
      split_ifs at hne with hh
      · rw [hh]
        exact hin
      · exact (hc.known hash' hne).append
    · rw [find?_insert] at hitem
      split_ifs at hitem with hh
      · rw [← Option.some.inj hitem, find?_empty] at hvote
        cases hvote
      · exact hheld hused hash' mapVotes k v hitem hvote

theorem Consistent.skip (now : Int) {v : V}
    (hwhy : m.seenVotes.contains (K.getHash v) = true ∨ K.isListed v = false) :
    Consistent K (es ++ [(now, some (.vote v))]) m := by
  refine ⟨fun hash hne => (hc.known hash hne).append, fun hash hs => (hc.seenItem hash hs).append,
    fun k => ?_, fun hused hash mapVotes k w hitem hvote => ?_⟩
  · rw [hc.seen k]
    refine ⟨fun ⟨w, hw, hl⟩ => ⟨w, hw.append, hl⟩, fun ⟨w, hw, hl, hk⟩ => ?_⟩
    rcases voteIn_concat.mp hw with hold | hlast
    · exact ⟨w, hold, hl, hk⟩
    · obtain rfl : v = w := by simpa using hlast
      rcases hwhy with hseen | hunlisted
      · rw [← hk]
        exact (hc.seen _).mp hseen
      · rw [hl] at hunlisted
        cases hunlisted
  · obtain ⟨h1, h2, h3, horder⟩ := hc.held hused hash mapVotes k w hitem hvote
    exact ⟨h1, h2, h3, horder.append⟩

theorem Consistent.mark (now : Int) {v : V} (hlisted : K.isListed v = true) :
    Consistent K (es ++ [(now, some (.vote v))])
      { m with seenVotes := m.seenVotes.insertNew (K.getHash v) v } := by
  refine ⟨fun hash hne => (hc.known hash hne).append, fun hash hs => (hc.seenItem hash hs).append,
    fun k => ?_, fun hused hash mapVotes k w hitem hvote => ?_⟩
  · rw [contains_insertNew, Bool.or_eq_true, decide_eq_true_eq, hc.seen k]
    constructor
    · rintro (rfl | ⟨w, hw, hl, hk⟩)
      · exact ⟨v, voteIn_concat.mpr (.inr rfl), hlisted, rfl⟩
      · exact ⟨w, hw.append, hl, hk⟩
    · rintro ⟨w, hw, hl, hk⟩
      rcases voteIn_concat.mp hw with hold | hlast
      · exact .inr ⟨w, hold, hl, hk⟩
      · obtain rfl : v = w := by simpa using hlast
        exact .inl hk.symm
  · obtain ⟨h1, h2, h3, horder⟩ := hc.held hused hash mapVotes k w hitem hvote
    exact ⟨h1, h2, h3, horder.append⟩

theorem Consistent.enter {v : V} {mapVotes : OrdMap Nat V}
    (hitem : m.items.find? (K.itemHash v) = some mapVotes) (hsig : K.checkSignature v = true)
    (horder : GoodOrder K es v) :
    Consistent K es { m with items := m.items.insert (K.itemHash v) (mapVotes.insert (K.key v) v) } := by
  refine ⟨fun hash hne => ?_, hc.seenItem, hc.seen, fun hused hash mapVotes' k w hi hvote => ?_⟩
  · rw [find?_insert] at hne
    split_ifs at hne with hh
    · rw [hh]
      exact hc.known _ (by rw [hitem]; exact Option.some_ne_none _)
    · exact hc.known hash hne
  · rw [find?_insert] at hi
    split_ifs at hi with hh
    · rw [← Option.some.inj hi, find?_insert] at hvote
      split_ifs at hvote with hk
      · cases hvote
        exact ⟨hh.symm, hk.symm, hsig, horder⟩
      · rw [hh]
        exact hc.held hused _ mapVotes k w hitem hvote
    · exact hc.held hused hash mapVotes' k w hi hvote

theorem Consistent.vote (now : Int) (v : V) :
    Consistent K (es ++ [(now, some (.vote v))]) (m.processVote K now v) := by
  rcases VoteMaps.processVote_cases K now v m with ⟨hwhy, heq⟩ | ⟨hnew, hlisted, hrest⟩
  · rw [heq]
    exact hc.skip now hwhy
  have hmarked := hc.mark now hlisted
  rcases hrest with ⟨-, heq⟩ | ⟨hsig, heq⟩ <;> rw [heq]
  · exact hmarked
  rcases VoteMaps.updateItem_cases K now true v
    { m with seenVotes := m.seenVotes.insertNew (K.getHash v) v } with ⟨-, hr⟩ | ⟨mapVotes, hitem, hr | hr⟩ <;>
    rw [hr]
  · split_ifs
    · exact ⟨hmarked.known, hmarked.seenItem, hmarked.seen, hmarked.held⟩
    · exact hmarked
  · exact hmarked
  · -- the vote is entered: nothing with its hash was there before
    refine hmarked.enter hitem hsig ⟨es, now, [], rfl, hc.known _ ?_, fun w hw hl hk => ?_⟩
    · rw [hitem]
      exact Option.some_ne_none _
    · rw [(hc.seen (K.getHash v)).mpr ⟨w, hw, hl, hk⟩] at hnew
      cases hnew

end

theorem Reach.consistent (h : Reach K es m) : Consistent K es m := by
  induction h with
  | empty =>
    refine ⟨fun hash hne => absurd rfl hne, fun hash hs => ?_, fun k => ⟨fun hs => ?_, fun hw => ?_⟩,
      fun _ hash mapVotes k v hitem => ?_⟩
    · cases hs
    · cases hs
    · obtain ⟨w, ⟨now, hw⟩, -⟩ := hw
      cases hw
    · cases hitem
  | message now e _ ih =>
    cases e with
    | item hash c => exact ih.item now hash c
    | vote v => exact ih.vote now v
  | other now _ ih => exact ih.other now
  | orphans now _ ih => exact (ih.other now).orphans now

/-- **What is delivered** of a kind: items that pass their checks; and votes of listed
masternodes whose time is accepted, one for each masternode and item, whose items are
delivered too. Of what is signed badly nothing is said. -/
structure Fair (K : VoteKind V) (es : SideMessages V) : Prop where
  synced : K.synced = true
  valid : ∀ now hash c, (now, some (.item hash c)) ∈ es →
    c.collateralValid = true ∧ c.updateValid = true ∧ c.addValid = true
  listed : ∀ v, Genuine K es v → K.isListed v = true
  inTime : ∀ v, Genuine K es v → ∀ e ∈ es, K.getTime v ≤ e.1 + 60 * 60
  one : ∀ v w, Genuine K es v → Genuine K es w → K.itemHash v = K.itemHash w → K.key v = K.key w → v = w
  delivered : ∀ v, Genuine K es v → ItemIn es (K.itemHash v)

/-- **Each item holds exactly the votes that came for it**, and no erased entry was used. -/
structure Delivered (K : VoteKind V) (es : SideMessages V) (m : VoteMaps V) : Prop where
  defined : m.usedErased = false
  all : ∀ v, Genuine K es v → m.Holds K v
  only : ∀ hash mapVotes k v, m.items.find? hash = some mapVotes → mapVotes.find? k = some v →
    Genuine K es v ∧ K.itemHash v = hash ∧ K.key v = k

/-- What is so while every vote comes in good order. -/
structure Orderly (K : VoteKind V) (es : SideMessages V) (m : VoteMaps V) : Prop where
  unparked : m.orphanVotes = ∅
  defined : m.usedErased = false
  known : ∀ hash, ItemIn es hash → m.items.find? hash ≠ none
  holds : ∀ v, Genuine K es v → m.Holds K v

theorem genuine_concat_none (hv : Genuine K (es ++ [(now, none)]) v) : Genuine K es v := by
  refine ⟨?_, hv.2⟩
  rcases voteIn_concat.mp hv.1 with hold | hlast
  · exact hold
  · cases hlast

theorem itemIn_concat {e : Option (SideMessage V)}
    (h : ItemIn (es ++ [(now, e)]) hash) : ItemIn es hash ∨ ∃ c, e = some (.item hash c) := by
  obtain ⟨t, c, hmem⟩ := h
  rcases List.mem_append.mp hmem with hold | hlast
  · exact .inl ⟨t, c, hold⟩
  · rw [List.mem_singleton, Prod.mk.injEq] at hlast
    exact .inr ⟨c, hlast.2.symm⟩

theorem Orderly.other (ho : Orderly K es m) (now : Int) : Orderly K (es ++ [(now, none)]) m := by
  refine ⟨ho.unparked, ho.defined, fun hash hin => ?_, fun v hv => ho.holds v (genuine_concat_none hv)⟩
  rcases itemIn_concat hin with hold | ⟨c, hlast⟩
  · exact ho.known hash hold
  · cases hlast

theorem Orderly.item (ho : Orderly K es m) (hc : Consistent K es m) {c : ItemChecks}
    (hvalid : c.collateralValid = true ∧ c.updateValid = true ∧ c.addValid = true) :
    Orderly K (es ++ [(now, some (.item hash c))]) (m.sideStep K now (.item hash c)) := by
  suffices hitem : Orderly K (es ++ [(now, some (.item hash c))]) (m.processItem hash c).2 by
    rw [VoteMaps.sideStep]
    split_ifs
    · rw [VoteMaps.checkOrphanVotes_empty hitem.unparked]
      exact hitem
    · exact hitem
  have hframe : (m.processItem hash c).2.orphanVotes = m.orphanVotes ∧
      (m.processItem hash c).2.usedErased = m.usedErased ∧
      ∀ hash', m.items.find? hash' ≠ none → (m.processItem hash c).2.items.find? hash' ≠ none := by
    rcases VoteMaps.processItem_cases hash c m with heq | heq | ⟨-, heq⟩ <;> rw [heq]
    · exact ⟨rfl, rfl, fun _ hne => hne⟩
    · exact ⟨rfl, rfl, fun _ hne => hne⟩
    · refine ⟨rfl, rfl, fun hash' hne => ?_⟩
      rw [find?_insert]
      split_ifs
      · exact Option.some_ne_none _
      · exact hne
  obtain ⟨horphans, hused, hknown⟩ := hframe
  refine ⟨horphans.trans ho.unparked, hused.trans ho.defined, fun hash' hin => ?_, fun v hv => ?_⟩
  · rcases itemIn_concat hin with hold | ⟨c', hlast⟩
    · exact hknown hash' (ho.known hash' hold)
    · obtain ⟨rfl, rfl⟩ : hash = hash' ∧ c = c' := by simpa using hlast
      exact VoteMaps.processItem_known hvalid fun hs => ho.known hash (hc.seenItem hash hs)
  · refine VoteMaps.Holds.processItem (ho.holds v ⟨?_, hv.2⟩)
    rcases voteIn_concat.mp hv.1 with hold | hlast
    · exact hold
    · cases hlast

/-- In a sequence where it comes in good order, a vote that was not seen before comes after
its item. -/
theorem GoodOrder.item_before (hgood : GoodOrder K (es ++ (now, some (.vote v)) :: post) v)
    (hlisted : K.isListed v = true)
    (hfirst : ∀ w, VoteIn es w → K.isListed w = true → K.getHash w ≠ K.getHash v) :
    ItemIn es (K.itemHash v) := by
  obtain ⟨pre, t, rest, heq, hitem, hbefore⟩ := hgood
  rcases List.append_eq_append_iff.mp heq with ⟨l, rfl, hl⟩ | ⟨l, rfl, hl⟩
  · cases l with
    | nil =>
      rw [List.append_nil] at hitem
      exact hitem
    | cons x rest' =>
      -- the vote itself would be before the vote
      rw [List.cons_append] at hl
      obtain ⟨rfl, -⟩ := List.cons.inj hl
      exact absurd rfl (hbefore v ⟨now, List.mem_append_right es (.head _)⟩ hlisted)
  · exact hitem.append

/-- In a sequence where it comes in good order, a vote whose hash was seen was there
before. -/
theorem GoodOrder.seen_before (hgood : GoodOrder K (es ++ (now, some (.vote v)) :: post) v)
    {x : V} (hx : VoteIn es x) (hlisted : K.isListed x = true) (hhash : K.getHash x = K.getHash v) :
    VoteIn es v := by
  obtain ⟨pre, t, rest, hsplit, -, hbefore⟩ := hgood
  rcases List.append_eq_append_iff.mp hsplit with ⟨l, rfl, -⟩ | ⟨l, rfl, hl⟩
  · exact absurd hhash (hbefore x hx.append hlisted)
  · cases l with
    | nil =>
      rw [List.append_nil] at hx
      exact absurd hhash (hbefore x hx hlisted)
    | cons y rest' =>
      rw [List.cons_append] at hl
      obtain ⟨rfl, -⟩ := List.cons.inj hl
      exact ⟨t, List.mem_append_right pre (.head _)⟩

theorem genuine_concat_vote {w : V} (hw : Genuine K (es ++ [(now, some (.vote v))]) w) :
    Genuine K es w ∨ v = w := by
  rcases voteIn_concat.mp hw.1 with hold | hlast
  · exact .inl ⟨hold, hw.2⟩
  · exact .inr (by simpa using hlast)

theorem Orderly.enter (ho : Orderly K es m) (now : Int) {mapVotes : OrdMap Nat V}
    (hmap : m.items.find? (K.itemHash v) = some mapVotes) (hempty : mapVotes.find? (K.key v) = none) :
    Orderly K (es ++ [(now, some (.vote v))])
      { m with items := m.items.insert (K.itemHash v) (mapVotes.insert (K.key v) v) } := by
  refine ⟨ho.unparked, ho.defined, fun hash hin => ?_, fun w hw => ?_⟩
  · rw [find?_insert]
    split_ifs
    · exact Option.some_ne_none _
    · rcases itemIn_concat hin with hold | ⟨c, hlast⟩
      · exact ho.known hash hold
      · cases hlast
  · rw [VoteMaps.Holds]
    rw [find?_insert]
    rcases genuine_concat_vote hw with hold | rfl
    · obtain ⟨mapVotes', hmap', hvote⟩ := ho.holds w hold
      split_ifs with hsame
      · refine ⟨_, rfl, ?_⟩
        rw [hsame, hmap] at hmap'
        cases hmap'
        rw [find?_insert]
        split_ifs with hkey
        · rw [hkey, hempty] at hvote
          cases hvote
        · exact hvote
      · exact ⟨mapVotes', hmap', hvote⟩
    · rw [if_pos rfl]
      exact ⟨_, rfl, find?_insert_self _ _ _⟩

/-- Votes that leave the items leave them in order, if the last one is there or bad. -/
theorem Orderly.keep (ho : Orderly K es m) {m' : VoteMaps V}
    (horphans : m'.orphanVotes = m.orphanVotes) (hused : m'.usedErased = m.usedErased) (hitems : m'.items = m.items)
    (hlast : K.checkSignature v = true → Genuine K es v) :
    Orderly K (es ++ [(now, some (.vote v))]) m' := by
  refine ⟨horphans.trans ho.unparked, hused.trans ho.defined, fun hash hin => ?_, fun w hw => ?_⟩
  · rw [hitems]
    rcases itemIn_concat hin with hold | ⟨c, hlast⟩
    · exact ho.known hash hold
    · cases hlast
  · rw [VoteMaps.Holds, hitems]
    rcases genuine_concat_vote hw with hold | rfl
    · exact ho.holds w hold
    · exact ho.holds v (hlast hw.2)

theorem Orderly.vote (ho : Orderly K es m) (hc : Consistent K es m)
    (hfair : Fair K (es ++ (now, some (.vote v)) :: post))
    (hgood : ∀ w, Genuine K (es ++ (now, some (.vote v)) :: post) w →
      GoodOrder K (es ++ (now, some (.vote v)) :: post) w) :
    Orderly K (es ++ [(now, some (.vote v))]) (m.processVote K now v) := by
  have hself : K.checkSignature v = true → Genuine K (es ++ (now, some (.vote v)) :: post) v :=
    fun hsig => ⟨⟨now, List.mem_append_right es (.head _)⟩, hsig⟩
  rcases VoteMaps.processVote_cases K now v m with ⟨hwhy, heq⟩ | ⟨hnew, hlisted, ⟨hsig, heq⟩ | ⟨hsig, heq⟩⟩ <;>
    rw [heq]
  · refine ho.keep rfl rfl rfl fun hsig => ⟨?_, hsig⟩
    rcases hwhy with hseen | hunlisted
    · obtain ⟨x, hx, hxl, hxh⟩ := (hc.seen _).mp hseen
      exact (hgood v (hself hsig)).seen_before hx hxl hxh
    · rw [hfair.listed v (hself hsig)] at hunlisted
      cases hunlisted
  · refine ho.keep rfl rfl rfl fun hgenuine => ?_
    rw [hgenuine] at hsig
    cases hsig
  · have hfirst : ∀ w, VoteIn es w → K.isListed w = true → K.getHash w ≠ K.getHash v := by
      intro w hw hl hk
      rw [(hc.seen (K.getHash v)).mpr ⟨w, hw, hl, hk⟩] at hnew
      cases hnew
    have hitem := ho.known _ ((hgood v (hself hsig)).item_before hlisted hfirst)
    obtain ⟨mapVotes, hmap⟩ := Option.ne_none_iff_exists'.mp hitem
    have hempty : mapVotes.find? (K.key v) = none := by
      by_contra hne
      obtain ⟨w, hw⟩ := Option.ne_none_iff_exists'.mp hne
      obtain ⟨hi, hk, hs, horder⟩ := hc.held ho.defined _ mapVotes _ w hmap hw
      have hgenuine : Genuine K (es ++ (now, some (.vote v)) :: post) w := ⟨horder.voteIn.append, hs⟩
      obtain rfl := hfair.one w v hgenuine (hself hsig) hi hk
      exact hfirst w horder.voteIn hlisted rfl
    have hupdate := VoteMaps.updateItem_new true
      (m := { m with seenVotes := m.seenVotes.insertNew (K.getHash v) v }) hmap hempty
      (hfair.inTime v (hself hsig) (now, some (.vote v)) (List.mem_append_right es (.head _)))
    rw [hupdate]
    have hseen : Orderly K es { m with seenVotes := m.seenVotes.insertNew (K.getHash v) v } :=
      ⟨ho.unparked, ho.defined, ho.known, ho.holds⟩
    exact hseen.enter now hmap hempty

theorem Reach.orderly (h : Reach K es m) (hfair : Fair K (es ++ post))
    (hgood : ∀ w, Genuine K (es ++ post) w → GoodOrder K (es ++ post) w) : Orderly K es m := by
  induction h generalizing post with
  | empty =>
    refine ⟨rfl, rfl, fun hash hin => ?_, fun v hv => ?_⟩
    · obtain ⟨now, c, hmem⟩ := hin
      cases hmem
    · obtain ⟨⟨now, hmem⟩, -⟩ := hv
      cases hmem
  | message now e h ih =>
    rw [List.append_assoc, List.singleton_append] at hfair hgood
    have ho := ih hfair hgood
    cases e with
    | item hash c =>
      exact ho.item h.consistent (hfair.valid now hash c (List.mem_append_right _ (.head _)))
    | vote v => exact ho.vote h.consistent hfair hgood
  | other now _ ih =>
    rw [List.append_assoc, List.singleton_append] at hfair hgood
    exact (ih hfair hgood).other now
  | orphans now _ ih =>
    rw [List.append_assoc, List.singleton_append] at hfair hgood
    have ho := ih hfair hgood
    rw [VoteMaps.checkOrphanVotes_empty ho.unparked]
    exact ho.other now

/-- **All votes are held exactly if each came in good order.** -/
theorem Reach.delivered_iff (h : Reach K es m) (hfair : Fair K es) :
    Delivered K es m ↔ ∀ v, Genuine K es v → GoodOrder K es v := by
  have hc := h.consistent
  constructor
  · intro hd v hv
    obtain ⟨mapVotes, hmap, hvote⟩ := hd.all v hv
    exact (hc.held hd.defined _ mapVotes _ v hmap hvote).2.2.2
  · intro hgood
    have hfair' : Fair K (es ++ []) := by rwa [List.append_nil]
    have ho : Orderly K es m := h.orderly hfair' (by rwa [List.append_nil])
    refine ⟨ho.defined, ho.holds, fun hash mapVotes k v hmap hvote => ?_⟩
    obtain ⟨hi, hk, hs, horder⟩ := hc.held ho.defined hash mapVotes k v hmap hvote
    exact ⟨⟨horder.voteIn, hs⟩, hi, hk⟩

end

/-! ### The two kinds -/

/-- A message of the proposals' kind. -/
def BudgetMessage.proposalSide : BudgetMessage → Option (SideMessage BudgetVote)
  | .proposal hash c => some (.item hash c)
  | .vote v => some (.vote v)
  | _ => none

/-- A message of the finalized budgets' kind. -/
def BudgetMessage.finalSide : BudgetMessage → Option (SideMessage FinalizedBudgetVote)
  | .finalBudget hash c => some (.item hash c)
  | .finalVote v => some (.vote v)
  | _ => none

def proposalSide (es : List (Int × BudgetMessage)) : SideMessages BudgetVote :=
  es.map fun e => (e.1, e.2.proposalSide)

def finalSide (es : List (Int × BudgetMessage)) : SideMessages FinalizedBudgetVote :=
  es.map fun e => (e.1, e.2.finalSide)

namespace BudgetManager

variable {E : BudgetEnv}

theorem deliver_concat (E : BudgetEnv) (es : List (Int × BudgetMessage)) (e : Int × BudgetMessage) :
    deliver E (es ++ [e]) = (deliver E es).processMessage E e.1 e.2 := by
  rw [deliver, deliver, List.foldl_append, List.foldl_cons, List.foldl_nil]

/-- Each kind sees its own messages and, with the others, loops over parked votes. -/
theorem deliver_reach (hon : (E.fLiteMode || !E.blockchainSynced) = false) (es : List (Int × BudgetMessage)) :
    Reach E.votes (proposalSide es) (deliver E es).proposals ∧
      Reach E.finalVotes (finalSide es) (deliver E es).finalizedBudgets := by
  induction es using List.reverseRecOn with
  | nil => exact ⟨.empty, .empty⟩
  | append_singleton es e ih =>
    obtain ⟨hp, hf⟩ := ih
    obtain ⟨now, msg⟩ := e
    rw [deliver_concat, proposalSide, finalSide, List.map_append, List.map_append]
    rw [processMessage, if_neg (by rw [hon]; exact Bool.false_ne_true)]
    cases msg with
    | proposal hash c =>
      have hstep := hp.message now (.item hash c)
      rw [VoteMaps.sideStep] at hstep
      rw [handle]
      split_ifs with hcheck
      · rw [if_pos hcheck] at hstep
        exact ⟨hstep, hf.orphans now⟩
      · rw [if_neg hcheck] at hstep
        exact ⟨hstep, hf.other now⟩
    | vote v => exact ⟨hp.message now (.vote v), hf.other now⟩
    | finalBudget hash c =>
      have hstep := hf.message now (.item hash c)
      rw [VoteMaps.sideStep] at hstep
      rw [handle]
      split_ifs with hcheck
      · rw [if_pos hcheck] at hstep
        exact ⟨hp.orphans now, hstep⟩
      · rw [if_neg hcheck] at hstep
        exact ⟨hp.other now, hstep⟩
    | finalVote v => exact ⟨hp.other now, hf.message now (.vote v)⟩

end BudgetManager

/-- What is delivered, of both kinds, to a node that takes part. -/
structure FairBudget (E : BudgetEnv) (es : List (Int × BudgetMessage)) : Prop where
  active : (E.fLiteMode || !E.blockchainSynced) = false
  proposals : Fair E.votes (proposalSide es)
  finalizedBudgets : Fair E.finalVotes (finalSide es)

/-- Every proposal and every finalized budget holds exactly the votes that came for it. -/
def BudgetDelivered (E : BudgetEnv) (es : List (Int × BudgetMessage)) : Prop :=
  Delivered E.votes (proposalSide es) (BudgetManager.deliver E es).proposals ∧
    Delivered E.finalVotes (finalSide es) (BudgetManager.deliver E es).finalizedBudgets

/-- **After all messages each item holds exactly its votes, and no erased entry was used,
exactly if every vote came in good order**: after its item, and with no other message of
its hash before it. -/
theorem budget_votes_delivered (E : BudgetEnv) (es : List (Int × BudgetMessage)) (h : FairBudget E es) :
    BudgetDelivered E es ↔
      (∀ v, Genuine E.votes (proposalSide es) v → GoodOrder E.votes (proposalSide es) v) ∧
        ∀ v, Genuine E.finalVotes (finalSide es) v → GoodOrder E.finalVotes (finalSide es) v := by
  obtain ⟨hp, hf⟩ := BudgetManager.deliver_reach h.active es
  exact and_congr (hp.delivered_iff h.proposals) (hf.delivered_iff h.finalizedBudgets)

/-! ### Examples -/

/-- All masternodes are listed; a signature is good if it is one byte. -/
def budgetEnv : BudgetEnv where
  fLiteMode := false
  blockchainSynced := true
  synced := true
  listed := fun _ => true
  checkVote := fun v => v.vchSig.length = 1
  checkFinalVote := fun v => v.vchSig.length = 1
  hashVote := fun vin _ nProposalHash _ _ => 100 * vin.prevout.hash + nProposalHash
  hashFinalVote := fun vin _ nBudgetHash _ => 100 * vin.prevout.hash + nBudgetHash
  hashOutPoint := fun o => o.hash

/-- A vote of a masternode for proposal 7. -/
def voteOf (mn : Nat) (vchSig : List UInt8) : BudgetVote := ⟨⟨⟨mn, 0⟩, []⟩, 0, 7, 1, 50, vchSig⟩

def goodChecks : ItemChecks := ⟨true, true, true⟩

/-- Messages about proposal 7: it, and votes of two masternodes. -/
def aboutSeven (l : List (Option (List UInt8 × Nat))) : List (Int × BudgetMessage) :=
  l.map fun x => (60, x.elim (.proposal 7 goodChecks) fun y => .vote (voteOf y.2 y.1))

/-- Such messages are fair, if the proposal is among them and good signatures are all the
same byte. -/
theorem fair_aboutSeven {l : List (Option (List UInt8 × Nat))} (hitem : none ∈ l)
    (hsig : ∀ x ∈ l, ∀ y, x = some y → y.1.length = 1 → y.1 = [1]) : FairBudget budgetEnv (aboutSeven l) := by
  have hvote : ∀ v, Genuine budgetEnv.votes (proposalSide (aboutSeven l)) v →
      ∃ mn, v = voteOf mn [1] := by
    rintro v ⟨⟨now, hmem⟩, hgood⟩
    simp only [proposalSide, aboutSeven, List.map_map, List.mem_map, Function.comp_apply, Prod.mk.injEq] at hmem
    obtain ⟨x, hx, -, heq⟩ := hmem
    cases x with
    | none => cases heq
    | some y =>
      simp only [Option.elim_some, BudgetMessage.proposalSide, Option.some.injEq, SideMessage.vote.injEq] at heq
      subst heq
      refine ⟨y.2, ?_⟩
      rw [hsig _ hx y rfl (of_decide_eq_true hgood)]
  have hnone : ∀ e ∈ finalSide (aboutSeven l), e.2 = none := by
    intro e he
    simp only [finalSide, aboutSeven, List.map_map, List.mem_map, Function.comp_apply] at he
    obtain ⟨x, -, rfl⟩ := he
    cases x with
    | none => rfl
    | some y => rfl
  have hno : ∀ v, ¬Genuine budgetEnv.finalVotes (finalSide (aboutSeven l)) v := by
    rintro v ⟨⟨now, hmem⟩, -⟩
    cases hnone _ hmem
  refine ⟨rfl, ⟨rfl, fun now hash c hmem => ?_, fun v _ => rfl, fun v hv e he => ?_,
    fun v w hv hw _ hk => ?_, fun v hv => ?_⟩, ⟨rfl, fun now hash c hmem => ?_,
    fun v hv => absurd hv (hno v), fun v hv => absurd hv (hno v), fun v w hv => absurd hv (hno v),
    fun v hv => absurd hv (hno v)⟩⟩
  · simp only [proposalSide, aboutSeven, List.map_map, List.mem_map, Function.comp_apply, Prod.mk.injEq] at hmem
    obtain ⟨x, -, -, heq⟩ := hmem
    cases x with
    | none =>
      simp only [Option.elim_none, BudgetMessage.proposalSide, Option.some.injEq,
        SideMessage.item.injEq] at heq
      rw [← heq.2]
      exact ⟨rfl, rfl, rfl⟩
    | some y => cases heq
  · simp only [proposalSide, aboutSeven, List.map_map, List.mem_map, Function.comp_apply] at he
    obtain ⟨x, -, rfl⟩ := he
    obtain ⟨mn, rfl⟩ := hvote v hv
    show (50 : Int) ≤ 60 + 60 * 60
    decide
  · obtain ⟨mn, rfl⟩ := hvote v hv
    obtain ⟨mn', rfl⟩ := hvote w hw
    exact congrArg (voteOf · [1]) hk
  · obtain ⟨mn, rfl⟩ := hvote v hv
    refine ⟨60, goodChecks, ?_⟩
    simp only [proposalSide, aboutSeven, List.map_map, List.mem_map]
    exact ⟨none, hitem, rfl⟩
  · cases hnone _ hmem

/-- The proposal, the votes of two masternodes, and a bad copy of one after it. -/
theorem budget_votes_delivered_afterItem :
    BudgetDelivered budgetEnv (aboutSeven [none, some ([1], 1), some ([], 1), some ([1], 2)]) := by
  refine (budget_votes_delivered budgetEnv _ (fair_aboutSeven (.head _) ?_)).mpr ⟨fun v hv => ?_,
    fun v hv => ?_⟩
  · decide
  · have hmem : v = voteOf 1 [1] ∨ v = voteOf 2 [1] := by
      obtain ⟨⟨now, hmem⟩, hgood⟩ := hv
      simp only [proposalSide, aboutSeven, List.map_cons, List.map_nil, Option.elim_none, Option.elim_some,
        BudgetMessage.proposalSide, List.mem_cons, List.not_mem_nil, or_false, Prod.mk.injEq,
        Option.some.injEq, SideMessage.vote.injEq, reduceCtorEq, and_false, false_or] at hmem
      rcases hmem with ⟨-, rfl⟩ | ⟨-, rfl⟩ | ⟨-, rfl⟩
      · exact .inl rfl
      · cases hgood
      · exact .inr rfl
    rcases hmem with rfl | rfl
    · refine ⟨[(60, some (.item 7 goodChecks))], 60, _, rfl, ⟨60, goodChecks, .head _⟩, ?_⟩
      rintro w ⟨now, hw⟩
      cases List.mem_singleton.mp hw
    · refine ⟨[(60, some (.item 7 goodChecks)), (60, some (.vote (voteOf 1 [1]))),
        (60, some (.vote (voteOf 1 [])))], 60, _, rfl, ⟨60, goodChecks, .head _⟩, ?_⟩
      rintro w ⟨now, hw⟩
      simp only [List.mem_cons, List.not_mem_nil, or_false, Prod.mk.injEq, Option.some.injEq,
        SideMessage.vote.injEq, reduceCtorEq, and_false, false_or] at hw
      rcases hw with ⟨-, rfl⟩ | ⟨-, rfl⟩
      · decide
      · decide
  · obtain ⟨⟨now, hmem⟩, -⟩ := hv
    simp [finalSide, aboutSeven, BudgetMessage.finalSide] at hmem

/-- Two votes come before their proposal: one is lost, and the loop over the parked votes
uses the entry it has erased. -/
theorem budget_votes_lost :
    ¬ ∀ E es, FairBudget E es → BudgetDelivered E es := by
  intro hall
  have hd := hall budgetEnv (aboutSeven [some ([1], 1), some ([1], 2), none]) 
    (fair_aboutSeven (by simp) (by decide))
  obtain ⟨mapVotes, hmap, hvote⟩ := hd.1.all (voteOf 1 [1]) ⟨⟨60, .head _⟩, rfl⟩
  have hlost : ((BudgetManager.deliver budgetEnv (aboutSeven [some ([1], 1), some ([1], 2),
      none])).proposals.items.find? 7).bind (fun votes => votes.find? 1) = none := by
    decide +kernel
  rw [show budgetEnv.votes.itemHash (voteOf 1 [1]) = 7 from rfl] at hmap
  rw [hmap, Option.bind_some] at hlost
  rw [show budgetEnv.votes.key (voteOf 1 [1]) = 1 from rfl, hlost] at hvote
  cases hvote

/-- The erased entry; and a bad copy that comes first keeps a vote out. -/
example :
    (BudgetManager.deliver budgetEnv (aboutSeven [some ([1], 1), none])).proposals.usedErased = true ∧
      ((BudgetManager.deliver budgetEnv (aboutSeven [none, some ([], 1),
        some ([1], 1)])).proposals.items.find? 7).bind (fun votes => votes.find? 1) = none := by
  decide +kernel

end Rapids.Masternode
