import Rapids.Chain.Coins
import Rapids.Lib.Run

/-!
# Rapids.Chain.CoinsCache

**The layers of the coins cache** (`CCoinsViewCache`, `coins.cpp`) over a store
of coins. An entry of a layer is a coin, which may be spent, with two flags about
the layer below: `dirty` says that the coin may differ from what that layer
answers, `fresh` that it answers with no unspent coin. A lookup copies the answer
of the layer below; a flush merges the dirty entries into it.

What a stack of layers stands for is its **view**, the unspent coin of every
outpoint. Flags are right in a `Coherent` stack, and there every operation does
to the view what it does to a plain map (`step_refines`), as long as coins are
added and spent at a layer above which none holds an entry for the outpoint: a
layer never asks again for what it has cached.
-/

namespace Rapids.Chain

open Rapids.Lib OrdMap

variable {o : OutPoint}

/-! ### Entries and stores -/

/-- `CCoinsCacheEntry` -/
structure CCoinsCacheEntry where
  coin : Coin
  dirty : Bool
  fresh : Bool
  deriving DecidableEq

/-- `CCoinsMap` -/
abbrev CCoinsMap := OrdMap OutPoint CCoinsCacheEntry

/-- The coin, if it is unspent. -/
def Coin.unspent? (c : Coin) : Option Coin := if c.isSpent then none else some c

/-- A base view: it answers lookups, perhaps with a spent coin, and takes the
dirty entries of a cache. -/
structure CoinsStore (β : Type) where
  getCoin : β → OutPoint → Option Coin
  batchWrite : β → CCoinsMap → β
  batchWrite_spec : ∀ b m o,
    (getCoin (batchWrite b m) o).bind Coin.unspent? =
      match m.find? o with
      | some e => if e.dirty then e.coin.unspent? else (getCoin b o).bind Coin.unspent?
      | none => (getCoin b o).bind Coin.unspent?

/-- The coins of a base. -/
def CoinsStore.held {β : Type} (store : CoinsStore β) (b : β) (o : OutPoint) : Option Coin :=
  (store.getCoin b o).bind Coin.unspent?

namespace CCoinsViewCache

/-! ### Operations of a layer -/

section Layers

variable {β : Type} (store : CoinsStore β)

/-- `FetchCoin`, given what the parent answers: the entry, and the layers with it
cached. -/
def fetchCoin (c : CCoinsMap) (below : List CCoinsMap) (parent : Option Coin × List CCoinsMap)
    (o : OutPoint) : Option CCoinsCacheEntry × List CCoinsMap :=
  match c.find? o with
  | some e => (some e, c :: below)
  | none =>
    match parent with
    | (none, below) => (none, c :: below)
    | (some coin, below) =>
      let e : CCoinsCacheEntry := ⟨coin, false, coin.isSpent⟩
      (some e, c.insert o e :: below)

/-- `GetCoin` of the topmost of the layers, or of the base if there are none. -/
def getCoin (b : β) : List CCoinsMap → OutPoint → Option Coin × List CCoinsMap
  | [], o => (store.getCoin b o, [])
  | c :: below, o =>
    let (e, layers) := fetchCoin c below (getCoin b below o) o
    (e.map CCoinsCacheEntry.coin, layers)

/-- `AccessCoin` -/
def accessCoin (b : β) (layers : List CCoinsMap) (o : OutPoint) : Coin × List CCoinsMap :=
  let (c, layers) := getCoin store b layers o
  (c.getD Coin.empty, layers)

/-- `HaveCoin` -/
def haveCoin (b : β) (layers : List CCoinsMap) (o : OutPoint) : Bool × List CCoinsMap :=
  let (c, layers) := getCoin store b layers o
  (c.any fun c => !c.isSpent, layers)

/-- `AddCoin`; an assertion refuses spent coins, and an exception reports a coin
that would be replaced. -/
def addCoin (c : CCoinsMap) (o : OutPoint) (coin : Coin) (possibleOverwrite : Bool) : Option CCoinsMap :=
  if coin.isSpent then none
  else if isUnspendable coin.out.scriptPubKey then some c
  else
    let e := (c.find? o).getD ⟨Coin.empty, false, false⟩
    if possibleOverwrite then some (c.insert o ⟨coin, true, e.fresh⟩)
    else if !e.coin.isSpent then none
    else some (c.insert o ⟨coin, true, e.fresh || !e.dirty⟩)

/-- `SpendCoin`, with the coin moved out. -/
def spendCoin (b : β) (c : CCoinsMap) (below : List CCoinsMap) (o : OutPoint) :
    Option Coin × List CCoinsMap :=
  match fetchCoin c below (getCoin store b below o) o with
  | (some e, c :: below) =>
    (some e.coin, (if e.fresh then c.erase o else c.insert o ⟨Coin.empty, true, false⟩) :: below)
  | (_, layers) => (none, layers)

/-- `Uncache` -/
def uncache (c : CCoinsMap) (o : OutPoint) : CCoinsMap :=
  match c.find? o with
  | some e => if e.dirty || e.fresh then c else c.erase o
  | none => c

/-- `BatchWrite` for one entry of the child. -/
def batchWriteEntry (c : CCoinsMap) (child : OutPoint × CCoinsCacheEntry) : CCoinsMap :=
  let (o, e) := child
  if e.dirty then
    match c.find? o with
    | none => if e.fresh && e.coin.isSpent then c else c.insert o ⟨e.coin, true, e.fresh⟩
    | some us => if us.fresh && e.coin.isSpent then c.erase o else c.insert o ⟨e.coin, true, us.fresh⟩
  else c

/-- `BatchWrite` -/
def batchWrite (c child : CCoinsMap) : CCoinsMap := child.entries.foldl batchWriteEntry c

/-- `Flush` -/
def flush (b : β) (c : CCoinsMap) : List CCoinsMap → β × List CCoinsMap
  | [] => (store.batchWrite b c, [∅])
  | parent :: below => (b, ∅ :: batchWrite parent c :: below)

/-! ### Operations of a stack -/

/-- What may be called on a layer. -/
inductive CacheOp
  | addCoin (o : OutPoint) (coin : Coin) (possibleOverwrite : Bool)
  | spendCoin (o : OutPoint)
  | getCoin (o : OutPoint)
  | accessCoin (o : OutPoint)
  | haveCoin (o : OutPoint)
  | uncache (o : OutPoint)
  | flush
  deriving DecidableEq

/-- A call on the topmost layer. -/
def callTop (b : β) (c : CCoinsMap) (below : List CCoinsMap) : CacheOp → Option (β × List CCoinsMap)
  | .addCoin o coin possibleOverwrite => (addCoin c o coin possibleOverwrite).map fun c => (b, c :: below)
  | .spendCoin o => some (b, (spendCoin store b c below o).2)
  | .getCoin o => some (b, (getCoin store b (c :: below) o).2)
  | .accessCoin o => some (b, (accessCoin store b (c :: below) o).2)
  | .haveCoin o => some (b, (haveCoin store b (c :: below) o).2)
  | .uncache o => some (b, uncache c o :: below)
  | .flush => some (flush store b c below)

/-- A call on the layer with `i` layers above it. -/
def callAt (b : β) : List CCoinsMap → Nat → CacheOp → Option (β × List CCoinsMap)
  | [], _, _ => none
  | c :: below, 0, op => callTop store b c below op
  | c :: below, i + 1, op => (callAt b below i op).map fun (b, below) => (b, c :: below)

/-- Calls on the layers of a stack over a base. -/
def stackStep (s : β × List CCoinsMap) (call : Nat × CacheOp) : Option (β × List CCoinsMap) :=
  callAt store s.1 s.2 call.1 call.2

/-! ### The plain map -/

/-- What a call does to the map of unspent coins. -/
def CacheOp.apply : CacheOp → (OutPoint → Option Coin) → OutPoint → Option Coin
  | .addCoin o coin _, m => if isUnspendable coin.out.scriptPubKey then m else Function.update m o (some coin)
  | .spendCoin o, m => Function.update m o none
  | _, m => m

/-- The calls applied to a map, the first one first. -/
def applyCalls (m : OutPoint → Option Coin) (calls : List (Nat × CacheOp)) : OutPoint → Option Coin :=
  calls.foldl (fun m call => call.2.apply m) m

/-- The unspent coins a stack stands for. -/
def view (b : β) : List CCoinsMap → OutPoint → Option Coin
  | [], o => store.held b o
  | c :: below, o =>
    match c.find? o with
    | some e => e.coin.unspent?
    | none => view b below o

/-! ### Coherent stacks -/

/-- The flags of an entry say the truth about the layer below. -/
def EntryOk (e : CCoinsCacheEntry) (parent : Option Coin) : Prop :=
  (e.fresh = true → parent = none) ∧ (e.dirty = false → e.coin.unspent? = parent)

def Coherent (b : β) : List CCoinsMap → Prop
  | [] => True
  | c :: below => (∀ o e, c.find? o = some e → EntryOk e (view store b below o)) ∧ Coherent b below

end Layers

section
variable {β : Type} {store : CoinsStore β} {b : β} {c : CCoinsMap} {below layers : List CCoinsMap}

variable {e : CCoinsCacheEntry} {s : β × List CCoinsMap}

theorem view_cons_of_find (h : c.find? o = some e) :
    view store b (c :: below) o = e.coin.unspent? := by
  rw [view, h]

theorem view_cons_of_none (h : c.find? o = none) :
    view store b (c :: below) o = view store b below o := by
  rw [view, h]

theorem view_cons_congr {b' : β} {below' : List CCoinsMap}
    (h : view store b' below' o = view store b below o) :
    view store b' (c :: below') o = view store b (c :: below) o := by
  rw [view, view]
  split
  · rfl
  · exact h

theorem view_empty_cons (o : OutPoint) : view store b (∅ :: below) o = view store b below o := rfl

/-- A coherent stack of `n` layers whose view is the map `m`. -/
structure Represents (store : CoinsStore β) (m : OutPoint → Option Coin) (n : Nat) (b : β)
    (layers : List CCoinsMap) : Prop where
  coherent : Coherent store b layers
  view_eq : ∀ o, view store b layers o = m o
  length_eq : layers.length = n

/-! ### Lookups -/

theorem fetchCoin_spec (hc : Coherent store b (c :: below)) {found : Option Coin}
    {below' : List CCoinsMap} (hparent : Represents store (view store b below) below.length b below')
    (hfound : found.bind Coin.unspent? = view store b below o) :
    ∃ r c' rest, fetchCoin c below (found, below') o = (r, c' :: rest) ∧ c'.find? o = r ∧
      Represents store (view store b (c :: below)) (below.length + 1) b (c' :: rest) ∧
      (r.map CCoinsCacheEntry.coin).bind Coin.unspent? = view store b (c :: below) o := by
  unfold fetchCoin
  cases hf : c.find? o with
  | some e =>
    exact ⟨some e, c, below, rfl, hf, ⟨hc, fun _ => rfl, rfl⟩, (view_cons_of_find hf).symm⟩
  | none =>
    have hbelow : view store b (c :: below) o = view store b below o := view_cons_of_none hf
    cases found with
    | none =>
      refine ⟨none, c, below', rfl, hf, ⟨⟨fun o' e he => ?_, hparent.coherent⟩, fun o' => ?_, ?_⟩, ?_⟩
      · rw [hparent.view_eq]
        exact hc.1 o' e he
      · exact view_cons_congr (hparent.view_eq o')
      · simp [hparent.length_eq]
      · rw [hbelow, ← hfound]
        rfl
    | some coin =>
      have hcoin : coin.unspent? = view store b below o := hfound
      refine ⟨some ⟨coin, false, coin.isSpent⟩, _, below', rfl, find?_insert_self .., ?_, ?_⟩
      · refine ⟨⟨fun o' e he => ?_, hparent.coherent⟩, fun o' => ?_, ?_⟩
        · rw [hparent.view_eq]
          by_cases ho : o' = o
          · subst ho
            rw [find?_insert_self] at he
            cases he
            refine ⟨fun hspent => ?_, fun _ => hcoin⟩
            rw [← hcoin, Coin.unspent?, if_pos hspent]
          · rw [find?_insert_ne _ _ ho] at he
            exact hc.1 o' e he
        · by_cases ho : o' = o
          · subst ho
            rw [view_cons_of_find (find?_insert_self ..), hbelow]
            exact hcoin
          · rw [view, find?_insert_ne _ _ ho, view]
            split
            · rfl
            · exact hparent.view_eq o'
        · simp [hparent.length_eq]
      · rw [hbelow]
        exact hcoin

theorem getCoin_spec (hc : Coherent store b layers) :
    (getCoin store b layers o).1.bind Coin.unspent? = view store b layers o ∧
      Represents store (view store b layers) layers.length b (getCoin store b layers o).2 := by
  induction layers with
  | nil => exact ⟨rfl, ⟨hc, fun _ => rfl, rfl⟩⟩
  | cons c below ih =>
    obtain ⟨hfound, hparent⟩ := ih hc.2
    obtain ⟨r, c', rest, hfetch, -, hsame, hanswer⟩ := fetchCoin_spec hc hparent hfound
    rw [getCoin, hfetch]
    exact ⟨hanswer, hsame⟩

/-! ### One call on the topmost layer -/

variable {m : OutPoint → Option Coin} {n : Nat}

theorem represents_insert
    (hs : Represents store m n b (c :: below)) (he : EntryOk e (view store b below o)) :
    Represents store (Function.update m o e.coin.unspent?) n b (c.insert o e :: below) := by
  refine ⟨⟨fun o' e' h => ?_, hs.coherent.2⟩, fun o' => ?_, hs.length_eq⟩
  · by_cases ho : o' = o
    · subst ho
      rw [find?_insert_self] at h
      cases h
      exact he
    · rw [find?_insert_ne _ _ ho] at h
      exact hs.coherent.1 o' e' h
  · by_cases ho : o' = o
    · subst ho
      rw [view_cons_of_find (find?_insert_self ..), Function.update_self]
    · rw [Function.update_of_ne ho, ← hs.view_eq, view, find?_insert_ne _ _ ho, view]

theorem represents_erase (hs : Represents store m n b (c :: below)) :
    Represents store (Function.update m o (view store b below o)) n b (c.erase o :: below) := by
  refine ⟨⟨fun o' e h => ?_, hs.coherent.2⟩, fun o' => ?_, hs.length_eq⟩
  · by_cases ho : o' = o
    · subst ho
      rw [find?_erase_self] at h
      cases h
    · rw [find?_erase_ne _ ho] at h
      exact hs.coherent.1 o' e h
  · by_cases ho : o' = o
    · subst ho
      rw [view_cons_of_none (find?_erase_self ..), Function.update_self]
    · rw [Function.update_of_ne ho, ← hs.view_eq, view, find?_erase_ne _ ho, view]

theorem unspent?_eq_none {coin : Coin} : coin.unspent? = none ↔ coin.isSpent = true := by
  unfold Coin.unspent?
  split
  · simp [*]
  · simp [*]

section
variable (hs : Represents store m n b (c :: below))
include hs

/-- Adding an unspent coin; without `possible_overwrite`, where there is none. -/
theorem addCoin_spec {coin : Coin} {possibleOverwrite : Bool}
    (hcoin : coin.isSpent = false)
    (hfree : possibleOverwrite = true ∨ m o = none) :
    ∃ c', addCoin c o coin possibleOverwrite = some c' ∧
      Represents store ((CacheOp.addCoin o coin possibleOverwrite).apply m) n b (c' :: below) := by
  rw [CacheOp.apply, addCoin, if_neg (by simp [hcoin])]
  by_cases hun : isUnspendable coin.out.scriptPubKey = true
  · rw [if_pos hun, if_pos hun]
    exact ⟨c, rfl, hs⟩
  · rw [if_neg hun, if_neg hun]
    have hnew : ∀ fresh, (fresh = true → view store b below o = none) →
        Represents store (Function.update m o (some coin)) n b (c.insert o ⟨coin, true, fresh⟩ :: below) := by
      intro fresh hfresh
      have hins := represents_insert (e := ⟨coin, true, fresh⟩) hs ⟨hfresh, fun h => nomatch h⟩
      rwa [Coin.unspent?, if_neg (by simp [hcoin])] at hins
    cases possibleOverwrite with
    | true =>
      refine ⟨_, rfl, hnew _ fun hfresh => ?_⟩
      cases hf : c.find? o with
      | none =>
        rw [hf] at hfresh
        cases hfresh
      | some e =>
        rw [hf] at hfresh
        exact (hs.coherent.1 o e hf).1 hfresh
    | false =>
      have hnone : view store b (c :: below) o = none := by
        rw [hs.view_eq]
        exact hfree.resolve_left Bool.false_ne_true
      cases hf : c.find? o with
      | none =>
        refine ⟨_, rfl, hnew _ fun _ => ?_⟩
        rw [← view_cons_of_none hf]
        exact hnone
      | some e =>
        rw [view_cons_of_find hf] at hnone
        have hspent := unspent?_eq_none.mp hnone
        refine ⟨c.insert o ⟨coin, true, e.fresh || !e.dirty⟩, by simp [hspent], hnew _ fun hfresh => ?_⟩
        obtain ⟨hfr, hclean⟩ := hs.coherent.1 o e hf
        rcases Bool.or_eq_true_iff.mp hfresh with h | h
        · exact hfr h
        · rw [← hclean (by simpa using h)]
          exact hnone

theorem spendCoin_spec :
    Represents store (Function.update m o none) n b (spendCoin store b c below o).2 := by
  obtain ⟨hfound, hparent⟩ := getCoin_spec hs.coherent.2
  obtain ⟨r, c', rest, hfetch, hfind, hsame, hanswer⟩ := fetchCoin_spec hs.coherent hparent hfound
  have hs' : Represents store m n b (c' :: rest) :=
    ⟨hsame.coherent, fun o' => (hsame.view_eq o').trans (hs.view_eq o'), hsame.length_eq.trans hs.length_eq⟩
  unfold spendCoin
  rw [hfetch]
  cases r with
  | none =>
    rw [show Function.update m o none = m by
      refine Function.update_eq_self_iff.mpr ?_
      rw [← hs.view_eq, ← hanswer]
      rfl]
    exact hs'
  | some e =>
    dsimp only
    split
    · rename_i hfresh
      have hnone := (hs'.coherent.1 o e hfind).1 hfresh
      rw [← hnone]
      exact represents_erase hs'
    · exact represents_insert (e := ⟨Coin.empty, true, false⟩) hs'
        ⟨fun h => (nomatch h), fun h => (nomatch h)⟩

theorem uncache_spec :
    Represents store m n b (uncache c o :: below) := by
  unfold uncache
  split
  · rename_i e hf
    split
    · exact hs
    · rename_i hflags
      rw [Bool.not_eq_true, Bool.or_eq_false_iff] at hflags
      have hsame : m o = view store b below o := by
        rw [← hs.view_eq, view_cons_of_find hf]
        exact (hs.coherent.1 o e hf).2 hflags.1
      have her := represents_erase (o := o) hs
      rwa [← hsame, Function.update_eq_self] at her
  · exact hs

end

/-! ### Flushing a layer -/

/-- What becomes of the parent's entry. -/
def mergeEntry (us : Option CCoinsCacheEntry) (e : CCoinsCacheEntry) : Option CCoinsCacheEntry :=
  if e.dirty then
    match us with
    | none => if e.fresh && e.coin.isSpent then none else some ⟨e.coin, true, e.fresh⟩
    | some us => if us.fresh && e.coin.isSpent then none else some ⟨e.coin, true, us.fresh⟩
  else us

theorem find?_batchWriteEntry_self (c : CCoinsMap) (child : OutPoint × CCoinsCacheEntry) :
    (batchWriteEntry c child).find? child.1 = mergeEntry (c.find? child.1) child.2 := by
  obtain ⟨o, e⟩ := child
  unfold batchWriteEntry mergeEntry
  dsimp only
  cases e.dirty with
  | false => rfl
  | true =>
    cases hf : c.find? o with
    | none =>
      simp only [if_true]
      split
      · exact hf
      · exact find?_insert_self ..
    | some us =>
      simp only [if_true]
      split
      · exact find?_erase_self ..
      · exact find?_insert_self ..

theorem find?_batchWriteEntry_ne (c : CCoinsMap) (child : OutPoint × CCoinsCacheEntry) (o : OutPoint)
    (ho : o ≠ child.1) : (batchWriteEntry c child).find? o = c.find? o := by
  obtain ⟨o', e⟩ := child
  unfold batchWriteEntry
  dsimp only
  cases e.dirty with
  | false => rfl
  | true =>
    cases c.find? o' with
    | none =>
      simp only [if_true]
      split
      · rfl
      · exact find?_insert_ne _ _ ho
    | some us =>
      simp only [if_true]
      split
      · exact find?_erase_ne _ ho
      · exact find?_insert_ne _ _ ho

theorem find?_batchWrite (c child : CCoinsMap) (o : OutPoint) :
    (batchWrite c child).find? o = (child.find? o).elim (c.find? o) (mergeEntry (c.find? o)) :=
  OrdMap.find?_foldl (g := fun us e => mergeEntry us e.2) find?_batchWriteEntry_self
    find?_batchWriteEntry_ne child.sorted c o

/-- The merged entry says the truth about the layer below the parent, and the
parent answers as the child did. -/
theorem mergeEntry_spec {us : Option CCoinsCacheEntry} {above under : Option Coin}
    (hus : ∀ u, us = some u → EntryOk u under ∧ above = u.coin.unspent?)
    (hnone : us = none → above = under) (he : EntryOk e above) :
    (∀ u, mergeEntry us e = some u → EntryOk u under ∧ e.coin.unspent? = u.coin.unspent?) ∧
      (mergeEntry us e = none → e.coin.unspent? = under) := by
  unfold mergeEntry
  cases hd : e.dirty with
  | false =>
    have hsame := he.2 hd
    simp only [Bool.false_eq_true, if_false]
    exact ⟨fun u hu => ⟨(hus u hu).1, hsame.trans (hus u hu).2⟩, fun hu => hsame.trans (hnone hu)⟩
  | true =>
    simp only [if_true]
    cases us with
    | none =>
      dsimp only
      split
      · -- fresh and spent: neither layer has the coin
        rename_i hflags
        rw [Bool.and_eq_true] at hflags
        refine ⟨fun u hu => (nomatch hu), fun _ => ?_⟩
        rw [unspent?_eq_none.mpr hflags.2, ← hnone rfl, he.1 hflags.1]
      · refine ⟨fun u hu => ?_, fun hu => (nomatch hu)⟩
        cases hu
        exact ⟨⟨fun hfresh => (hnone rfl).symm.trans (he.1 hfresh), fun h => (nomatch h)⟩, rfl⟩
    | some us =>
      obtain ⟨hok, -⟩ := hus us rfl
      dsimp only
      split
      · rename_i hflags
        rw [Bool.and_eq_true] at hflags
        refine ⟨fun u hu => (nomatch hu), fun _ => ?_⟩
        rw [unspent?_eq_none.mpr hflags.2, hok.1 hflags.1]
      · refine ⟨fun u hu => ?_, fun hu => (nomatch hu)⟩
        cases hu
        exact ⟨⟨hok.1, fun h => (nomatch h)⟩, rfl⟩

theorem flush_spec (hs : Represents store m n b (c :: below)) :
    Represents store m n (flush store b c below).1 (flush store b c below).2 := by
  cases below with
  | nil =>
    refine ⟨⟨fun o e h => (nomatch h), trivial⟩, fun o => ?_, hs.length_eq⟩
    rw [flush, view_empty_cons, ← hs.view_eq, view, CoinsStore.held, store.batchWrite_spec, view]
    cases hf : c.find? o with
    | none => rfl
    | some e =>
      dsimp only
      cases hd : e.dirty with
      | false =>
        rw [if_neg Bool.false_ne_true]
        exact ((hs.coherent.1 o e hf).2 hd).symm
      | true => rw [if_pos rfl]
  | cons parent rest =>
    have hmerged : ∀ o, (∀ u, (batchWrite parent c).find? o = some u →
        EntryOk u (view store b rest o) ∧ m o = u.coin.unspent?) ∧
        ((batchWrite parent c).find? o = none → m o = view store b rest o) := by
      intro o
      have hparent : (∀ u, parent.find? o = some u → EntryOk u (view store b rest o) ∧
          view store b (parent :: rest) o = u.coin.unspent?) ∧
          (parent.find? o = none → view store b (parent :: rest) o = view store b rest o) :=
        ⟨fun u hu => ⟨hs.coherent.2.1 o u hu, view_cons_of_find hu⟩, view_cons_of_none⟩
      rw [find?_batchWrite, ← hs.view_eq]
      cases hf : c.find? o with
      | none =>
        rw [view_cons_of_none hf]
        exact hparent
      | some e =>
        rw [view_cons_of_find hf]
        exact mergeEntry_spec hparent.1 hparent.2 (hs.coherent.1 o e hf)
    refine ⟨⟨fun o e h => (nomatch h), fun o u hu => ((hmerged o).1 u hu).1, hs.coherent.2.2⟩,
      fun o => ?_, hs.length_eq⟩
    rw [flush, view_empty_cons, view]
    cases hf : (batchWrite parent c).find? o with
    | none => exact ((hmerged o).2 hf).symm
    | some u => exact ((hmerged o).1 u hf).2.symm

/-! ### One call on any layer -/

/-- The outpoint at which a call changes the map. -/
def CacheOp.target : CacheOp → Option OutPoint
  | .addCoin o _ _ => some o
  | .spendCoin o => some o
  | _ => none

theorem apply_of_ne {op : CacheOp} (h : op.target ≠ some o) : op.apply m o = m o := by
  cases op with
  | addCoin o' coin possibleOverwrite =>
    have ho : o ≠ o' := fun ho => h (by rw [ho]; rfl)
    rw [CacheOp.apply]
    split
    · rfl
    · exact Function.update_of_ne ho _ _
  | spendCoin o' =>
    have ho : o ≠ o' := fun ho => h (by rw [ho]; rfl)
    exact Function.update_of_ne ho _ _
  | _ => rfl

theorem apply_congr {m' : OutPoint → Option Coin} (op : CacheOp) (h : m' o = m o) :
    op.apply m' o = op.apply m o := by
  cases op with
  | addCoin o' coin possibleOverwrite =>
    rw [CacheOp.apply, CacheOp.apply]
    split
    · exact h
    · by_cases ho : o = o'
      · rw [ho, Function.update_self, Function.update_self]
      · rw [Function.update_of_ne ho, Function.update_of_ne ho, h]
  | spendCoin o' =>
    rw [CacheOp.apply, CacheOp.apply]
    by_cases ho : o = o'
    · rw [ho, Function.update_self, Function.update_self]
    · rw [Function.update_of_ne ho, Function.update_of_ne ho, h]
  | _ => exact h

/-- A coin added is unspent, and without `possible_overwrite` none is there. -/
def CacheOp.allowed (m : OutPoint → Option Coin) : CacheOp → Bool
  | .addCoin o coin possibleOverwrite => !coin.isSpent && (possibleOverwrite || (m o).isNone)
  | _ => true

theorem callTop_spec {op : CacheOp} (hs : Represents store m n b (c :: below)) (hok : op.allowed m = true) :
    ∃ b' layers', callTop store b c below op = some (b', layers') ∧
      Represents store (op.apply m) n b' layers' := by
  have hlookup : ∀ o, Represents store m n b (getCoin store b (c :: below) o).2 := by
    intro o
    obtain ⟨-, h⟩ := getCoin_spec hs.coherent
    exact ⟨h.coherent, fun o' => (h.view_eq o').trans (hs.view_eq o'), h.length_eq.trans hs.length_eq⟩
  cases op with
  | addCoin o coin possibleOverwrite =>
    simp only [CacheOp.allowed, Bool.and_eq_true, Bool.not_eq_true', Bool.or_eq_true,
      Option.isNone_iff_eq_none] at hok
    obtain ⟨c', hadd, hs'⟩ := addCoin_spec hs hok.1 hok.2
    exact ⟨b, c' :: below, by rw [callTop, hadd]; rfl, hs'⟩
  | spendCoin o => exact ⟨_, _, rfl, spendCoin_spec hs⟩
  | getCoin o => exact ⟨_, _, rfl, hlookup o⟩
  | accessCoin o => exact ⟨_, _, rfl, hlookup o⟩
  | haveCoin o => exact ⟨_, _, rfl, hlookup o⟩
  | uncache o => exact ⟨_, _, rfl, uncache_spec hs⟩
  | flush => exact ⟨_, _, rfl, flush_spec hs⟩

/-- Is there an entry for the outpoint in one of the `i` layers on top? -/
def covered (layers : List CCoinsMap) (i : Nat) (o : OutPoint) : Bool :=
  (layers.take i).any fun c => c.contains o

theorem callAt_spec (op : CacheOp) (i : Nat) (hs : Represents store m n b layers) (hi : i < n)
    (hok : op.allowed m = true) (htop : ∀ o, op.target = some o → covered layers i o = false) :
    ∃ b' layers', callAt store b layers i op = some (b', layers') ∧
      Represents store (op.apply m) n b' layers' := by
  induction layers generalizing i m n with
  | nil =>
    have := hs.length_eq
    simp only [List.length_nil] at this
    omega
  | cons c below ih =>
    cases i with
    | zero => exact callTop_spec hs hok
    | succ i =>
      have hlen := hs.length_eq
      simp only [List.length_cons] at hlen
      -- the layer `c` above has no entry where the call changes the map
      have hfree : ∀ o, op.target = some o → c.find? o = none := by
        intro o ho
        have hcov := htop o ho
        rw [covered, List.take_succ_cons, List.any_cons, Bool.or_eq_false_iff] at hcov
        simpa [contains] using hcov.1
      have hbelow : Represents store (view store b below) below.length b below :=
        ⟨hs.coherent.2, fun _ => rfl, rfl⟩
      have hok' : op.allowed (view store b below) = true := by
        cases op with
        | addCoin o coin possibleOverwrite =>
          have hsame : view store b below o = m o := by
            rw [← hs.view_eq, view_cons_of_none (hfree o rfl)]
          rw [CacheOp.allowed, hsame]
          exact hok
        | _ => rfl
      have htop' : ∀ o, op.target = some o → covered below i o = false := by
        intro o ho
        have hcov := htop o ho
        rw [covered, List.take_succ_cons, List.any_cons, Bool.or_eq_false_iff] at hcov
        exact hcov.2
      obtain ⟨b', below', hcall, hs'⟩ := ih i hbelow (by omega) hok' htop'
      refine ⟨b', c :: below', by rw [callAt, hcall]; rfl, ⟨fun o e he => ?_, hs'.coherent⟩, fun o => ?_, ?_⟩
      · have hne : op.target ≠ some o := fun ho => by
          rw [hfree o ho] at he
          cases he
        rw [hs'.view_eq, apply_of_ne hne]
        exact hs.coherent.1 o e he
      · cases hf : c.find? o with
        | none =>
          rw [view_cons_of_none hf, hs'.view_eq]
          refine apply_congr op ?_
          rw [← hs.view_eq, view_cons_of_none hf]
        | some e =>
          have hne : op.target ≠ some o := fun ho => by
            rw [hfree o ho] at hf
            cases hf
          rw [view_cons_of_find hf, apply_of_ne hne, ← hs.view_eq, view_cons_of_find hf]
      · rw [List.length_cons, hs'.length_eq]
        exact hlen

/-! ### Runs -/

/-- A call on an existing layer that the map allows and that no layer above
would miss. -/
def permittedCall (store : CoinsStore β) (s : β × List CCoinsMap) (call : Nat × CacheOp) : Bool :=
  decide (call.1 < s.2.length) && call.2.allowed (view store s.1 s.2) &&
    call.2.target.all fun o => !covered s.2 call.1 o

/-- Calls that are permitted, each in the stack the ones before it left. -/
def permitted (store : CoinsStore β) (s : β × List CCoinsMap) : List (Nat × CacheOp) → Bool
  | [] => true
  | call :: rest =>
    permittedCall store s call && (stackStep store s call).all fun s' => permitted store s' rest

theorem step_refines {call : Nat × CacheOp} (hs : Represents store m n s.1 s.2)
    (hok : permittedCall store s call = true) :
    ∃ s', stackStep store s call = some s' ∧ Represents store (call.2.apply m) n s'.1 s'.2 := by
  obtain ⟨i, op⟩ := call
  simp only [permittedCall, Bool.and_eq_true, decide_eq_true_eq] at hok
  obtain ⟨⟨hi, hallowed⟩, hcov⟩ := hok
  have hview : view store s.1 s.2 = m := funext hs.view_eq
  rw [hview] at hallowed
  obtain ⟨b', layers', hcall, hs'⟩ := callAt_spec op i hs (hs.length_eq ▸ hi) hallowed fun o ho => by
    simpa [ho] using hcov
  exact ⟨(b', layers'), hcall, hs'⟩

theorem run_refines {calls : List (Nat × CacheOp)}
    (hs : Represents store m n s.1 s.2) (hok : permitted store s calls = true) :
    ∃ s', run (stackStep store) s calls = some s' ∧ Represents store (applyCalls m calls) n s'.1 s'.2 := by
  induction calls generalizing s m with
  | nil => exact ⟨s, rfl, hs⟩
  | cons call rest ih =>
    rw [permitted, Bool.and_eq_true] at hok
    obtain ⟨s₁, h1, hs1⟩ := step_refines hs hok.1
    rw [h1, Option.all_some] at hok
    obtain ⟨s', h', hs'⟩ := ih hs1 hok.2
    refine ⟨s', ?_, hs'⟩
    rw [run_cons, h1]
    exact h'

theorem represents_replicate (store : CoinsStore β) (b : β) (n : Nat) :
    Represents store (store.held b) n b (List.replicate n ∅) := by
  induction n with
  | zero => exact ⟨trivial, fun _ => rfl, rfl⟩
  | succ n ih => exact ⟨⟨fun o e h => (nomatch h), ih.coherent⟩, ih.view_eq, by simp⟩

/-! ### Flushing all layers -/

/-- Flush every layer, the topmost first. -/
def flushAll (n : Nat) : List (Nat × CacheOp) := (List.range n).map fun i => (i, .flush)

theorem callAt_flush {b' : β} {layers' : List CCoinsMap} {i : Nat}
    (h : callAt store b layers i .flush = some (b', layers')) (hempty : ∀ c ∈ layers.take i, c = ∅) :
    ∀ c ∈ layers'.take (i + 1), c = ∅ := by
  induction layers generalizing i b' layers' with
  | nil => cases h
  | cons c below ih =>
    cases i with
    | zero =>
      rw [callAt, callTop, Option.some.injEq] at h
      cases below with
      | nil =>
        cases h
        simp
      | cons parent rest =>
        cases h
        simp
    | succ i =>
      rw [callAt, Option.map_eq_some_iff] at h
      obtain ⟨⟨b₁, below'⟩, hcall, heq⟩ := h
      cases heq
      rw [List.take_succ_cons] at hempty
      rw [List.take_succ_cons]
      intro c' hc'
      rcases List.mem_cons.mp hc' with rfl | hc'
      · exact hempty c' (.head _)
      · exact ih hcall (fun c'' h'' => hempty c'' (.tail _ h'')) c' hc'

theorem view_of_empty (h : ∀ c ∈ layers, c = ∅) (o : OutPoint) : view store b layers o = store.held b o := by
  induction layers with
  | nil => rfl
  | cons c below ih =>
    rw [h c (List.mem_cons_self ..), view_empty_cons]
    exact ih fun c' hc' => h c' (.tail _ hc')

theorem flushAll_spec {k : Nat} (hs : Represents store m n s.1 s.2) (hk : k ≤ n) :
    ∃ s', run (stackStep store) s (flushAll k) = some s' ∧ Represents store m n s'.1 s'.2 ∧
      ∀ c ∈ s'.2.take k, c = ∅ := by
  induction k with
  | zero => exact ⟨s, rfl, hs, by simp⟩
  | succ k ih =>
    obtain ⟨s₁, h1, hs1, hempty⟩ := ih (by omega)
    obtain ⟨b', layers', hcall, hs'⟩ := callAt_spec .flush k hs1 (by omega) rfl
      fun o ho => (nomatch ho)
    refine ⟨(b', layers'), ?_, hs', callAt_flush hcall hempty⟩
    rw [flushAll, List.range_succ, List.map_append, run_append]
    change (run (stackStep store) s (flushAll k)).bind _ = _
    rw [h1, Option.bind_some, List.map_singleton, run_cons, stackStep, hcall]
    rfl

/-- **The cache refines a plain map.** Layers over any base, and any permitted
calls on them: no call fails; the topmost layer answers with the coins of the map
to which the same additions and deletions were applied, or with spent coins; and
after flushing every layer the base holds that map. -/
theorem cache_refines_map {calls : List (Nat × CacheOp)}
    (hok : permitted store (b, List.replicate (n + 1) ∅) calls = true) :
    ∃ s, run (stackStep store) (b, List.replicate (n + 1) ∅) calls = some s ∧
      (∀ o, (getCoin store s.1 s.2 o).1.bind Coin.unspent? = applyCalls (store.held b) calls o ∧
        (accessCoin store s.1 s.2 o).1.unspent? = applyCalls (store.held b) calls o ∧
        (haveCoin store s.1 s.2 o).1 = (applyCalls (store.held b) calls o).isSome) ∧
      ∃ s', run (stackStep store) s (flushAll (n + 1)) = some s' ∧
        ∀ o, store.held s'.1 o = applyCalls (store.held b) calls o := by
  obtain ⟨s, hrun, hs⟩ := run_refines (represents_replicate store b (n + 1)) hok
  refine ⟨s, hrun, fun o => ?_, ?_⟩
  · have hget := (getCoin_spec (o := o) hs.coherent).1
    rw [hs.view_eq] at hget
    rw [accessCoin, haveCoin, ← hget]
    obtain ⟨found, layers⟩ := getCoin store s.1 s.2 o
    refine ⟨rfl, ?_, ?_⟩
    · cases found with
      | none => rfl
      | some coin => rfl
    · cases found with
      | none => rfl
      | some coin =>
        simp only [Option.any_some, Option.bind_some, Coin.unspent?]
        cases coin.isSpent with
        | true => rfl
        | false => rfl
  · obtain ⟨s', hflush, hs', hempty⟩ := flushAll_spec hs (Nat.le_refl (n + 1))
    refine ⟨s', hflush, fun o => ?_⟩
    rw [← hs'.length_eq, List.take_length] at hempty
    rw [← view_of_empty hempty o, hs'.view_eq]

end

/-! ### The coins database as a base -/

/-- `CCoinsViewDB::BatchWrite` for one entry. -/
def dbWriteEntry (db : Coins) (e : OutPoint × CCoinsCacheEntry) : Coins :=
  if e.2.dirty then (if e.2.coin.isSpent then db.erase e.1 else db.insert e.1 e.2.coin) else db

/-- `CCoinsViewDB` -/
def coinsViewDB : CoinsStore Coins where
  getCoin db o := db.find? o
  batchWrite db m := m.entries.foldl dbWriteEntry db
  batchWrite_spec := by
    intro db m o
    rw [OrdMap.find?_foldl (f := dbWriteEntry)
      (g := fun held e => if e.2.dirty then e.2.coin.unspent? else held) ?_ ?_ m.sorted]
    · change ((m.find? o).elim (db.find? o) fun e => if e.dirty then e.coin.unspent? else db.find? o).bind
        Coin.unspent? = _
      cases m.find? o with
      | none => rfl
      | some e =>
        simp only [Option.elim_some]
        split
        · unfold Coin.unspent?
          split
          · rfl
          · rename_i hspent
            simp [hspent]
        · rfl
    · intro db e
      unfold dbWriteEntry Coin.unspent?
      split
      · split
        · exact OrdMap.find?_erase_self ..
        · exact OrdMap.find?_insert_self ..
      · rfl
    · intro db e k hk
      unfold dbWriteEntry
      split
      · split
        · exact OrdMap.find?_erase_ne _ hk
        · exact OrdMap.find?_insert_ne _ _ hk
      · rfl

/-- A coin of 5 units, and where it is. -/
def fiveCoin : Coin := ⟨⟨5, [0x51]⟩, 1, false, false⟩

def fiveOut : OutPoint := ⟨1, 0⟩

/-- A database with that coin. -/
def fiveBase : Coins := (∅ : Coins).insert fiveOut fiveCoin

/-- Spend the coin at the topmost of two layers, flush it into the second one, and
add another coin. -/
theorem cache_refines_map_five :
    ∃ s, run (stackStep coinsViewDB) (fiveBase, [∅, ∅])
        [(0, .spendCoin fiveOut), (0, .flush), (0, .addCoin ⟨2, 0⟩ fiveCoin false)] = some s ∧
      (haveCoin coinsViewDB s.1 s.2 fiveOut).1 = false ∧ (haveCoin coinsViewDB s.1 s.2 ⟨2, 0⟩).1 = true := by
  obtain ⟨s, hrun, hanswers, -⟩ := @cache_refines_map Coins coinsViewDB fiveBase 1
    [(0, .spendCoin fiveOut), (0, .flush), (0, .addCoin ⟨2, 0⟩ fiveCoin false)] (by decide +kernel)
  refine ⟨s, hrun, ?_, ?_⟩
  · rw [(hanswers fiveOut).2.2]
    decide +kernel
  · rw [(hanswers ⟨2, 0⟩).2.2]
    decide +kernel

/-- Coins added are unspent, and where there is none unless an overwrite is
announced: the preconditions of the calls, whatever the layers. -/
def allowedCalls (m : OutPoint → Option Coin) : List (Nat × CacheOp) → Bool
  | [] => true
  | call :: rest => call.2.allowed m && allowedCalls (call.2.apply m) rest

/-- A coin spent below a layer that has it cached stays there, and a spent coin
that is still cached is found by `GetCoin`. -/
theorem cache_answers_differ :
    (¬ ∀ (b : Coins) (n : Nat) (calls : List (Nat × CacheOp)) (s : Coins × List CCoinsMap),
      allowedCalls (coinsViewDB.held b) calls = true →
      run (stackStep coinsViewDB) (b, List.replicate (n + 1) ∅) calls = some s →
      ∀ o, (haveCoin coinsViewDB s.1 s.2 o).1 = (applyCalls (coinsViewDB.held b) calls o).isSome) ∧
    ¬ ∀ (b : Coins) (n : Nat) (calls : List (Nat × CacheOp)) (s : Coins × List CCoinsMap),
      allowedCalls (coinsViewDB.held b) calls = true → (∀ call ∈ calls, call.1 = 0) →
      run (stackStep coinsViewDB) (b, List.replicate (n + 1) ∅) calls = some s →
      ∀ o, (getCoin coinsViewDB s.1 s.2 o).1.isSome = (applyCalls (coinsViewDB.held b) calls o).isSome := by
  constructor
  · intro h
    have hkept : ∃ s, run (stackStep coinsViewDB) (fiveBase, [∅, ∅])
        [(0, .haveCoin fiveOut), (1, .spendCoin fiveOut)] = some s ∧
        (haveCoin coinsViewDB s.1 s.2 fiveOut).1 = true := ⟨_, rfl, by decide +kernel⟩
    obtain ⟨s, hrun, htrue⟩ := hkept
    rw [h fiveBase 1 _ s (by decide +kernel) hrun fiveOut] at htrue
    revert htrue
    decide +kernel
  · intro h
    have hfound : ∃ s, run (stackStep coinsViewDB) (fiveBase, [∅]) [(0, .spendCoin fiveOut)] = some s ∧
        (getCoin coinsViewDB s.1 s.2 fiveOut).1.isSome = true := ⟨_, rfl, by decide +kernel⟩
    obtain ⟨s, hrun, htrue⟩ := hfound
    rw [h fiveBase 0 _ s (by decide +kernel) (by simp) hrun fiveOut] at htrue
    revert htrue
    decide +kernel

end CCoinsViewCache

end Rapids.Chain
