import Mathlib.Algebra.BigOperators.Group.List.Basic
import Mathlib.Data.List.Sort
import Mathlib.Tactic.Abel

/-!
# Rapids.Lib.OrdMap

**Ordered maps** as strictly sorted association lists.

The representation is the traversal order of a balanced search tree: one entry
for each key, keys ascending. Two maps with the same lookups are therefore
equal (`ext_find?`), and a loop over a map is a recursion over `entries`.

`sumBy` totals a map in an additive commutative group; `sumBy_insert` and
`sumBy_erase` say what one write does to a total, and are the only facts about
totals that clients need.
-/

namespace Rapids.Lib

universe u v w

/-! ### Entry lists -/

section Entries

variable {κ : Type u} {ν : Type v} [LinearOrder κ] {k : κ} {l : List (κ × ν)} {v : ν}

/-- The value stored under `k`, if any. -/
def lookupEntry (k : κ) : List (κ × ν) → Option ν
  | [] => none
  | (k', v) :: rest => if k = k' then some v else lookupEntry k rest

/-- Write `v` under `k`, keeping the keys ascending. -/
def insertEntry (k : κ) (v : ν) : List (κ × ν) → List (κ × ν)
  | [] => [(k, v)]
  | (k', v') :: rest =>
    if k < k' then (k, v) :: (k', v') :: rest
    else if k = k' then (k, v) :: rest
    else (k', v') :: insertEntry k v rest

/-- Remove the entry of `k`. -/
def eraseEntry (k : κ) : List (κ × ν) → List (κ × ν)
  | [] => []
  | (k', v) :: rest => if k = k' then rest else (k', v) :: eraseEntry k rest

/-- Keys strictly ascending. -/
def SortedKeys (l : List (κ × ν)) : Prop :=
  l.Pairwise fun a b => a.1 < b.1

instance (l : List (κ × ν)) : Decidable (SortedKeys l) :=
  inferInstanceAs (Decidable (l.Pairwise fun a b => a.1 < b.1))

theorem mem_insertEntry {e : κ × ν}
    (h : e ∈ insertEntry k v l) : e = (k, v) ∨ e ∈ l := by
  induction l with
  | nil => simpa [insertEntry] using h
  | cons hd tl ih =>
    obtain ⟨k', v'⟩ := hd
    rw [insertEntry] at h
    split_ifs at h with h1 h2
    · simpa using h
    · rcases List.mem_cons.mp h with rfl | h'
      · exact .inl rfl
      · exact .inr (.tail _ h')
    · rcases List.mem_cons.mp h with rfl | h'
      · exact .inr (.head _)
      · exact (ih h').imp id (.tail _)

theorem mem_of_mem_eraseEntry {e : κ × ν}
    (h : e ∈ eraseEntry k l) : e ∈ l := by
  induction l with
  | nil => simp [eraseEntry] at h
  | cons hd tl ih =>
    obtain ⟨k', v'⟩ := hd
    rw [eraseEntry] at h
    split_ifs at h with h1
    · exact .tail _ h
    · rcases List.mem_cons.mp h with rfl | h'
      · exact .head _
      · exact .tail _ (ih h')

theorem sortedKeys_insertEntry (k : κ) (v : ν) (h : SortedKeys l) :
    SortedKeys (insertEntry k v l) := by
  induction l with
  | nil => simp [insertEntry, SortedKeys]
  | cons hd tl ih =>
    obtain ⟨k', v'⟩ := hd
    obtain ⟨hhd, htl⟩ := List.pairwise_cons.mp h
    rw [SortedKeys, insertEntry]
    split_ifs with h1 h2
    · refine h.cons fun e he => ?_
      rcases List.mem_cons.mp he with rfl | he'
      · exact h1
      · exact h1.trans (hhd e he')
    · subst h2
      exact htl.cons hhd
    · refine (ih htl).cons fun e he => ?_
      rcases mem_insertEntry he with rfl | he'
      · exact lt_of_le_of_ne (not_lt.mp h1) (Ne.symm h2)
      · exact hhd e he'

theorem sortedKeys_eraseEntry (k : κ) (h : SortedKeys l) :
    SortedKeys (eraseEntry k l) := by
  induction l with
  | nil => simp [eraseEntry, SortedKeys]
  | cons hd tl ih =>
    obtain ⟨k', v'⟩ := hd
    obtain ⟨hhd, htl⟩ := List.pairwise_cons.mp h
    rw [SortedKeys, eraseEntry]
    split_ifs with h1
    · exact htl
    · exact (ih htl).cons fun e he => hhd e (mem_of_mem_eraseEntry he)

theorem lookupEntry_insertEntry (k k' : κ) (v : ν) (l : List (κ × ν)) :
    lookupEntry k' (insertEntry k v l) = if k' = k then some v else lookupEntry k' l := by
  induction l with
  | nil => simp [insertEntry, lookupEntry]
  | cons hd tl ih =>
    obtain ⟨k₀, v₀⟩ := hd
    rw [insertEntry]
    by_cases h1 : k < k₀
    · rw [if_pos h1]
      rfl
    · rw [if_neg h1]
      by_cases h2 : k = k₀
      · subst h2
        by_cases h3 : k' = k <;> simp [lookupEntry, h3]
      · rw [if_neg h2, lookupEntry, ih, lookupEntry]
        by_cases h3 : k' = k
        · subst h3
          simp [h2]
        · simp [h3]

/-- An entry list whose keys all exceed `k` does not store `k`. -/
theorem lookupEntry_eq_none_of_lt (h : ∀ e ∈ l, k < e.1) :
    lookupEntry k l = none := by
  induction l with
  | nil => rfl
  | cons hd tl ih =>
    obtain ⟨k', v'⟩ := hd
    have hk : k < k' := h _ (.head _)
    rw [lookupEntry, if_neg hk.ne]
    exact ih fun e he => h e (.tail _ he)

theorem lookupEntry_eraseEntry (k k' : κ) (h : SortedKeys l) :
    lookupEntry k' (eraseEntry k l) = if k' = k then none else lookupEntry k' l := by
  induction l with
  | nil => simp [eraseEntry, lookupEntry]
  | cons hd tl ih =>
    obtain ⟨k₀, v₀⟩ := hd
    obtain ⟨hhd, htl⟩ := List.pairwise_cons.mp h
    rw [eraseEntry]
    split_ifs with h1 h2 h2
    · subst h1 h2
      exact lookupEntry_eq_none_of_lt hhd
    · subst h1
      simp [lookupEntry, h2]
    · subst h2
      simp [lookupEntry, h1, ih htl]
    · simp [lookupEntry, h2, ih htl]

theorem mem_iff_lookupEntry (h : SortedKeys l) :
    (k, v) ∈ l ↔ lookupEntry k l = some v := by
  induction l with
  | nil => simp [lookupEntry]
  | cons hd tl ih =>
    obtain ⟨k', v'⟩ := hd
    obtain ⟨hhd, htl⟩ := List.pairwise_cons.mp h
    rw [List.mem_cons, ih htl, lookupEntry]
    split_ifs with h1
    · subst h1
      rw [lookupEntry_eq_none_of_lt hhd]
      simp [eq_comm]
    · simp [h1]

/-- Sorted entry lists with the same lookups are equal. -/
theorem eq_of_lookupEntry {l' : List (κ × ν)} (hl : SortedKeys l) (hl' : SortedKeys l')
    (h : ∀ k, lookupEntry k l = lookupEntry k l') : l = l' := by
  have nodup : ∀ {m : List (κ × ν)}, SortedKeys m → m.Nodup := fun hm =>
    hm.imp fun {a b} hab hne => absurd (congrArg Prod.fst hne) hab.ne
  have hperm : l.Perm l' := by
    rw [List.perm_ext_iff_of_nodup (nodup hl) (nodup hl')]
    rintro ⟨k, v⟩
    rw [mem_iff_lookupEntry hl, mem_iff_lookupEntry hl', h]
  exact hperm.eq_of_pairwise (fun a b _ _ hab hba => absurd hab (not_lt.mpr hba.le)) hl hl'

end Entries

/-! ### Totals of entry lists -/

section Totals

variable {κ : Type u} {ν : Type v} {M : Type w} [AddCommGroup M] {l : List (κ × ν)}

variable (f : κ → ν → M)

/-- The total of `f` over an entry list. -/
def sumEntries (l : List (κ × ν)) : M :=
  (l.map fun e => f e.1 e.2).sum

@[simp] theorem sumEntries_nil : sumEntries f [] = 0 := rfl

@[simp] theorem sumEntries_cons (e : κ × ν) (l : List (κ × ν)) :
    sumEntries f (e :: l) = f e.1 e.2 + sumEntries f l := by
  simp [sumEntries]

theorem sumEntries_nonneg {f : κ → ν → Int} (h : ∀ e ∈ l, 0 ≤ f e.1 e.2) :
    0 ≤ sumEntries f l := by
  induction l with
  | nil => simp
  | cons e rest ih =>
    rw [sumEntries_cons]
    exact Int.add_nonneg (h e (.head _)) (ih fun e' he' => h e' (.tail _ he'))

/-- One part of a sum of natural amounts is at most the whole. -/
theorem le_sumEntries {f : κ → ν → Int} {l : List (κ × ν)} (h : ∀ e ∈ l, 0 ≤ f e.1 e.2) {e : κ × ν}
    (he : e ∈ l) : f e.1 e.2 ≤ sumEntries f l := by
  induction l with
  | nil => simp at he
  | cons e' rest ih =>
    have hrest := fun x hx => h x (List.mem_cons_of_mem e' hx)
    rw [sumEntries_cons]
    rcases List.mem_cons.mp he with rfl | hmem
    · have := sumEntries_nonneg hrest
      omega
    · have h' := h e' (.head _)
      have := ih hrest hmem
      omega

/-- What `f` counts under one key: nothing when the key is absent. -/
def weightAt (k : κ) : Option ν → M
  | none => 0
  | some v => f k v

@[simp] theorem weightAt_none (k : κ) : weightAt f k none = 0 := rfl

@[simp] theorem weightAt_some (k : κ) (v : ν) :
    weightAt f k (some v) = f k v := rfl

variable [LinearOrder κ]

theorem sumEntries_insertEntry (k : κ) (v : ν)
    (h : SortedKeys l) :
    sumEntries f (insertEntry k v l) =
      sumEntries f l + f k v - weightAt f k (lookupEntry k l) := by
  induction l with
  | nil => simp [insertEntry, lookupEntry]
  | cons hd tl ih =>
    obtain ⟨k', v'⟩ := hd
    obtain ⟨hhd, htl⟩ := List.pairwise_cons.mp h
    rw [insertEntry]
    split_ifs with h1 h2
    · have hnone : lookupEntry k ((k', v') :: tl) = none := by
        refine lookupEntry_eq_none_of_lt fun e he => ?_
        rcases List.mem_cons.mp he with rfl | he'
        · exact h1
        · exact h1.trans (hhd e he')
      rw [hnone]
      simp only [sumEntries_cons, weightAt_none]
      abel
    · subst h2
      simp only [sumEntries_cons, lookupEntry, if_true, weightAt_some]
      abel
    · simp only [sumEntries_cons, lookupEntry, if_neg h2, ih htl]
      abel

theorem sumEntries_eraseEntry (k : κ) (l : List (κ × ν)) :
    sumEntries f (eraseEntry k l) = sumEntries f l - weightAt f k (lookupEntry k l) := by
  induction l with
  | nil => simp [eraseEntry, lookupEntry]
  | cons hd tl ih =>
    obtain ⟨k', v'⟩ := hd
    rw [eraseEntry]
    split_ifs with h1
    · subst h1
      simp [lookupEntry]
    · simp only [sumEntries_cons, lookupEntry, if_neg h1, ih]
      abel

end Totals

/-! ### The map type -/

/-- A finite map whose entries ascend strictly by key. -/
structure OrdMap (κ : Type u) (ν : Type v) [LinearOrder κ] where
  /-- The entries, smallest key first. -/
  entries : List (κ × ν)
  /-- No key occurs twice, and traversal follows the key order. -/
  sorted : SortedKeys entries
  deriving DecidableEq

namespace OrdMap

variable {κ : Type u} {ν : Type v} [LinearOrder κ] {k : κ} {m : OrdMap κ ν} {v : ν}

/-- The map without entries. -/
def empty : OrdMap κ ν := ⟨[], List.Pairwise.nil⟩

instance : EmptyCollection (OrdMap κ ν) := ⟨empty⟩

instance : Inhabited (OrdMap κ ν) := ⟨empty⟩

/-- The value under a key. -/
def find? (m : OrdMap κ ν) (k : κ) : Option ν := lookupEntry k m.entries

/-- Is there an entry for the key? -/
def contains (m : OrdMap κ ν) (k : κ) : Bool := (m.find? k).isSome

/-- Write a value, replacing the one already there. -/
def insert (m : OrdMap κ ν) (k : κ) (v : ν) : OrdMap κ ν :=
  ⟨insertEntry k v m.entries, sortedKeys_insertEntry k v m.sorted⟩

/-- Write a value unless the key is taken. -/
def insertNew (m : OrdMap κ ν) (k : κ) (v : ν) : OrdMap κ ν :=
  if m.contains k then m else m.insert k v

/-- Drop a key. -/
def erase (m : OrdMap κ ν) (k : κ) : OrdMap κ ν :=
  ⟨eraseEntry k m.entries, sortedKeys_eraseEntry k m.sorted⟩

/-- The entries that satisfy a test. -/
def filter (m : OrdMap κ ν) (f : κ × ν → Bool) : OrdMap κ ν :=
  ⟨m.entries.filter f, m.sorted.filter f⟩

/-- The entry with the largest key. -/
def last? (m : OrdMap κ ν) : Option (κ × ν) := m.entries.getLast?

@[simp] theorem find?_empty (k : κ) : (∅ : OrdMap κ ν).find? k = none := rfl

@[simp] theorem contains_empty (k : κ) : (∅ : OrdMap κ ν).contains k = false := rfl

theorem find?_insert (m : OrdMap κ ν) (k k' : κ) (v : ν) :
    (m.insert k v).find? k' = if k' = k then some v else m.find? k' :=
  lookupEntry_insertEntry k k' v m.entries

@[simp] theorem find?_insert_self (m : OrdMap κ ν) (k : κ) (v : ν) :
    (m.insert k v).find? k = some v := by
  simp [find?_insert]

theorem find?_insert_ne (m : OrdMap κ ν) {k' : κ} (v : ν) (h : k' ≠ k) :
    (m.insert k v).find? k' = m.find? k' := by
  simp [find?_insert, h]

/-- The first value written under a key stays. -/
theorem find?_insertNew (m : OrdMap κ ν) (k k' : κ) (v : ν) :
    (m.insertNew k v).find? k' = if k' = k then (m.find? k).or (some v) else m.find? k' := by
  unfold insertNew contains
  cases hk : m.find? k with
  | none =>
    rw [Option.isSome_none, if_neg Bool.false_ne_true, find?_insert]
    rfl
  | some w =>
    rw [Option.isSome_some, if_pos rfl]
    split_ifs with hkk
    · rw [hkk, hk]
      rfl
    · rfl

theorem find?_insertNew_cases {k' : κ} {w : ν}
    (h : (m.insertNew k v).find? k' = some w) : m.find? k' = some w ∨ (k' = k ∧ w = v) := by
  unfold insertNew at h
  split_ifs at h
  · exact .inl h
  · rw [find?_insert] at h
    split_ifs at h with hk
    · exact .inr ⟨hk, (Option.some.inj h).symm⟩
    · exact .inl h

section
variable (m : OrdMap κ ν)

theorem find?_erase (k k' : κ) :
    (m.erase k).find? k' = if k' = k then none else m.find? k' :=
  lookupEntry_eraseEntry k k' m.sorted

@[simp] theorem find?_erase_self (k : κ) :
    (m.erase k).find? k = none := by
  simp [find?_erase]

theorem find?_erase_ne {k' : κ} (h : k' ≠ k) :
    (m.erase k).find? k' = m.find? k' := by
  simp [find?_erase, h]

theorem contains_insert (k k' : κ) (v : ν) :
    (m.insert k v).contains k' = (decide (k' = k) || m.contains k') := by
  unfold contains
  rw [find?_insert]
  by_cases h : k' = k <;> simp [h]

theorem contains_insertNew (k k' : κ) (v : ν) :
    (m.insertNew k v).contains k' = (decide (k' = k) || m.contains k') := by
  rw [insertNew]
  by_cases hk : m.contains k = true
  · rw [if_pos hk]
    by_cases hkk : k' = k
    · rw [hkk, hk, Bool.or_true]
    · rw [decide_eq_false hkk, Bool.false_or]
  · rw [if_neg hk, contains_insert]

theorem contains_erase (k k' : κ) :
    (m.erase k).contains k' = (!decide (k' = k) && m.contains k') := by
  unfold contains
  rw [find?_erase]
  by_cases h : k' = k <;> simp [h]

end

theorem mem_entries_iff :
    (k, v) ∈ m.entries ↔ m.find? k = some v :=
  mem_iff_lookupEntry m.sorted

/-- Maps with the same lookups are equal. -/
theorem ext_find? {m' : OrdMap κ ν} (h : ∀ k, m.find? k = m'.find? k) : m = m' := by
  obtain ⟨l, hl⟩ := m
  obtain ⟨l', hl'⟩ := m'
  have := eq_of_lookupEntry hl hl' h
  subst this
  rfl

/-- Erasing an absent key changes nothing. -/
theorem erase_eq_self (h : m.find? k = none) : m.erase k = m := by
  refine ext_find? fun k' => ?_
  rw [find?_erase]
  split_ifs with hk
  · rw [hk, h]
  · rfl

theorem find?_filter (m : OrdMap κ ν) (f : κ × ν → Bool) (k : κ) :
    (m.filter f).find? k = (m.find? k).filter fun v => f (k, v) := by
  ext v
  rw [← mem_entries_iff, Option.filter_eq_some_iff, ← mem_entries_iff]
  exact List.mem_filter

/-- Updates of single keys, one after the other: every key sees at most one of
them. -/
theorem find?_foldl {α : Type w} {f : OrdMap κ ν → κ × α → OrdMap κ ν}
    {g : Option ν → κ × α → Option ν}
    (hself : ∀ m e, (f m e).find? e.1 = g (m.find? e.1) e)
    (hne : ∀ m e k, k ≠ e.1 → (f m e).find? k = m.find? k)
    {l : List (κ × α)} (hl : SortedKeys l) (m : OrdMap κ ν) (k : κ) :
    (l.foldl f m).find? k =
      (lookupEntry k l).elim (m.find? k) fun v => g (m.find? k) (k, v) := by
  induction l generalizing m with
  | nil => rfl
  | cons e rest ih =>
    obtain ⟨k', v⟩ := e
    obtain ⟨hfirst, hrest⟩ := List.pairwise_cons.mp hl
    rw [List.foldl_cons, ih hrest, lookupEntry]
    by_cases hk : k = k'
    · subst hk
      rw [lookupEntry_eq_none_of_lt hfirst, if_pos rfl]
      exact hself m (k, v)
    · rw [if_neg hk, hne m (k', v) k hk]

/-- Erasures, one after the other: exactly the erased keys are gone. -/
theorem find?_foldl_erase {α : Type w} (key : α → κ) (l : List α) (m : OrdMap κ ν) (k : κ) :
    (l.foldl (fun m a => m.erase (key a)) m).find? k =
      if k ∈ l.map key then none else m.find? k := by
  induction l generalizing m with
  | nil => rfl
  | cons a rest ih =>
    rw [List.foldl_cons, ih, find?_erase, List.map_cons]
    by_cases hk : k ∈ rest.map key
    · rw [if_pos hk, if_pos (List.mem_cons_of_mem _ hk)]
    · rw [if_neg hk]
      by_cases ha : k = key a
      · rw [if_pos ha, if_pos (List.mem_cons.mpr (.inl ha))]
      · rw [if_neg ha, if_neg fun hmem => (List.mem_cons.mp hmem).elim ha hk]

/-- First writes, one after the other: a key that is written keeps what it has, if
anything. -/
theorem find?_foldl_insertNew {α : Type w} (key : α → κ) (v : ν) (l : List α) (m : OrdMap κ ν) (k : κ) :
    (l.foldl (fun m a => m.insertNew (key a) v) m).find? k =
      (m.find? k).or (if k ∈ l.map key then some v else none) := by
  induction l generalizing m with
  | nil => simp
  | cons a rest ih =>
    rw [List.foldl_cons, ih, find?_insertNew, List.map_cons]
    by_cases ha : k = key a
    · rw [if_pos ha, if_pos (List.mem_cons.mpr (.inl ha)), ← ha]
      cases m.find? k <;> simp
    · rw [if_neg ha]
      by_cases hk : k ∈ rest.map key
      · rw [if_pos hk, if_pos (List.mem_cons_of_mem _ hk)]
      · rw [if_neg hk, if_neg fun hmem => (List.mem_cons.mp hmem).elim ha hk]

theorem find?_foldl_copy (l : List (κ × ν)) (m : OrdMap κ ν) (k : κ) :
    (l.foldl (fun m e => m.insertNew e.1 e.2) m).find? k =
      (m.find? k).or ((l.find? fun e => decide (e.1 = k)).map Prod.snd) := by
  induction l generalizing m with
  | nil => simp
  | cons e rest ih =>
    rw [List.foldl_cons, ih, find?_insertNew]
    by_cases hk : k = e.1
    · rw [if_pos hk, List.find?_cons_of_pos (by simp [hk]), ← hk]
      cases m.find? k <;> simp
    · rw [if_neg hk, List.find?_cons_of_neg (by simpa using Ne.symm hk)]

/-- A map is copied entry by entry, in any order. -/
theorem foldl_copy {l : List (κ × ν)} (h : l.Perm m.entries) :
    l.foldl (fun m e => m.insertNew e.1 e.2) ∅ = m := by
  refine ext_find? fun k => ?_
  rw [find?_foldl_copy, find?_empty, Option.none_or]
  cases hfind : l.find? fun e => decide (e.1 = k) with
  | none =>
    cases hm : m.find? k with
    | none => rfl
    | some v =>
      have hmem := h.mem_iff.mpr (mem_entries_iff.mpr hm)
      simpa using List.find?_eq_none.mp hfind _ hmem
  | some e =>
    have hmem := h.mem_iff.mp (List.mem_of_find?_eq_some hfind)
    have hk : e.1 = k := by simpa using List.find?_some hfind
    rw [Option.map_some, ← hk, mem_entries_iff.mp hmem]

/-- A write under a free key adds one entry. -/
theorem entries_insert_perm (v : ν) (h : m.find? k = none) :
    (m.insert k v).entries.Perm ((k, v) :: m.entries) := by
  have hfree : ∀ e ∈ m.entries, k ≠ e.1 := by
    intro e he hk
    rw [hk, mem_entries_iff.mp he] at h
    cases h
  have hperm : ∀ l : List (κ × ν), (∀ e ∈ l, k ≠ e.1) → (insertEntry k v l).Perm ((k, v) :: l) := by
    intro l hl
    induction l with
    | nil => exact List.Perm.refl _
    | cons e rest ih =>
      rw [insertEntry]
      split_ifs with hlt heq
      · exact List.Perm.refl _
      · exact absurd heq (hl e (.head _))
      · have hrest := ih fun e' he' => hl e' (.tail _ he')
        exact (hrest.cons e).trans (List.Perm.swap _ _ _)
  exact hperm m.entries hfree

/-! ### The last entry -/

theorem insertEntry_eq_append (hl : SortedKeys l)
    (h : ∀ e ∈ l, e.1 ≤ k) : ∃ l', insertEntry k v l = l' ++ [(k, v)] := by
  induction l with
  | nil => exact ⟨[], rfl⟩
  | cons hd tl ih =>
    obtain ⟨k', v'⟩ := hd
    obtain ⟨hhd, htl⟩ := List.pairwise_cons.mp hl
    have hk' : k' ≤ k := h _ (.head _)
    rw [insertEntry, if_neg (not_lt.mpr hk')]
    by_cases hk : k = k'
    · -- the largest key is the first one, so the list has no other entry
      subst hk
      have : tl = [] := by
        cases tl with
        | nil => rfl
        | cons e es =>
          exact absurd (hhd e (.head _))
            (not_lt.mpr (h e (.tail _ (.head _))))
      subst this
      exact ⟨[], by simp⟩
    · obtain ⟨l', hl'⟩ := ih htl fun e he => h e (.tail _ he)
      exact ⟨(k', v') :: l', by simp [hk, hl']⟩

/-- Writing under a key that no other key exceeds makes it the last entry. -/
theorem last?_insert (h : ∀ e ∈ m.entries, e.1 ≤ k) :
    (m.insert k v).last? = some (k, v) := by
  obtain ⟨l', hl'⟩ := insertEntry_eq_append (v := v) m.sorted h
  simp [last?, insert, hl']

/-- A filter that keeps the last entry keeps it last. -/
theorem last?_filter {f : κ × ν → Bool} {e : κ × ν}
    (h : m.last? = some e) (he : f e = true) : (m.filter f).last? = some e := by
  obtain ⟨l', hl'⟩ := List.getLast?_eq_some_iff.mp h
  simp [last?, filter, hl', he]

theorem last?_eq_none_iff : m.last? = none ↔ ∀ k, m.find? k = none := by
  constructor
  · intro h k
    have hnil : m.entries = [] := List.getLast?_eq_none_iff.mp h
    rw [find?, hnil]
    rfl
  · intro h
    refine List.getLast?_eq_none_iff.mpr (List.eq_nil_iff_forall_not_mem.mpr ?_)
    rintro ⟨k, v⟩ he
    rw [mem_entries_iff, h k] at he
    cases he

/-- The last entry is the one no key exceeds. -/
theorem last?_eq_some_iff :
    m.last? = some (k, v) ↔ m.find? k = some v ∧ ∀ k', k < k' → m.find? k' = none := by
  constructor
  · intro h
    obtain ⟨l, hl⟩ := List.getLast?_eq_some_iff.mp h
    refine ⟨mem_entries_iff.mp (by rw [hl]; simp), fun k' hk => ?_⟩
    cases hf : m.find? k' with
    | none => rfl
    | some v' =>
      have hmem := mem_entries_iff.mpr hf
      have hsorted := m.sorted
      rw [hl] at hmem hsorted
      rcases List.mem_append.mp hmem with hmem | hmem
      · have hlt := (List.pairwise_append.mp hsorted).2.2 _ hmem (k, v) (List.mem_singleton.mpr rfl)
        exact absurd hk (not_lt.mpr hlt.le)
      · rw [List.mem_singleton, Prod.mk.injEq] at hmem
        exact absurd hk (hmem.1 ▸ lt_irrefl _)
  · rintro ⟨hk, hmax⟩
    cases hl : m.last? with
    | none =>
      rw [last?_eq_none_iff.mp hl k] at hk
      cases hk
    | some e =>
      obtain ⟨l, hl'⟩ := List.getLast?_eq_some_iff.mp hl
      have he : m.find? e.1 = some e.2 := mem_entries_iff.mp (by rw [hl']; simp)
      have hle : e.1 ≤ k := by
        refine not_lt.mp fun hlt => ?_
        rw [hmax e.1 hlt] at he
        cases he
      have hmem := mem_entries_iff.mpr hk
      have hsorted := m.sorted
      rw [hl'] at hmem hsorted
      rcases List.mem_append.mp hmem with hmem | hmem
      · have hlt := (List.pairwise_append.mp hsorted).2.2 _ hmem e (List.mem_singleton.mpr rfl)
        exact absurd hle (not_le.mpr hlt)
      · rw [List.mem_singleton.mp hmem]

/-- Writing what is there changes nothing. -/
theorem insert_eq_self (h : m.find? k = some v) : m.insert k v = m := by
  refine ext_find? fun k' => ?_
  rw [find?_insert]
  split_ifs with hk
  · rw [hk, h]
  · rfl

/-- Erasing takes the last write with it. -/
theorem erase_insert (m : OrdMap κ ν) (k : κ) (v : ν) : (m.insert k v).erase k = m.erase k := by
  refine ext_find? fun k' => ?_
  rw [find?_erase, find?_erase]
  split_ifs with hk
  · rfl
  · exact find?_insert_ne m v hk

/-! ### Other values -/

section MapVal

variable {ν' : Type w}

/-- The same keys, with other values. -/
def mapVal (f : ν → ν') (m : OrdMap κ ν) : OrdMap κ ν' :=
  ⟨m.entries.map (Prod.map id f), List.pairwise_map.mpr m.sorted⟩

theorem find?_mapVal (f : ν → ν') (m : OrdMap κ ν) (k : κ) :
    (m.mapVal f).find? k = (m.find? k).map f := by
  obtain ⟨l, hl⟩ := m
  show lookupEntry k (l.map (Prod.map id f)) = (lookupEntry k l).map f
  clear hl
  induction l with
  | nil => rfl
  | cons hd tl ih =>
    obtain ⟨k', v⟩ := hd
    rw [List.map_cons, Prod.map_apply, lookupEntry, lookupEntry, ih, id]
    split_ifs <;> rfl

theorem mapVal_insert (f : ν → ν') (m : OrdMap κ ν) (k : κ) (v : ν) :
    (m.insert k v).mapVal f = (m.mapVal f).insert k (f v) := by
  refine ext_find? fun k' => ?_
  rw [find?_mapVal, find?_insert, find?_insert, find?_mapVal]
  split_ifs <;> rfl

end MapVal

/-! ### Totals -/

variable {M : Type w} [AddCommGroup M]

/-- The total of `f` over all entries. -/
def sumBy (m : OrdMap κ ν) (f : κ → ν → M) : M := sumEntries f m.entries

@[simp] theorem sumBy_empty (f : κ → ν → M) : (∅ : OrdMap κ ν).sumBy f = 0 := rfl

theorem sumBy_insert (m : OrdMap κ ν) (f : κ → ν → M) (k : κ) (v : ν) :
    (m.insert k v).sumBy f = m.sumBy f + f k v - weightAt f k (m.find? k) :=
  sumEntries_insertEntry f k v m.sorted

theorem sumBy_erase (m : OrdMap κ ν) (f : κ → ν → M) (k : κ) :
    (m.erase k).sumBy f = m.sumBy f - weightAt f k (m.find? k) :=
  sumEntries_eraseEntry f k m.entries

/-- Erasing entries that count for nothing. -/
theorem sumBy_foldl_erase {α : Type*} (key : α → κ) (f : κ → ν → M) (l : List α) (m : OrdMap κ ν)
    (h : ∀ a ∈ l, ∀ v, m.find? (key a) = some v → f (key a) v = 0) :
    (l.foldl (fun m a => m.erase (key a)) m).sumBy f = m.sumBy f := by
  induction l generalizing m with
  | nil => rfl
  | cons a rest ih =>
    have hzero : weightAt f (key a) (m.find? (key a)) = 0 := by
      cases hf : m.find? (key a) with
      | none => rfl
      | some v => exact h a (.head _) v hf
    rw [List.foldl_cons, ih, sumBy_erase, hzero, sub_zero]
    intro b hb v hf
    rw [find?_erase] at hf
    split_ifs at hf
    exact h b (List.mem_cons_of_mem a hb) v hf

end OrdMap

/-! ### Steps that may fail

What a lookup or another partial step hands on, in `do` notation. -/

theorem do_eq_some {α β : Type u} {x : Option α} {f : α → Option β} {b : β} :
    (x >>= f) = some b ↔ ∃ a, x = some a ∧ f a = some b :=
  Option.bind_eq_some_iff

theorem pure_eq_some {α : Type u} {a b : α} : (pure a : Option α) = some b ↔ a = b :=
  Option.some_inj

end Rapids.Lib
