import Mathlib.Algebra.GroupWithZero.Nat
import Mathlib.Data.List.Sort
import Mathlib.Data.Prod.Lex

/-!
# Rapids.Lib.Listing

**Records listed in the order of a key.** Each record has a key and a text. The pairs are
sorted, by the key and then by the text, and the texts are what is left (`listing`).

The records may come in any order (`listing_perm`), the key may be replaced by one that
compares in the same way (`listing_congr`), and records that come in the order of the key
stay where they are (`listing_of_pairwise`). Two ways of writing the same records, one of
them never shorter than the other, give one list only if they have equal lengths for every
record (`weight_eq_of_listing_eq`).
-/

namespace Rapids.Lib

section
variable {ρ κ κ' τ : Type} [LinearOrder κ] [LinearOrder κ'] [LinearOrder τ]

variable (key : ρ → κ) (text : ρ → τ)

/-- The texts of the records, sorted by key and text. -/
def listing (rows : List ρ) : List τ :=
  ((rows.map fun r => toLex (key r, text r)).insertionSort (· ≤ ·)).map fun e => (ofLex e).2

variable {rows : List ρ}

theorem listing_perm {rows' : List ρ} (h : rows.Perm rows') :
    listing key text rows = listing key text rows' := by
  have hsame : (rows.map fun r => toLex (key r, text r)).insertionSort (· ≤ ·) =
      (rows'.map fun r => toLex (key r, text r)).insertionSort (· ≤ ·) := by
    refine List.Perm.eq_of_pairwise' (List.pairwise_insertionSort _ _) (List.pairwise_insertionSort _ _) ?_
    exact ((List.perm_insertionSort _ _).trans (h.map _)).trans (List.perm_insertionSort _ _).symm
  rw [listing, listing, hsame]

/-- Records sorted, instead of pairs. -/
theorem listing_eq {key : ρ → κ} {text : ρ → τ} (before : ρ → ρ → Prop)
    [DecidableRel before]
    (h : ∀ a ∈ rows, ∀ b ∈ rows, before a b ↔ toLex (key a, text a) ≤ toLex (key b, text b)) :
    listing key text rows = (rows.insertionSort before).map text := by
  rw [listing, ← List.map_insertionSort before (· ≤ ·) (fun r => toLex (key r, text r)) rows h, List.map_map]
  rfl

/-- Only the comparisons of the keys matter. -/
theorem listing_congr {key : ρ → κ} {key' : ρ → κ'} {text : ρ → τ}
    (h : ∀ a ∈ rows, ∀ b ∈ rows, key a < key b ↔ key' a < key' b) :
    listing key text rows = listing key' text rows := by
  have hle : ∀ a ∈ rows, ∀ b ∈ rows, toLex (key' a, text a) ≤ toLex (key' b, text b) ↔
      toLex (key a, text a) ≤ toLex (key b, text b) := by
    intro a ha b hb
    -- keys are equal if neither is smaller
    have heq : key a = key b ↔ key' a = key' b := by
      rw [le_antisymm_iff, le_antisymm_iff, ← not_lt, ← not_lt, ← not_lt, ← not_lt, h a ha b hb, h b hb a ha]
    rw [Prod.Lex.toLex_le_toLex, Prod.Lex.toLex_le_toLex]
    rw [h a ha b hb, heq]
  rw [listing_eq (fun a b => toLex (key' a, text a) ≤ toLex (key' b, text b)) hle,
    listing_eq (fun a b => toLex (key' a, text a) ≤ toLex (key' b, text b)) fun _ _ _ _ => Iff.rfl]

/-- Records that are in order already. -/
theorem listing_of_pairwise {key : ρ → κ}
    (h : rows.Pairwise fun a b => key a < key b) : listing key text rows = rows.map text := by
  have hsorted : (rows.map fun r => toLex (key r, text r)).Pairwise (· ≤ ·) := by
    rw [List.pairwise_map]
    exact h.imp fun hlt => Prod.Lex.toLex_le_toLex.mpr (.inl hlt)
  rw [listing, hsorted.insertionSort_eq, List.map_map]
  rfl

/-- Records made of others. -/
theorem listing_map {ρ' : Type} (f : ρ' → ρ) (rows : List ρ') :
    listing key text (rows.map f) = listing (fun r => key (f r)) (fun r => text (f r)) rows := by
  rw [listing, listing, List.map_map]
  rfl

theorem listing_text_congr {key : ρ → κ} {text text' : ρ → τ}
    (h : ∀ r ∈ rows, text r = text' r) : listing key text rows = listing key text' rows := by
  have hsame : (rows.map fun r => toLex (key r, text r)) = rows.map fun r => toLex (key r, text' r) :=
    List.map_congr_left fun r hr => by rw [h r hr]
  rw [listing, listing, hsame]

theorem length_listing (rows : List ρ) :
    (listing key text rows).length = rows.length := by
  rw [listing, List.length_map, List.length_insertionSort, List.length_map]

theorem listing_perm_map (rows : List ρ) :
    (listing key text rows).Perm (rows.map text) := by
  have h := (List.perm_insertionSort (· ≤ ·) (rows.map fun r => toLex (key r, text r))).map fun e => (ofLex e).2
  rw [List.map_map] at h
  exact h

theorem sum_map_le {f g : ρ → Nat} (hle : ∀ r ∈ rows, f r ≤ g r) :
    (rows.map f).sum ≤ (rows.map g).sum := by
  induction rows with
  | nil => exact le_rfl
  | cons a rest ih =>
    rw [List.map_cons, List.map_cons, List.sum_cons, List.sum_cons]
    exact Nat.add_le_add (hle a (.head _)) (ih fun r hr => hle r (.tail _ hr))

/-- A sum of larger numbers is equal only if all of them are. -/
theorem eq_of_sum_eq {f g : ρ → Nat} (hle : ∀ r ∈ rows, f r ≤ g r)
    (hsum : (rows.map f).sum = (rows.map g).sum) : ∀ r ∈ rows, f r = g r := by
  induction rows with
  | nil =>
    intro r hr
    cases hr
  | cons a rest ih =>
    have hrest := sum_map_le fun r hr => hle r (List.mem_cons_of_mem a hr)
    have ha := hle a (.head _)
    rw [List.map_cons, List.map_cons, List.sum_cons, List.sum_cons] at hsum
    intro r hr
    rcases List.mem_cons.mp hr with rfl | hr
    · omega
    · exact ih (fun r hr => hle r (.tail _ hr)) (by omega) r hr

theorem weight_eq_of_listing_eq {key : ρ → κ} {key' : ρ → κ'} {text text' : ρ → τ}
    (weight : τ → Nat) (hle : ∀ r ∈ rows, weight (text' r) ≤ weight (text r))
    (h : listing key text rows = listing key' text' rows) :
    ∀ r ∈ rows, weight (text' r) = weight (text r) := by
  refine eq_of_sum_eq hle ?_
  have hperm : (rows.map text').Perm (rows.map text) :=
    ((listing_perm_map key' text' rows).symm.trans (List.Perm.of_eq h.symm)).trans (listing_perm_map key text rows)
  have hsum := (hperm.map weight).sum_nat
  rw [List.map_map, List.map_map] at hsum
  exact hsum

end

end Rapids.Lib
