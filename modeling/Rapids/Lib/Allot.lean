import Mathlib.Algebra.Order.BigOperators.Group.List
import Mathlib.Algebra.Order.Group.Int
import Mathlib.Algebra.Ring.Int.Defs
import Mathlib.Data.List.Infix

/-!
# Rapids.Lib.Allot

**Serving claims in turn.** An amount is handed out along a list of claims: each
claim is met in full while enough is left, the next one gets the rest, and the
list is left there.

Where the claims are positive, the claimants served are the first ones of the
list, all of them but perhaps the last are served in full, and what is handed
out is the whole amount or the sum of the claims, whichever is less.

Where a claim is met in full or not at all, those that fit are served in turn (`takeFitting`).
-/

namespace Rapids.Lib

universe u

variable {α : Type u}

/-- Hand out `left` along a list of claims. -/
def allot : Int → List (Int × α) → List (Int × α)
  | _, [] => []
  | left, (claim, who) :: rest =>
    if 0 < min claim left then (min claim left, who) :: allot (left - min claim left) rest else []

variable {left : Int} {l : List (Int × α)}

theorem allot_of_nonpos (h : left ≤ 0) (l : List (Int × α)) : allot left l = [] := by
  cases l with
  | nil => rfl
  | cons c rest =>
    obtain ⟨claim, who⟩ := c
    rw [allot, if_neg (not_lt.mpr ((min_le_right _ _).trans h))]

/-- A positive claim is served while something is left. -/
theorem allot_cons {claim : Int} (hleft : 0 < left) (hclaim : 0 < claim) (who : α)
    (rest : List (Int × α)) :
    allot left ((claim, who) :: rest) =
      (min claim left, who) :: allot (left - min claim left) rest := by
  rw [allot, if_pos (lt_min hclaim hleft)]

/-- What is handed out. -/
theorem sum_allot (hleft : 0 ≤ left) (hl : ∀ c ∈ l, 0 < c.1) :
    ((allot left l).map Prod.fst).sum = min left (l.map Prod.fst).sum := by
  induction l generalizing left with
  | nil => simp [allot, hleft]
  | cons c rest ih =>
    obtain ⟨claim, who⟩ := c
    have hclaim : 0 < claim := hl _ (.head _)
    have hrest : ∀ c ∈ rest, 0 < c.1 := fun c hc => hl c (.tail _ hc)
    have hsum : 0 ≤ (rest.map Prod.fst).sum := by
      refine List.sum_nonneg fun x hx => ?_
      obtain ⟨c, hc, rfl⟩ := List.mem_map.mp hx
      exact (hrest c hc).le
    rcases eq_or_lt_of_le hleft with hzero | hpos
    · rw [allot_of_nonpos hzero.ge, ← hzero]
      simp only [List.map_nil, List.sum_nil, List.map_cons, List.sum_cons]
      omega
    · rw [allot_cons hpos hclaim]
      simp only [List.map_cons, List.sum_cons]
      rw [ih (by omega) hrest]
      omega

/-- Everyone served gets something, and no more than was claimed. -/
theorem mem_allot {x : Int} {who : α} (h : (x, who) ∈ allot left l) :
    0 < x ∧ ∃ claim, (claim, who) ∈ l ∧ x ≤ claim := by
  induction l generalizing left with
  | nil => cases h
  | cons c rest ih =>
    obtain ⟨claim, first⟩ := c
    rw [allot] at h
    split_ifs at h with hpos
    · rcases List.mem_cons.mp h with heq | hmem
      · obtain ⟨rfl, rfl⟩ := Prod.mk.inj heq
        exact ⟨hpos, claim, .head _, min_le_left _ _⟩
      · obtain ⟨hx, claim', hmem', hle⟩ := ih hmem
        exact ⟨hx, claim', .tail _ hmem', hle⟩
    · cases h

/-- The first claimants are served. -/
theorem allot_claimants_prefix (left : Int) (l : List (Int × α)) :
    (allot left l).map Prod.snd <+: l.map Prod.snd := by
  induction l generalizing left with
  | nil => exact List.nil_prefix
  | cons c rest ih =>
    obtain ⟨claim, who⟩ := c
    rw [allot]
    split_ifs with hpos
    · exact List.cons_prefix_cons.mpr ⟨rfl, ih _⟩
    · exact List.nil_prefix

/-- All of them but the last are served in full. -/
theorem dropLast_allot_begins (left : Int) (l : List (Int × α)) : (allot left l).dropLast <+: l := by
  induction l generalizing left with
  | nil => exact List.nil_prefix
  | cons c rest ih =>
    obtain ⟨claim, who⟩ := c
    rw [allot]
    split_ifs with hpos
    · by_cases hmore : allot (left - min claim left) rest = []
      · rw [hmore]
        exact List.nil_prefix
      · -- someone is served after this one, so this claim left something
        have hfull : min claim left = claim := by
          by_contra hne
          exact hmore (allot_of_nonpos (by omega) rest)
        rw [List.dropLast_cons_of_ne_nil hmore, hfull]
        exact List.cons_prefix_cons.mpr ⟨rfl, ih _⟩
    · exact List.nil_prefix

/-- So whoever is served short is the last one served. -/
theorem eq_getLast_of_not_mem {e : Int × α} (h : e ∈ allot left l)
    (hshort : e ∉ l) : (allot left l).getLast? = some e := by
  rw [List.getLast?_eq_some_getLast (List.ne_nil_of_mem h), Option.some.injEq]
  have hsplit := List.dropLast_append_getLast (List.ne_nil_of_mem h)
  rw [← hsplit, List.mem_append, List.mem_singleton] at h
  rcases h with hfull | hlast
  · exact absurd ((dropLast_allot_begins left l).subset hfull) hshort
  · exact hlast.symm

/-! ### Whole or nothing -/

/-- Serve in turn those that still fit; the others get nothing. -/
def takeFitting (cost : α → Int) (total : Int) : Int → List α → List α
  | _, [] => []
  | spent, a :: rest =>
    if cost a + spent ≤ total then a :: takeFitting cost total (spent + cost a) rest
    else takeFitting cost total spent rest

/-- Those that are served cost no more than there is. -/
theorem sum_takeFitting_le {cost : α → Int} {total spent : Int} (h : spent ≤ total) (l : List α) :
    spent + ((takeFitting cost total spent l).map cost).sum ≤ total := by
  induction l generalizing spent with
  | nil => simpa [takeFitting] using h
  | cons a rest ih =>
    rw [takeFitting]
    by_cases hfits : cost a + spent ≤ total
    · rw [if_pos hfits, List.map_cons, List.sum_cons]
      have hnext : spent + cost a ≤ total := by omega
      have hrest := ih hnext
      omega
    · rw [if_neg hfits]
      exact ih h

end Rapids.Lib
