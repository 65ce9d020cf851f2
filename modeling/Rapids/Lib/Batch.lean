import Mathlib.Logic.Function.Basic
import Mathlib.Tactic.SplitIfs

/-!
# Rapids.Lib.Batch

**Batches of writes and erasures** on a store, which is the function of its lookups.

The operations of a batch take effect in order, so the last one for a key decides
(`writeBatch_cases`). A batch that agrees with what is stored changes nothing, and
one that only erases is known by its keys.
-/

namespace Rapids.Lib

variable {κ ν : Type} [DecidableEq κ]

/-- Write each key that has a value and erase each that has none. -/
def writeBatch (batch : List (κ × Option ν)) (m : κ → Option ν) : κ → Option ν :=
  batch.foldl (fun m e => Function.update m e.1 e.2) m

variable {batch : List (κ × Option ν)} {m m' : κ → Option ν} {k : κ}

@[simp] theorem writeBatch_nil : writeBatch [] m = m := rfl

theorem writeBatch_cons (e : κ × Option ν) :
    writeBatch (e :: batch) m = writeBatch batch (Function.update m e.1 e.2) := rfl

theorem writeBatch_append (xs ys : List (κ × Option ν)) :
    writeBatch (xs ++ ys) m = writeBatch ys (writeBatch xs m) :=
  List.foldl_append

/-- A key that a batch does not name keeps its value. -/
theorem writeBatch_of_not_mem (h : ∀ e ∈ batch, e.1 ≠ k) : writeBatch batch m k = m k := by
  induction batch generalizing m with
  | nil => rfl
  | cons e rest ih =>
    rw [writeBatch_cons, ih fun x hx => h x (List.mem_cons_of_mem e hx)]
    exact Function.update_of_ne (Ne.symm (h e (.head _))) _ _

/-- A key is left alone, or has the value of an operation on it. -/
theorem writeBatch_cases (batch : List (κ × Option ν)) (m : κ → Option ν) (k : κ) :
    ((∀ e ∈ batch, e.1 ≠ k) ∧ writeBatch batch m k = m k) ∨
      ∃ v, (k, v) ∈ batch ∧ writeBatch batch m k = v := by
  induction batch generalizing m with
  | nil => exact .inl ⟨by simp, rfl⟩
  | cons e rest ih =>
    rcases ih (Function.update m e.1 e.2) with ⟨hno, hsame⟩ | ⟨v, hmem, hv⟩
    · by_cases hk : e.1 = k
      · refine .inr ⟨e.2, ?_, ?_⟩
        · rw [← hk]
          exact .head _
        · rw [writeBatch_cons, hsame, ← hk, Function.update_self]
      · refine .inl ⟨fun x hx => ?_, ?_⟩
        · rcases List.mem_cons.mp hx with rfl | hx
          · exact hk
          · exact hno x hx
        · rw [writeBatch_cons, hsame, Function.update_of_ne (Ne.symm hk)]
    · exact .inr ⟨v, List.mem_cons_of_mem e hmem, hv⟩

/-- What a batch says about a key, if all its operations on it agree. -/
theorem writeBatch_of_mem {v : Option ν} (hmem : (k, v) ∈ batch)
    (hsame : ∀ w, (k, w) ∈ batch → w = v) : writeBatch batch m k = v := by
  rcases writeBatch_cases batch m k with ⟨hno, -⟩ | ⟨w, hw, heq⟩
  · exact absurd rfl (hno (k, v) hmem)
  · rw [heq, hsame w hw]

/-- A batch that agrees with what is stored. -/
theorem writeBatch_eq_self (h : ∀ e ∈ batch, m e.1 = e.2) : writeBatch batch m = m := by
  funext k
  rcases writeBatch_cases batch m k with ⟨-, heq⟩ | ⟨v, hmem, heq⟩
  · exact heq
  · rw [heq, h (k, v) hmem]

/-- The keys a batch names, erased. -/
def eraseBatch {μ : Type} (batch : List (κ × μ)) : List (κ × Option ν) := batch.map fun e => (e.1, none)

theorem writeBatch_eraseBatch {μ : Type} (batch : List (κ × μ)) (m : κ → Option ν) (k : κ) :
    writeBatch (eraseBatch batch) m k = if k ∈ batch.map Prod.fst then none else m k := by
  split_ifs with hk
  · obtain ⟨e, he, rfl⟩ := List.mem_map.mp hk
    refine writeBatch_of_mem (List.mem_map.mpr ⟨e, he, rfl⟩) fun w hw => ?_
    obtain ⟨x, -, hx⟩ := List.mem_map.mp hw
    exact (Prod.mk.inj hx).2.symm
  · refine writeBatch_of_not_mem fun x hx heq => hk ?_
    obtain ⟨e, he, rfl⟩ := List.mem_map.mp hx
    exact List.mem_map.mpr ⟨e, he, heq⟩

/-! ### Rows that are inserted -/

/-- Insert each row whose key is not there yet. -/
def insertBatch (rows : List (κ × ν)) (m : κ → Option ν) : κ → Option ν :=
  rows.foldl (fun m e => if (m e.1).isSome then m else Function.update m e.1 (some e.2)) m

/-- Rows with new keys, each its own, are added to what is there. -/
theorem insertBatch_eq_some {rows : List (κ × ν)} {v : ν} (hkeys : (rows.map Prod.fst).Nodup)
    (hfresh : ∀ e ∈ rows, m e.1 = none) :
    insertBatch rows m k = some v ↔ m k = some v ∨ (k, v) ∈ rows := by
  induction rows generalizing m with
  | nil => exact (or_iff_left List.not_mem_nil).symm
  | cons e rows ih =>
    obtain ⟨hnot, hkeys⟩ := List.nodup_cons.mp hkeys
    have hnone : m e.1 = none := hfresh e (.head _)
    have hne : ∀ r ∈ rows, r.1 ≠ e.1 := fun r hr heq => hnot (heq ▸ List.mem_map_of_mem hr)
    have hstep : insertBatch (e :: rows) m = insertBatch rows (Function.update m e.1 (some e.2)) :=
      congrArg (insertBatch rows) (if_neg (by rw [hnone]; nofun))
    rw [hstep, ih hkeys fun r hr => (Function.update_of_ne (hne r hr) _ _).trans
      (hfresh r (List.mem_cons_of_mem e hr)), List.mem_cons, ← or_assoc]
    refine or_congr_left ?_
    by_cases hk : k = e.1
    · subst hk
      rw [Function.update_self, hnone, Option.some.injEq, Prod.ext_iff]
      exact ⟨fun h => .inr ⟨rfl, h.symm⟩, fun h => h.elim nofun fun h => h.2.symm⟩
    · rw [Function.update_of_ne hk]
      exact (or_iff_left fun h => hk (congrArg Prod.fst h)).symm

end Rapids.Lib
