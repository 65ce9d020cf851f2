import Mathlib.Algebra.Order.BigOperators.Group.List
import Mathlib.Data.List.TakeWhile
import Rapids.Lib.Int64
import Rapids.Lib.Traced

/-!
# Rapids.Lib.Sums

**Running sums in 64 bits.** An addition logs its exact result and hands on what is
left of it in 64 bits (`plus`), so that a computation whose log fits has not overflowed
(`NoOverflow`). `sumWhile` is the loop that adds up a list of values, with one check
before and one after each addition.

Of such a loop the rules say when it does not overflow: if the values that the first
check lets through have a sum that fits, and only then if the second check stops
nothing else (`noOverflow_sumWhile_iff`); or if the two checks keep value and sum below
half of the range. What the loop returns is exact even after an overflow, if the second
check sees to it (`sumWhile_exact`).
-/

namespace Rapids.Lib

/-- A computation with the exact results of its additions. -/
abbrev Adding : Type → Type := Traced Int Unit

/-- A signed addition. -/
def plus (x y : Int) : Adding Int := .record (x + y) (toI64 (x + y))

/-- No addition leaves the range. -/
def NoOverflow {α : Type} (x : Adding α) : Prop := x.Logs InI64

instance {α : Type} (x : Adding α) : Decidable (NoOverflow x) :=
  inferInstanceAs (Decidable (∀ entry ∈ x.log, InI64 entry))

theorem noOverflow_plus_bind {α : Type} {x y : Int} {f : Int → Adding α} :
    NoOverflow (plus x y >>= f) ↔ InI64 (x + y) ∧ NoOverflow (f (toI64 (x + y))) := by
  rw [NoOverflow, plus, Traced.logs_bind_ok (Traced.result_record _ _), Traced.logs_record]
  exact Iff.rfl

section
variable {α : Type} (before : α → Bool) (after : α → Int → Int → Bool) (value : α → Int)

/-- The sum of the values behind `acc`. The second check sees the sum before and after
the addition. -/
def sumWhile : List α → Int → Adding Int
  | [], acc => pure acc
  | x :: rest, acc =>
    if before x then do
      let sum ← plus acc (value x)
      if after x acc sum then sumWhile rest sum else .fail ()
    else .fail ()

variable {before after value} {l : List α} {acc : Int}

theorem result_sumWhile_cons (x : α) (rest : List α) :
    (sumWhile before after value (x :: rest) acc).result =
      if before x = true then
        if after x acc (toI64 (acc + value x)) = true then
          (sumWhile before after value rest (toI64 (acc + value x))).result
        else .error ()
      else .error () := by
  simp only [sumWhile, Traced.result_ite, Traced.result_bind, Traced.result_fail]
  rfl

theorem sum_takeWhile_nonneg (hvalue : ∀ x ∈ l, before x = true → 0 ≤ value x) :
    0 ≤ ((l.takeWhile before).map value).sum := by
  refine List.sum_nonneg fun v hv => ?_
  obtain ⟨x, hx, rfl⟩ := List.mem_map.mp hv
  exact hvalue x ((List.takeWhile_sublist _).subset hx) (List.mem_takeWhile_imp hx)

/-- The loop does not overflow if the values it may add have a sum that fits. -/
theorem noOverflow_sumWhile {may : α → Bool} (hmay : ∀ x ∈ l, before x = true → may x = true)
    (hvalue : ∀ x ∈ l, may x = true → 0 ≤ value x) (hacc : 0 ≤ acc)
    (h : acc + ((l.takeWhile may).map value).sum ≤ i64Max) :
    NoOverflow (sumWhile before after value l acc) := by
  induction l generalizing acc with
  | nil => exact Traced.logs_pure _
  | cons x rest ih =>
    have hrest := fun y hy => hvalue y (List.mem_cons_of_mem x hy)
    rw [sumWhile]
    split_ifs with hx
    · have hx' := hmay x (.head _) hx
      rw [List.takeWhile_cons_of_pos hx', List.map_cons, List.sum_cons] at h
      have hsum := sum_takeWhile_nonneg hrest
      have h0 := hvalue x (.head _) hx'
      have hfits : InI64 (acc + value x) := ⟨by simp only [i64Min]; omega, by omega⟩
      rw [noOverflow_plus_bind, toI64_of_inI64 hfits]
      refine ⟨hfits, ?_⟩
      split_ifs
      · exact ih (fun y hy => hmay y (List.mem_cons_of_mem x hy)) hrest (by omega) (by omega)
      · exact Traced.logs_fail _
    · exact Traced.logs_fail _

/-- **When the loop overflows.** The second check stops no sum that fits. -/
theorem noOverflow_sumWhile_iff (hvalue : ∀ x ∈ l, before x = true → 0 ≤ value x) (hacc : 0 ≤ acc)
    (hacc' : acc ≤ i64Max)
    (hafter : ∀ x ∈ l, ∀ acc, before x = true → 0 ≤ acc → acc + value x ≤ i64Max →
      after x acc (acc + value x) = true) :
    NoOverflow (sumWhile before after value l acc) ↔
      acc + ((l.takeWhile before).map value).sum ≤ i64Max := by
  refine ⟨fun h => ?_, noOverflow_sumWhile (fun _ _ hx => hx) hvalue hacc⟩
  induction l generalizing acc with
  | nil => simpa using hacc'
  | cons x rest ih =>
    rw [sumWhile] at h
    by_cases hx : before x = true
    · have h0 := hvalue x (.head _) hx
      rw [if_pos hx, noOverflow_plus_bind] at h
      obtain ⟨hfits, hnext⟩ := h
      rw [toI64_of_inI64 hfits, if_pos (hafter x List.mem_cons_self acc hx hacc hfits.2)] at hnext
      rw [List.takeWhile_cons_of_pos hx, List.map_cons, List.sum_cons, ← Int.add_assoc]
      exact ih (fun y hy => hvalue y (List.mem_cons_of_mem x hy)) (by omega) hfits.2
        (fun y hy => hafter y (List.mem_cons_of_mem x hy)) hnext
    · rw [List.takeWhile_cons_of_neg hx]
      simpa using hacc'

/-- With value and sum in the lower half of the range there is no overflow. -/
theorem noOverflow_sumWhile_of_le {bound : Int} (hbound : 2 * bound ≤ i64Max)
    (hvalue : ∀ x ∈ l, before x = true → 0 ≤ value x ∧ value x ≤ bound)
    (hafter : ∀ x ∈ l, ∀ acc sum, after x acc sum = true → 0 ≤ sum ∧ sum ≤ bound)
    (hacc : 0 ≤ acc) (hacc' : acc ≤ bound) : NoOverflow (sumWhile before after value l acc) := by
  induction l generalizing acc with
  | nil => exact Traced.logs_pure _
  | cons x rest ih =>
    rw [sumWhile]
    split_ifs with hx
    · obtain ⟨h0, h1⟩ := hvalue x (.head _) hx
      have hfits : InI64 (acc + value x) := ⟨by simp only [i64Min]; omega, by omega⟩
      rw [noOverflow_plus_bind, toI64_of_inI64 hfits]
      refine ⟨hfits, ?_⟩
      split_ifs with hok
      · obtain ⟨hsum, hsum'⟩ := hafter x (.head _) _ _ hok
        exact ih (fun y hy => hvalue y (List.mem_cons_of_mem x hy))
          (fun y hy => hafter y (List.mem_cons_of_mem x hy)) hsum hsum'
      · exact Traced.logs_fail _
    · exact Traced.logs_fail _

/-- **What the loop returns is the exact sum**, if the second check stops every sum that an
overflow has made. -/
theorem sumWhile_exact {bound r : Int} (hbound : bound ≤ i64Max)
    (hvalue : ∀ x ∈ l, before x = true → 0 ≤ value x ∧ value x ≤ i64Max)
    (hafter : ∀ x ∈ l, ∀ acc sum, 0 ≤ acc → InI64 sum → after x acc sum = true → 0 ≤ sum ∧ sum ≤ bound)
    (hacc : 0 ≤ acc) (hacc' : acc ≤ bound) (h : (sumWhile before after value l acc).result = .ok r) :
    r = acc + (l.map value).sum ∧ 0 ≤ r ∧ r ≤ bound := by
  induction l generalizing acc with
  | nil =>
    cases h
    exact ⟨by simp, hacc, hacc'⟩
  | cons x rest ih =>
    rw [result_sumWhile_cons] at h
    split_ifs at h with hx hok
    obtain ⟨h0, h1⟩ := hvalue x (.head _) hx
    obtain ⟨hsum, hsum'⟩ := hafter x (.head _) _ _ hacc (inI64_toI64 _) hok
    have hexact := toI64_add_exact hacc (hacc'.trans hbound) h0 h1 hsum
    obtain ⟨hr, hr'⟩ := ih (fun y hy => hvalue y (List.mem_cons_of_mem x hy))
      (fun y hy => hafter y (List.mem_cons_of_mem x hy)) hsum hsum' h
    refine ⟨?_, hr'⟩
    rw [hr, hexact, List.map_cons, List.sum_cons, Int.add_assoc]

end

/-- The sum without checks. -/
theorem noOverflow_sum_iff {α : Type} {value : α → Int} {l : List α} {acc : Int} (hacc : InI64 acc) :
    NoOverflow (sumWhile (fun _ => true) (fun _ _ _ => true) value l acc) ↔
      ∀ n, InI64 (acc + ((l.take n).map value).sum) := by
  induction l generalizing acc with
  | nil => simpa [sumWhile, NoOverflow, Traced.logs_pure] using hacc
  | cons x rest ih =>
    rw [sumWhile, if_pos rfl, noOverflow_plus_bind]
    constructor
    · rintro ⟨hfits, hnext⟩ n
      rw [toI64_of_inI64 hfits, if_pos rfl, ih hfits] at hnext
      cases n with
      | zero => simpa using hacc
      | succ n =>
        rw [List.take_succ_cons, List.map_cons, List.sum_cons, ← Int.add_assoc]
        exact hnext n
    · intro h
      have hfits : InI64 (acc + value x) := by simpa using h 1
      refine ⟨hfits, ?_⟩
      rw [toI64_of_inI64 hfits, if_pos rfl, ih hfits]
      intro n
      have hn := h (n + 1)
      rwa [List.take_succ_cons, List.map_cons, List.sum_cons, ← Int.add_assoc] at hn

end Rapids.Lib
