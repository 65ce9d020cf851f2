import Rapids.Lib.OrdMap

/-!
# Rapids.Lib.Iterate

**Loops by iterator** over an ordered map that the loop's body rewrites.

The iterator is the key it points at. The body finds the value that is there *now*, and
the loop goes on at the first key above, in the map as it was before the body ran, so
that the body may erase the key it is at, as in `erase(it++)`. The body may also end the
loop.

Where the body leaves all other keys alone, the loop visits the entries that were in the
map at its start, each once and in order, each with its value at the start. That is
`visit`, a loop over a list, and `iterate_eq_visit`.
-/

namespace Rapids.Lib

universe u v w

namespace OrdMap

variable {κ : Type u} {ν : Type v} [LinearOrder κ]

/-- The smallest key. -/
def first? (m : OrdMap κ ν) : Option κ := m.entries.head?.map Prod.fst

/-- The smallest key above `k`. -/
def next? (m : OrdMap κ ν) (k : κ) : Option κ :=
  (m.entries.find? fun e => decide (k < e.1)).map Prod.fst

/-- The part above a key depends on the part above it. -/
theorem filter_above_congr {m m' : OrdMap κ ν} {k : κ} (h : ∀ k', k' ≠ k → m'.find? k' = m.find? k') :
    (m'.filter fun e => decide (k < e.1)) = m.filter fun e => decide (k < e.1) := by
  refine ext_find? fun k' => ?_
  rw [find?_filter, find?_filter]
  by_cases hk : k < k'
  · rw [h k' hk.ne']
  · cases m'.find? k' <;> cases m.find? k' <;> simp [Option.filter_some, hk]

end OrdMap

/-! ### Loops over a list -/

section
variable {α : Type u} {β : Type v} {σ : Type w} {body : α → σ → Option (σ × Bool)} {s : σ}

/-- Run the body along a list. It returns the new state and whether to stop; `none` is a
failed body. -/
def visit (body : α → σ → Option (σ × Bool)) : List α → σ → Option (σ × Bool)
  | [], s => some (s, false)
  | a :: rest, s => (body a s).bind fun r => if r.2 then some r else visit body rest r.1

theorem visit_append (l l' : List α) : visit body (l ++ l') s =
    (visit body l s).bind fun r => if r.2 then some r else visit body l' r.1 := by
  induction l generalizing s with
  | nil => rfl
  | cons a rest ih =>
    rw [List.cons_append, visit, visit, Option.bind_assoc]
    congr 1
    funext r
    split_ifs with hstop
    · rw [Option.bind_some, if_pos hstop]
    · exact ih

theorem visit_map (g : β → α) (l : List β) :
    visit body (l.map g) s = visit (fun b => body (g b)) l s := by
  induction l generalizing s with
  | nil => rfl
  | cons b rest ih =>
    rw [List.map_cons, visit, visit]
    congr 1
    funext r
    split_ifs
    · rfl
    · exact ih

/-- What every round does to the state, the loop does. -/
theorem visit_rel {R : σ → σ → Prop} (hrefl : ∀ s, R s s) (htrans : ∀ s₁ s₂ s₃, R s₁ s₂ → R s₂ s₃ → R s₁ s₃)
    (hstep : ∀ a s r, body a s = some r → R s r.1) {l : List α} {r : σ × Bool}
    (h : visit body l s = some r) : R s r.1 := by
  induction l generalizing s with
  | nil =>
    cases h
    exact hrefl s
  | cons a rest ih =>
    simp only [visit, Option.bind_eq_some_iff] at h
    obtain ⟨r₁, hround, h⟩ := h
    split_ifs at h
    · cases h
      exact hstep a s _ hround
    · exact htrans _ _ _ (hstep a s r₁ hround) (ih h)

/-- Loops in a loop. -/
theorem visit_flatMap (g : β → List α) (l : List β) :
    visit body (l.flatMap g) s = visit (fun b => visit body (g b)) l s := by
  induction l generalizing s with
  | nil => rfl
  | cons b rest ih =>
    rw [List.flatMap_cons, visit_append, visit]
    congr 1
    funext r
    split_ifs
    · rfl
    · exact ih

end

/-! ### Loops by iterator -/

section
variable {κ : Type u} {ν : Type v} [LinearOrder κ] {σ : Type w}

/-- The loop by iterator; it fails when it runs out of fuel. -/
def iterate (view : σ → OrdMap κ ν) (body : κ × ν → σ → Option (σ × Bool)) :
    Nat → Option κ → σ → Option (σ × Bool)
  | _, none, s => some (s, false)
  | 0, some _, _ => none
  | fuel + 1, some k, s =>
    ((view s).find? k).bind fun v =>
      (body (k, v) s).bind fun r =>
        if r.2 then some r else iterate view body fuel ((view s).next? k) r.1

/-- A body that leaves all keys alone but the one it is called with. -/
def Local (view : σ → OrdMap κ ν) (body : κ × ν → σ → Option (σ × Bool)) : Prop :=
  ∀ k v s r, (view s).find? k = some v → body (k, v) s = some r →
    ∀ k', k' ≠ k → (view r.1).find? k' = (view s).find? k'

variable {view : σ → OrdMap κ ν} {body body' : κ × ν → σ → Option (σ × Bool)}

/-- The body is only run at an entry of the map. -/
theorem iterate_congr (h : ∀ k v s, (view s).find? k = some v → body (k, v) s = body' (k, v) s)
    (fuel : Nat) (it : Option κ) (s : σ) :
    iterate view body fuel it s = iterate view body' fuel it s := by
  induction fuel generalizing it s with
  | zero => cases it <;> rfl
  | succ fuel ih =>
    cases it with
    | none => rfl
    | some k =>
      rw [iterate, iterate]
      cases hv : (view s).find? k with
      | none => rfl
      | some v =>
        rw [Option.bind_some, Option.bind_some, h k v s hv]
        congr 1
        funext r
        split_ifs
        · rfl
        · exact ih _ _

/-- Where the iterator stands: `rest` is what is left of the map from there on. -/
structure Standing (m : OrdMap κ ν) (it : Option κ) (rest : List (κ × ν)) : Prop where
  here : it = rest.head?.map Prod.fst
  left : ∀ k, it = some k → (m.filter fun e => decide (k ≤ e.1)).entries = rest

theorem standing_first (m : OrdMap κ ν) : Standing m m.first? m.entries := by
  refine ⟨rfl, fun k hk => ?_⟩
  refine List.filter_eq_self.mpr fun e he => ?_
  have hsorted := m.sorted
  unfold OrdMap.first? at hk
  cases hm : m.entries with
  | nil =>
    rw [hm] at he
    cases he
  | cons first tl =>
    rw [hm] at hk he hsorted
    cases hk
    rcases List.mem_cons.mp he with rfl | htl
    · simp
    · exact decide_eq_true ((List.pairwise_cons.mp hsorted).1 e htl).le

variable {it : Option κ} {rest : List (κ × ν)}

/-- The entry the iterator points at, and what is above it. -/
theorem Standing.cons {m : OrdMap κ ν} {k : κ} {v : ν}
    (h : Standing m it ((k, v) :: rest)) :
    it = some k ∧ m.find? k = some v ∧ (m.filter fun e => decide (k < e.1)).entries = rest := by
  have hit : it = some k := h.here
  have hleft := h.left k hit
  refine ⟨hit, ?_, ?_⟩
  · refine OrdMap.mem_entries_iff.mp ?_
    have hmem : (k, v) ∈ (m.filter fun e => decide (k ≤ e.1)).entries := by
      rw [hleft]
      exact .head _
    exact List.mem_of_mem_filter hmem
  · have hsplit : (m.filter fun e => decide (k < e.1)).entries =
        ((m.filter fun e => decide (k ≤ e.1)).entries).filter fun e => decide (k < e.1) := by
      show m.entries.filter _ = (m.entries.filter _).filter _
      rw [List.filter_filter]
      refine List.filter_congr fun e _ => ?_
      by_cases hk : k < e.1
      · simp [hk, hk.le]
      · simp [hk]
    have hsorted := (m.filter fun e => decide (k ≤ e.1)).sorted
    rw [hleft] at hsorted
    rw [hsplit, hleft, List.filter_cons, if_neg (by simp)]
    exact List.filter_eq_self.mpr fun e he =>
      decide_eq_true ((List.pairwise_cons.mp hsorted).1 e he)

/-- After a local step the iterator stands at what is left. -/
theorem Standing.next {m m' : OrdMap κ ν} {k : κ} {v : ν}
    (h : Standing m it ((k, v) :: rest)) (hsame : ∀ k', k' ≠ k → m'.find? k' = m.find? k') :
    Standing m' (m.next? k) rest := by
  obtain ⟨-, -, habove⟩ := h.cons
  have hnext : m.next? k = rest.head?.map Prod.fst := by
    rw [OrdMap.next?, ← List.head?_filter, ← habove]
    rfl
  refine ⟨hnext, fun k₁ hk1 => ?_⟩
  have habove' : (m'.filter fun e => decide (k < e.1)).entries = rest := by
    rw [OrdMap.filter_above_congr hsame, habove]
  cases rest with
  | nil =>
    rw [hnext] at hk1
    cases hk1
  | cons e tl =>
    obtain rfl : e.1 = k₁ := Option.some.inj (hnext.symm.trans hk1)
    have hsorted := (m'.filter fun e => decide (k < e.1)).sorted
    rw [habove'] at hsorted
    have hk : k < e.1 := by
      have hmem : e ∈ (m'.filter fun e => decide (k < e.1)).entries := by
        rw [habove']
        exact .head _
      exact of_decide_eq_true (List.mem_filter.mp hmem).2
    have hsplit : (m'.filter fun e' => decide (e.1 ≤ e'.1)).entries =
        ((m'.filter fun e' => decide (k < e'.1)).entries).filter fun e' => decide (e.1 ≤ e'.1) := by
      show m'.entries.filter _ = (m'.entries.filter _).filter _
      rw [List.filter_filter]
      refine List.filter_congr fun e' _ => ?_
      by_cases hle : e.1 ≤ e'.1
      · simp [hle, hk.trans_le hle]
      · simp [hle]
    rw [hsplit, habove']
    refine List.filter_eq_self.mpr fun e' he' => ?_
    rcases List.mem_cons.mp he' with rfl | htl
    · simp
    · exact decide_eq_true ((List.pairwise_cons.mp hsorted).1 e' htl).le

/-- From wherever the iterator stands, the loop visits what is left. -/
theorem iterate_of_standing (hlocal : Local view body) {fuel : Nat}
    {s : σ} (h : Standing (view s) it rest) (hfuel : rest.length ≤ fuel) :
    iterate view body fuel it s = visit body rest s := by
  induction rest generalizing fuel it s with
  | nil =>
    rw [h.here]
    cases fuel <;> rfl
  | cons e rest ih =>
    obtain ⟨k, v⟩ := e
    obtain ⟨hit, hfind, -⟩ := h.cons
    obtain ⟨fuel, rfl⟩ : ∃ n, fuel = n + 1 := ⟨fuel - 1, by simp only [List.length_cons] at hfuel; omega⟩
    rw [hit, iterate, hfind, Option.bind_some, visit]
    cases hb : body (k, v) s with
    | none => rfl
    | some r =>
      rw [Option.bind_some, Option.bind_some]
      split_ifs
      · rfl
      · refine ih (h.next (hlocal k v s r hfind hb)) ?_
        simp only [List.length_cons] at hfuel
        omega

/-- **A loop with a local body visits the entries of the start.** It ends, provided that
each round does, and no entry is skipped or met twice. -/
theorem iterate_eq_visit (hlocal : Local view body) (s : σ) (fuel : Nat)
    (hfuel : (view s).entries.length ≤ fuel) :
    iterate view body fuel (view s).first? s = visit body (view s).entries s :=
  iterate_of_standing hlocal (standing_first (view s)) hfuel

end

end Rapids.Lib
