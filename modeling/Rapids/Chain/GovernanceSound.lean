import Rapids.Chain.Governance

/-!
# Rapids.Chain.GovernanceSound

**Governance values follow the active chain**, in runs whose calls meet a condition.

The database is that of the active chain (`governanceOf`) as long as a call that
does not connect its block comes to no action that is written. Then connecting adds
the entries of one height and disconnecting takes the same ones away, because the
coins a block spent are restored with their scripts. The value in force is found by
an induction over the chain: the block on top either sets it or leaves it.

Costs of usernames and subtokens are accepted in outputs but never written, so the
condition excludes them from the chain.
-/

namespace Rapids.Chain

open Rapids.Lib OrdMap

/-! ### What the chain says -/

section
variable (P : ChainParams) (M : GovernanceParams)

/-- The unspent coins of a chain. -/
def replayCoins : List CBlock → Coins
  | [] => ∅
  | b :: rest =>
    ((connectTxs P (rest.length + 1) b.vtx ⟨replayCoins rest, 0, 0, 0⟩).map fun r => r.2.coins).getD
      (replayCoins rest)

/-- The actions of transactions, one after the other. -/
def txsActions (nHeight : Nat) : List Transaction → Tally → List GovernanceAction
  | [], _ => []
  | tx :: rest, t =>
    txActions M nHeight t.coins tx ++
      match connectTx P nHeight t tx with
      | none => []
      | some (_, t) => txsActions nHeight rest t

/-- The valid governance outputs of a block on top of a chain, in order. -/
def blockActions (rest : List CBlock) (b : CBlock) : List GovernanceAction :=
  txsActions P M (rest.length + 1) b.vtx ⟨replayCoins P rest, 0, 0, 0⟩

/-- The value that the first output for it sets in the highest block that has one. -/
def inForce {α : Type} (sets : GovernanceAction → Option α) (initial : α) : List CBlock → α
  | [] => initial
  | b :: rest => ((blockActions P M rest b).findSome? sets).getD (inForce sets initial rest)

end

/-- The cost an action sets for a type. -/
def GovernanceAction.cost? (type : Nat) : GovernanceAction → Option Int
  | .cost t amount => if t.toNat = type then some (readAmount amount) else none
  | _ => none

/-- The fee script an action sets. -/
def GovernanceAction.fee? : GovernanceAction → Option Script
  | .fee script => some script
  | _ => none

/-- The dev script an action sets. -/
def GovernanceAction.dev? : GovernanceAction → Option Script
  | .dev script => some script
  | _ => none

namespace GovernanceAction

variable {type : Nat} {t : UInt8} {amount : List UInt8} {script : Script}

@[simp] theorem cost?_cost :
    (cost t amount).cost? type = if t.toNat = type then some (readAmount amount) else none := rfl

@[simp] theorem cost?_fee : (fee script).cost? type = none := rfl

@[simp] theorem cost?_dev : (dev script).cost? type = none := rfl

@[simp] theorem fee?_cost : (cost t amount).fee? = none := rfl

@[simp] theorem fee?_fee : (fee script).fee? = some script := rfl

@[simp] theorem fee?_dev : (dev script).fee? = none := rfl

@[simp] theorem dev?_cost : (cost t amount).dev? = none := rfl

@[simp] theorem dev?_fee : (fee script).dev? = none := rfl

@[simp] theorem dev?_dev : (dev script).dev? = some script := rfl

end GovernanceAction

/-- The costs of the chain parameters. -/
def GovernanceParams.cost (M : GovernanceParams) (type : Nat) : Int :=
  if type = governanceCostFixed then M.fixedFee
  else if type = governanceCostManaged then M.managedFee
  else if type = governanceCostVariable then M.variableFee
  else if type = governanceCostUsername then M.usernameFee
  else M.subFee

/-- The database answers what the chain says. -/
structure FollowsChain (P : ChainParams) (M : GovernanceParams) (g : Governance) (chain : List CBlock) :
    Prop where
  cost : ∀ type, 1 ≤ type → type ≤ 5 →
    getCost g type = inForce P M (GovernanceAction.cost? type) (M.cost type) chain
  fee : getFeeScript g = inForce P M GovernanceAction.fee? M.feeScript chain
  dev : getDevScript g = inForce P M GovernanceAction.dev? M.devScript chain

/-- The database of a chain: the actions of its blocks, one after the other. -/
def governanceOf (P : ChainParams) (M : GovernanceParams) : List CBlock → Governance
  | [] => .init M
  | b :: rest => (blockActions P M rest b).foldl (applyUpdate (rest.length + 1)) (governanceOf P M rest)

/-- Is the action written? -/
def GovernanceAction.isWritten : GovernanceAction → Bool
  | .cost type _ =>
    type.toNat = governanceCostFixed || type.toNat = governanceCostManaged ||
      type.toNat = governanceCostVariable
  | _ => true

theorem isWritten_cost {type : UInt8} {amount : List UInt8} :
    (GovernanceAction.cost type amount).isWritten = true ↔
      type.toNat = governanceCostFixed ∨ type.toNat = governanceCostManaged ∨
        type.toNat = governanceCostVariable := by
  simp [GovernanceAction.isWritten, or_assoc]

/-- The cost an action writes for a type. -/
def GovernanceAction.writtenCost? (type : Nat) (a : GovernanceAction) : Option Int :=
  if a.isWritten then a.cost? type else none

/-! ### Lookups -/

section
variable {α : Type} {look look' : Nat → Option α} {v : α} {n : Nat}

/-- The value at the greatest height, which is at most `n`. -/
def Top (look : Nat → Option α) (v : α) (n : Nat) : Prop :=
  ∃ h, h ≤ n ∧ look h = some v ∧ ∀ k, h < k → look k = none

theorem newest_foldl {l : List (Nat × α)} {h : Nat} {acc : Int × α}
    (hacc : acc = ((h : Int), v) ∨ (acc.1 < (h : Int) ∧ (h, v) ∈ l))
    (hmax : ∀ e ∈ l, e.1 < h ∨ e = (h, v)) :
    (l.foldl (fun acc e => if acc.1 < (e.1 : Int) then ((e.1 : Int), e.2) else acc) acc).2 = v := by
  induction l generalizing acc with
  | nil =>
    rcases hacc with rfl | ⟨-, hmem⟩
    · rfl
    · cases hmem
  | cons e rest ih =>
    rw [List.foldl_cons]
    refine ih ?_ fun e he => hmax e (.tail _ he)
    rcases hmax e (.head _) with hlt | rfl
    · rcases hacc with rfl | ⟨hsmall, hmem⟩
      · left
        rw [if_neg (by omega)]
      · right
        refine ⟨?_, (List.mem_cons.mp hmem).resolve_left fun heq => ?_⟩
        · split_ifs
          · exact Int.ofNat_lt.mpr hlt
          · exact hsmall
        · rw [← heq] at hlt
          exact absurd hlt (lt_irrefl h)
    · left
      rcases hacc with rfl | ⟨hsmall, -⟩
      · rw [if_neg (lt_irrefl _)]
      · rw [if_pos hsmall]

theorem newest_of_top {l : List (Nat × α)} (hl : ∀ h w, (h, w) ∈ l ↔ look h = some w)
    (ht : Top look v n) (d : α) : newest l d = v := by
  obtain ⟨h, -, hv, habove⟩ := ht
  refine newest_foldl (.inr ⟨by show (-1 : Int) < h; omega, (hl h v).mpr hv⟩) fun e he => ?_
  obtain ⟨k, w⟩ := e
  have hk := (hl k w).mp he
  rcases lt_trichotomy k h with hlt | rfl | hgt
  · exact .inl hlt
  · rw [hv, Option.some.injEq] at hk
    exact .inr (by rw [hk])
  · rw [habove k hgt] at hk
    cases hk

theorem Top.extend {first : Option α} (ht : Top look v n) (hkeep : ∀ k, k ≠ n + 1 → look' k = look k)
    (hnew : look' (n + 1) = first) : Top look' (first.getD v) (n + 1) := by
  obtain ⟨h, hle, hv, habove⟩ := ht
  cases first with
  | some w =>
    refine ⟨n + 1, le_rfl, hnew, fun k hk => ?_⟩
    rw [hkeep k (by omega)]
    exact habove k (by omega)
  | none =>
    refine ⟨h, by omega, by rw [hkeep h (by omega)]; exact hv, fun k hk => ?_⟩
    by_cases hkn : k = n + 1
    · rw [hkn, hnew]
    · rw [hkeep k hkn]
      exact habove k hk

theorem Top.above (ht : Top look v n) {k : Nat} (hk : n < k) : look k = none := by
  obtain ⟨h, hle, -, habove⟩ := ht
  exact habove k (by omega)

end

section
variable {g : Governance} {h : Nat} {acts : List GovernanceAction}

/-- Costs after updates at a height: the first one written for a type, unless there
was one. -/
theorem costs_update (type k : Nat) :
    (acts.foldl (applyUpdate h) g).costs.find? (toLex (type, k)) =
      if k = h then
        (g.costs.find? (toLex (type, h))).or (acts.findSome? (GovernanceAction.writtenCost? type))
      else g.costs.find? (toLex (type, k)) := by
  induction acts generalizing g with
  | nil =>
    rw [List.foldl_nil, List.findSome?_nil, Option.or_none]
    split_ifs with hk
    · rw [hk]
    · rfl
  | cons a rest ih =>
    rw [List.foldl_cons, ih, List.findSome?_cons]
    cases a with
    | cost t amount =>
      by_cases hknown : (GovernanceAction.cost t amount).isWritten = true
      · have hupd : ∀ x y, (applyUpdate h g (.cost t amount)).costs.find? (toLex (x, y)) =
            if x = t.toNat ∧ y = h then
              (g.costs.find? (toLex (t.toNat, h))).or (some (readAmount amount))
            else g.costs.find? (toLex (x, y)) := by
          intro x y
          rw [applyUpdate, updateCost, if_pos (isWritten_cost.mp hknown), find?_insertNew]
          simp
        rw [hupd, hupd, GovernanceAction.writtenCost?, if_pos hknown, GovernanceAction.cost?]
        by_cases hk : k = h
        · by_cases ht : t.toNat = type
          · subst ht hk
            simp
          · simp [hk, ht, Ne.symm ht]
        · simp [hk]
      · rw [applyUpdate, updateCost, if_neg fun hc => hknown (isWritten_cost.mpr hc),
          GovernanceAction.writtenCost?, if_neg hknown]
    | fee script => rfl
    | dev script => rfl

theorem feeScripts_update (k : Nat) :
    (acts.foldl (applyUpdate h) g).feeScripts.find? k =
      if k = h then (g.feeScripts.find? h).or (acts.findSome? GovernanceAction.fee?)
      else g.feeScripts.find? k := by
  induction acts generalizing g with
  | nil =>
    rw [List.foldl_nil, List.findSome?_nil, Option.or_none]
    split_ifs with hk
    · rw [hk]
    · rfl
  | cons a rest ih =>
    rw [List.foldl_cons, ih, List.findSome?_cons]
    cases a with
    | cost t amount =>
      have hsame : (applyUpdate h g (.cost t amount)).feeScripts = g.feeScripts := by
        rw [applyUpdate, updateCost]
        split_ifs <;> rfl
      rw [hsame]
      rfl
    | fee script =>
      simp only [applyUpdate, updateFeeScript, find?_insertNew, GovernanceAction.fee?]
      split_ifs <;> simp
    | dev script => rfl

theorem devScripts_update (k : Nat) :
    (acts.foldl (applyUpdate h) g).devScripts.find? k =
      if k = h then (g.devScripts.find? h).or (acts.findSome? GovernanceAction.dev?)
      else g.devScripts.find? k := by
  induction acts generalizing g with
  | nil =>
    rw [List.foldl_nil, List.findSome?_nil, Option.or_none]
    split_ifs with hk
    · rw [hk]
    · rfl
  | cons a rest ih =>
    rw [List.foldl_cons, ih, List.findSome?_cons]
    cases a with
    | cost t amount =>
      have hsame : (applyUpdate h g (.cost t amount)).devScripts = g.devScripts := by
        rw [applyUpdate, updateCost]
        split_ifs <;> rfl
      rw [hsame]
      rfl
    | fee script => rfl
    | dev script =>
      simp only [applyUpdate, updateDevScript, find?_insertNew, GovernanceAction.dev?]
      split_ifs <;> simp

theorem costs_revert (type k : Nat) :
    (acts.foldl (applyRevert h) g).costs.find? (toLex (type, k)) =
      if k = h ∧ ∃ a ∈ acts, (a.cost? type).isSome then none else g.costs.find? (toLex (type, k)) := by
  induction acts generalizing g with
  | nil => simp
  | cons a rest ih =>
    rw [List.foldl_cons, ih]
    cases a with
    | cost t amount =>
      simp only [applyRevert, revertUpdateCost, find?_erase, EmbeddingLike.apply_eq_iff_eq,
        Prod.mk.injEq, List.exists_mem_cons_iff, GovernanceAction.cost?_cost]
      by_cases hk : k = h
      · by_cases ht : t.toNat = type
        · simp [hk, ht]
        · simp [hk, ht, Ne.symm ht]
      · simp [hk]
    | fee script => simp [applyRevert, revertUpdateFeeScript]
    | dev script => simp [applyRevert, revertUpdateDevScript]

theorem feeScripts_revert (k : Nat) :
    (acts.foldl (applyRevert h) g).feeScripts.find? k =
      if k = h ∧ ∃ a ∈ acts, (GovernanceAction.fee? a).isSome then none else g.feeScripts.find? k := by
  induction acts generalizing g with
  | nil => simp
  | cons a rest ih =>
    rw [List.foldl_cons, ih]
    cases a with
    | cost t amount => simp [applyRevert, revertUpdateCost]
    | fee script =>
      simp only [applyRevert, revertUpdateFeeScript, find?_erase, List.exists_mem_cons_iff]
      by_cases hk : k = h <;> simp [hk]
    | dev script => simp [applyRevert, revertUpdateDevScript]

theorem devScripts_revert (k : Nat) :
    (acts.foldl (applyRevert h) g).devScripts.find? k =
      if k = h ∧ ∃ a ∈ acts, (GovernanceAction.dev? a).isSome then none else g.devScripts.find? k := by
  induction acts generalizing g with
  | nil => simp
  | cons a rest ih =>
    rw [List.foldl_cons, ih]
    cases a with
    | cost t amount => simp [applyRevert, revertUpdateCost]
    | fee script => simp [applyRevert, revertUpdateFeeScript]
    | dev script =>
      simp only [applyRevert, revertUpdateDevScript, find?_erase, List.exists_mem_cons_iff]
      by_cases hk : k = h <;> simp [hk]

end

/-! ### The database of a chain -/

section
variable {P : ChainParams} {M : GovernanceParams}

theorem top_init {α : Type} {m : OrdMap Nat α} {v : α} (hm : m = (∅ : OrdMap Nat α).insert 0 v) :
    Top m.find? v 0 := by
  subst hm
  refine ⟨0, le_rfl, find?_insert_self _ _ _, fun k hk => ?_⟩
  rw [find?_insert_ne _ _ (by omega)]
  rfl

theorem top_initCost {type : Nat} (h1 : 1 ≤ type) (h5 : type ≤ 5) :
    Top (fun h => (Governance.init M).costs.find? (toLex (type, h))) (M.cost type) 0 := by
  refine ⟨0, le_rfl, ?_, fun k hk => ?_⟩
  · have hcases : type = 1 ∨ type = 2 ∨ type = 3 ∨ type = 4 ∨ type = 5 := by omega
    rcases hcases with rfl | rfl | rfl | rfl | rfl <;> rfl
  · simp only [Governance.init, find?_insert, EmbeddingLike.apply_eq_iff_eq, Prod.mk.injEq,
      find?_empty]
    simp [Nat.ne_of_gt hk]

theorem top_cost {type : Nat} (h1 : 1 ≤ type) (h5 : type ≤ 5) (chain : List CBlock) :
    Top (fun h => (governanceOf P M chain).costs.find? (toLex (type, h)))
      (inForce P M (GovernanceAction.writtenCost? type) (M.cost type) chain) chain.length := by
  induction chain with
  | nil => exact top_initCost h1 h5
  | cons b rest ih =>
    refine ih.extend (fun k hk => ?_) ?_
    · rw [governanceOf, costs_update, if_neg hk]
    · rw [governanceOf, costs_update, if_pos rfl, ih.above (Nat.lt_succ_self _), Option.none_or]

theorem top_fee (chain : List CBlock) :
    Top (governanceOf P M chain).feeScripts.find? (inForce P M GovernanceAction.fee? M.feeScript chain)
      chain.length := by
  induction chain with
  | nil => exact top_init rfl
  | cons b rest ih =>
    refine ih.extend (fun k hk => ?_) ?_
    · rw [governanceOf, feeScripts_update, if_neg hk]
    · rw [governanceOf, feeScripts_update, if_pos rfl, ih.above (Nat.lt_succ_self _), Option.none_or]

theorem top_dev (chain : List CBlock) :
    Top (governanceOf P M chain).devScripts.find? (inForce P M GovernanceAction.dev? M.devScript chain)
      chain.length := by
  induction chain with
  | nil => exact top_init rfl
  | cons b rest ih =>
    refine ih.extend (fun k hk => ?_) ?_
    · rw [governanceOf, devScripts_update, if_neg hk]
    · rw [governanceOf, devScripts_update, if_pos rfl, ih.above (Nat.lt_succ_self _), Option.none_or]

theorem getCost_governanceOf {type : Nat} (h1 : 1 ≤ type) (h5 : type ≤ 5) (chain : List CBlock) :
    getCost (governanceOf P M chain) type =
      inForce P M (GovernanceAction.writtenCost? type) (M.cost type) chain := by
  refine newest_of_top (fun h w => ?_) (top_cost h1 h5 chain) 0
  rw [List.mem_filterMap, ← mem_entries_iff]
  constructor
  · rintro ⟨⟨key, cost⟩, hmem, hsome⟩
    split_ifs at hsome with ht
    rw [Option.some.injEq, Prod.mk.injEq] at hsome
    obtain ⟨rfl, rfl⟩ := hsome
    rw [← ht]
    exact hmem
  · intro hmem
    exact ⟨_, hmem, if_pos rfl⟩

theorem getFeeScript_governanceOf (chain : List CBlock) :
    getFeeScript (governanceOf P M chain) = inForce P M GovernanceAction.fee? M.feeScript chain :=
  newest_of_top (fun _ _ => OrdMap.mem_entries_iff) (top_fee chain) _

theorem getDevScript_governanceOf (chain : List CBlock) :
    getDevScript (governanceOf P M chain) = inForce P M GovernanceAction.dev? M.devScript chain :=
  newest_of_top (fun _ _ => OrdMap.mem_entries_iff) (top_dev chain) _

/-- All actions of a chain are of types that are written. -/
def AllWritten (P : ChainParams) (M : GovernanceParams) : List CBlock → Prop
  | [] => True
  | b :: rest => (∀ a ∈ blockActions P M rest b, a.isWritten = true) ∧ AllWritten P M rest

theorem AllWritten.inForce {chain : List CBlock} (h : AllWritten P M chain) (type : Nat) (initial : Int) :
    inForce P M (GovernanceAction.writtenCost? type) initial chain =
      inForce P M (GovernanceAction.cost? type) initial chain := by
  induction chain with
  | nil => rfl
  | cons b rest ih =>
    have hsame : (blockActions P M rest b).findSome? (GovernanceAction.writtenCost? type) =
        (blockActions P M rest b).findSome? (GovernanceAction.cost? type) := by
      have hall := h.1
      generalize blockActions P M rest b = acts at hall ⊢
      induction acts with
      | nil => rfl
      | cons a acts ih =>
        rw [List.findSome?_cons, List.findSome?_cons, GovernanceAction.writtenCost?,
          if_pos (hall a List.mem_cons_self), ih fun a ha => hall a (List.mem_cons_of_mem _ ha)]
    rw [Chain.inForce, Chain.inForce, hsame, ih h.2]

/-- **The database of a chain whose actions are all written.** -/
theorem followsChain_governanceOf {chain : List CBlock} (h : AllWritten P M chain) :
    FollowsChain P M (governanceOf P M chain) chain where
  cost type h1 h5 := by rw [getCost_governanceOf h1 h5, h.inForce]
  fee := getFeeScript_governanceOf chain
  dev := getDevScript_governanceOf chain

theorem costs_above (chain : List CBlock) (type : Nat) {k : Nat} (hk : chain.length < k) :
    (governanceOf P M chain).costs.find? (toLex (type, k)) = none := by
  induction chain generalizing k with
  | nil =>
    simp only [governanceOf, Governance.init, find?_insert, EmbeddingLike.apply_eq_iff_eq,
      Prod.mk.injEq, find?_empty]
    simp [Nat.ne_of_gt (show 0 < k from hk)]
  | cons b rest ih =>
    rw [List.length_cons] at hk
    rw [governanceOf, costs_update, if_neg (by omega)]
    exact ih (by omega)

/-- Scripts that were written at a height where there was nothing, and erased there. -/
theorem scripts_back {m m' : OrdMap Nat Script} {h : Nat} {first : Option Script} {gone : Prop}
    [Decidable gone] (hfree : m.find? h = none) (hfirst : ¬ gone → first = none)
    (hm : ∀ k, m'.find? k =
      if k = h ∧ gone then none else if k = h then (m.find? h).or first else m.find? k) : m' = m := by
  refine ext_find? fun k => ?_
  rw [hm, hfree, Option.none_or]
  by_cases hk : k = h
  · rw [hk, hfree, if_pos rfl]
    split_ifs with hgone
    · rfl
    · exact hfirst fun hg => hgone ⟨rfl, hg⟩
  · rw [if_neg fun hc => hk hc.1, if_neg hk]

/-- Reverting the actions of the block on top leads back to the chain below it. -/
theorem revert_governanceOf {b : CBlock} {rest : List CBlock} {acts : List GovernanceAction}
    (hsub : ∀ a ∈ blockActions P M rest b, a ∈ acts) :
    acts.foldl (applyRevert (rest.length + 1)) (governanceOf P M (b :: rest)) = governanceOf P M rest := by
  have herase : ∀ {α : Type} (f f' : GovernanceAction → Option α), (∀ a, (f a).isSome → (f' a).isSome) →
      (¬ ∃ a ∈ acts, (f' a).isSome) → (blockActions P M rest b).findSome? f = none := by
    intro α f f' hff hno
    rw [List.findSome?_eq_none_iff]
    intro a ha
    by_contra hsome
    exact hno ⟨a, hsub a ha, hff a (Option.isSome_iff_ne_none.mpr hsome)⟩
  have hcosts : (acts.foldl (applyRevert (rest.length + 1)) (governanceOf P M (b :: rest))).costs =
      (governanceOf P M rest).costs := by
    refine ext_find? fun key => ?_
    obtain ⟨type, k, rfl⟩ : ∃ type k, key = toLex (type, k) := ⟨_, _, rfl⟩
    have hfree := costs_above (P := P) (M := M) rest type (Nat.lt_succ_self _)
    rw [costs_revert, governanceOf, costs_update, hfree, Option.none_or]
    by_cases hk : k = rest.length + 1
    · subst hk
      rw [hfree, if_pos rfl]
      split_ifs with hex
      · rfl
      · refine herase _ (GovernanceAction.cost? type) (fun a ha => ?_) fun hc => hex ⟨rfl, hc⟩
        rw [GovernanceAction.writtenCost?] at ha
        split_ifs at ha with hw
        · exact ha
        · cases ha
    · rw [if_neg fun hc => hk hc.1, if_neg hk]
  have hfees : (acts.foldl (applyRevert (rest.length + 1)) (governanceOf P M (b :: rest))).feeScripts =
      (governanceOf P M rest).feeScripts := by
    refine scripts_back ((top_fee rest).above (Nat.lt_succ_self _))
      (herase GovernanceAction.fee? GovernanceAction.fee? fun a ha => ha) fun k => ?_
    rw [feeScripts_revert, governanceOf, feeScripts_update]
  have hdevs : (acts.foldl (applyRevert (rest.length + 1)) (governanceOf P M (b :: rest))).devScripts =
      (governanceOf P M rest).devScripts := by
    refine scripts_back ((top_dev rest).above (Nat.lt_succ_self _))
      (herase GovernanceAction.dev? GovernanceAction.dev? fun a ha => ha) fun k => ?_
    rw [devScripts_revert, governanceOf, devScripts_update]
  generalize acts.foldl (applyRevert (rest.length + 1)) (governanceOf P M (b :: rest)) = g at hcosts hfees hdevs
  obtain ⟨costs, feeScripts, devScripts⟩ := g
  dsimp only at hcosts hfees hdevs
  rw [hcosts, hfees, hdevs]

end

/-! ### Blocks -/

section
variable {P : ChainParams} {M : GovernanceParams} {C : LeftOutChecks} {nHeight : Nat}

theorem reachedActions_eq {txs : List Transaction} {t t' : Tally} {undos : List (List Coin)}
    (hpass : C.passInputs P nHeight txs t = true) (h : connectTxs P nHeight txs t = some (undos, t')) :
    reachedActions P M C nHeight txs t = txsActions P M nHeight txs t := by
  induction txs generalizing t undos with
  | nil => rfl
  | cons tx rest ih =>
    obtain ⟨undo, t₁, undos', h1, h2, -⟩ := connectTxs_cons h
    rw [LeftOutChecks.passInputs, h1, Bool.and_eq_true] at hpass
    obtain ⟨out, hout, -, -, hkind⟩ := connectTx_cases h1
    have hbefore : checkBeforeOutputs P C nHeight t rest tx = true := by
      rw [checkBeforeOutputs, hpass.1, hout]
      rcases hkind with ⟨hcb, -⟩ | ⟨-, hin, -⟩
      · rw [hcb]
        rfl
      · rw [hin, Bool.or_true]
        rfl
    rw [reachedActions, if_pos hbefore, h1, txsActions, h1]
    dsimp only
    rw [ih hpass.2 h2]

theorem restoresKey_spendInputs {key : Script} {ins : List TxIn} {v : Coins} (hv : Coins.Stored v)
    (hnd : (ins.map TxIn.prevout).Nodup) (hin : ∀ i ∈ ins, Coins.haveCoin v i.prevout = true)
    (hspends : spendsKey key v ins = true) :
    restoresKey key ins (Coins.spendInputs ins v).1 (Coins.spendInputs ins v).2 = true := by
  induction ins generalizing v with
  | nil => cases hspends
  | cons i rest ih =>
    have hfind := Coins.find_of_haveCoin (hin i (.head _))
    have hrest := Coins.haveCoin_rest hnd hin
    have hspent : Coins.spendInputs (i :: rest) v =
        (Coins.accessCoin v i.prevout :: (Coins.spendInputs rest (v.erase i.prevout)).1,
          (Coins.spendInputs rest (v.erase i.prevout)).2) := rfl
    rw [hspent, restoresKey]
    rw [spendsKey, List.any_cons, Bool.or_eq_true] at hspends
    rcases hspends with hfirst | hlater
    · -- the coin of the first input is restored last
      rw [Coins.restoreInputs_spendInputs (hv.erase i.prevout) hnd.of_cons hrest]
      dsimp only
      rw [Coins.applyTxInUndo_free (hv _ _ hfind) (find?_erase_self v i.prevout)]
      dsimp only
      rw [Coins.accessCoin_of_find (find?_insert_self _ _ _), hfirst, Bool.or_true]
    · have hsame : spendsKey key (v.erase i.prevout) rest = true := by
        rw [List.any_eq_true] at hlater
        obtain ⟨j, hj, hkey⟩ := hlater
        refine List.any_eq_true.mpr ⟨j, hj, ?_⟩
        rwa [Coins.accessCoin_rest hnd j hj]
      rw [ih (hv.erase i.prevout) hnd.of_cons hrest hsame, Bool.true_or]

theorem mem_revertedActions {txs : List Transaction} {t t' : Tally} {undos : List (List Coin)}
    (hv : Coins.Stored t.coins) (hu : Undoable nHeight txs)
    (h : connectTxs P nHeight txs t = some (undos, t')) {u : Untally} (huc : u.coins = t'.coins) :
    ∀ a ∈ txsActions P M nHeight txs t, a ∈ revertedActions M.masterKey txs undos u := by
  -- the rest is undone first, which leads back to the view after the first transaction
  induction txs generalizing t undos u with
  | nil =>
    intro a ha
    cases ha
  | cons tx rest ih =>
    obtain ⟨undo, t₁, undos', h1, h2, rfl⟩ := connectTxs_cons h
    have hk := hu.keepable tx (.head _)
    have hnd := hu.nodup tx (.head _)
    have hv1 := (connectTx_stored hv hk hnd h1).1
    obtain ⟨u₁, hd1, hc1, -⟩ := disconnectTxs_connectTxs hv1 hu.tail h2 huc
    intro a ha
    rw [txsActions, h1, List.mem_append] at ha
    rw [revertedActions, hd1, List.mem_append]
    rcases ha with hfirst | hlater
    · right
      obtain ⟨out, hout, hupdate, -, hkind⟩ := connectTx_cases h1
      rw [txActions] at hfirst
      split_ifs at hfirst with hgov
      · simp only [Bool.and_eq_true, Bool.not_eq_true', decide_eq_true_eq] at hgov
        obtain ⟨⟨⟨hcb, -⟩, -⟩, hspends⟩ := hgov
        rcases updateCoins_eq_some hupdate with ⟨hcb', -⟩ | ⟨-, rfl, hadd⟩
        · rw [hcb] at hcb'
          cases hcb'
        obtain ⟨hcb', -⟩ | ⟨-, hchk, -⟩ := hkind
        · rw [hcb] at hcb'
          cases hcb'
        have hin := haveCoin_of_haveInputs hcb (haveInputs_of_checkTxInputs hchk)
        have hspend := Coins.spendOutputs_addCoins (Coins.spendInputs_stored hv) hk hadd
        dsimp only
        rw [hout, Option.isSome_some, if_pos rfl, revertedTxActions, hc1, hspend]
        rw [Coins.restoreInputs_spendInputs hv hnd hin, restoresKey_spendInputs hv hnd hin hspends, hcb]
        exact hfirst
      · cases hfirst
    · left
      exact ih hv1 hu.tail h2 huc a hlater

end

/-! ### Runs -/

/-- **The condition on a call.** A call of `ConnectBlock` that does not connect its
block comes to no action that is written; one that connects it comes to no other
ones, and its block fits the undo records. -/
def governSafe (P : ChainParams) (M : GovernanceParams) (keys : PubKeys) (s : GovernanceNode) :
    GovernanceEvent → Bool
  | .connect N C b =>
    match connects P keys N C s.node b with
    | some _ =>
      connectFits s.node (.connect N b) && (calledActions P M N C s.node b).all GovernanceAction.isWritten
    | none => (calledActions P M N C s.node b).all fun a => !a.isWritten
  | .check N C b => (calledActions P M N C s.node b).all fun a => !a.isWritten
  | .disconnect _ => true

/-- Calls that meet the condition. -/
def safeGovernanceStep (P : ChainParams) (M : GovernanceParams) (keys : PubKeys) :
    GovernanceNode → GovernanceEvent → Option GovernanceNode :=
  guarded (governSafe P M keys) fun s e => some (governanceStep P M keys s e)

/-- The database is that of the active chain. -/
structure GovernanceInv (P : ChainParams) (M : GovernanceParams) (g : Int) (s : GovernanceNode) : Prop where
  chain : ChainInv P g s.node
  governance : s.governance = governanceOf P M s.node.chain
  written : AllWritten P M s.node.chain

section
variable {P : ChainParams} {M : GovernanceParams} {keys : PubKeys} {g : Int} {s : GovernanceNode}

theorem foldl_update_unwritten {acts : List GovernanceAction} (h : ∀ a ∈ acts, a.isWritten = false)
    (height : Nat) (d : Governance) : acts.foldl (applyUpdate height) d = d := by
  induction acts with
  | nil => rfl
  | cons a rest ih =>
    have ha := h a (.head _)
    cases a with
    | cost t amount =>
      rw [List.foldl_cons, applyUpdate, updateCost, if_neg fun hc => ?_]
      · exact ih fun a ha => h a (.tail _ ha)
      · rw [isWritten_cost.mpr hc] at ha
        cases ha
    | fee script => cases ha
    | dev script => cases ha

theorem Replay.coins {chain : List CBlock} {tip : ChainTip} (h : Replay P g chain tip) :
    tip.coins = replayCoins P chain := by
  induction h with
  | genesis => rfl
  | connect hrest hext ih =>
    obtain ⟨-, ⟨-, hnone, -⟩ | ⟨-, -, undos, t, htxs, -, -, rfl⟩⟩ := connectCore_cases hext.core
    · cases hnone
    · rw [replayCoins, ← ih, htxs]
      rfl

theorem GovernanceInv.attempt {N : NodeState} {C : LeftOutChecks} {b : CBlock}
    (hi : GovernanceInv P M g s)
    (hnone : ((calledActions P M N C s.node b).all fun a => !a.isWritten) = true) :
    GovernanceInv P M g
      ⟨s.node, (calledActions P M N C s.node b).foldl (applyUpdate (s.node.chain.length + 1)) s.governance⟩ := by
  have hun : ∀ a ∈ calledActions P M N C s.node b, a.isWritten = false := by
    simpa using hnone
  refine ⟨hi.chain, ?_, hi.written⟩
  rw [foldl_update_unwritten hun]
  exact hi.governance

theorem calledActions_connected {N : NodeState} {C : LeftOutChecks} {b : CBlock} {node : ChainState}
    (hi : ChainInv P g s.node) (h : connects P keys N C s.node b = some node) :
    chainStep P keys s.node (.connect N b) = some node ∧ node.chain = b :: s.node.chain ∧
      calledActions P M N C s.node b = blockActions P M s.node.chain b := by
  unfold connects at h
  split_ifs at h with hpass
  rw [Bool.and_eq_true] at hpass
  have hstep := h
  simp only [chainStep] at h
  split_ifs at h with hgen
  rw [Option.map_eq_some_iff] at h
  obtain ⟨⟨undo, tip⟩, hconnect, rfl⟩ := h
  refine ⟨hstep, rfl, ?_⟩
  unfold connectBlock at hconnect
  split_ifs at hconnect with hcheck
  obtain ⟨hprev, ⟨hgen', -⟩ | ⟨-, hpos, undos, t, htxs, -, -, -⟩⟩ := connectCore_cases hconnect
  · exact absurd hgen' hgen
  have hloop : reachesLoop P N s.node b = true := by
    rw [reachesLoop, hcheck, hprev]
    cases hup : networkUpgradeActive P.upgradePos (s.node.chain.length + 1) with
    | false => simp [hgen]
    | true => simp [hgen, (hpos hup).1]
  rw [calledActions, if_pos hloop, reachedActions_eq hpass.1 htxs, blockActions, hi.replay.coins]

theorem GovernanceInv.connect {N : NodeState} {C : LeftOutChecks} {b : CBlock}
    (hi : GovernanceInv P M g s) (hsafe : governSafe P M keys s (.connect N C b) = true) :
    GovernanceInv P M g (governanceStep P M keys s (.connect N C b)) := by
  rw [governanceStep]
  rw [governSafe] at hsafe
  cases hc : connects P keys N C s.node b with
  | none =>
    rw [hc] at hsafe
    exact hi.attempt hsafe
  | some node =>
    rw [hc] at hsafe
    simp only [Bool.and_eq_true, List.all_eq_true] at hsafe
    obtain ⟨hstep, hchain, hacts⟩ := calledActions_connected hi.chain hc
    rw [hacts] at hsafe
    refine ⟨connect_inv hi.chain hsafe.1 hstep, ?_, ?_⟩
    · rw [Option.getD_some, hchain, hacts, hi.governance]
      rfl
    · rw [Option.getD_some, hchain]
      exact ⟨hsafe.2, hi.written⟩

section
variable (hmax : P.nMaxMoneyOut ≤ i64Max)
  (hmature : 0 < P.nCoinbaseMaturity)
  (hg : InI64 g)
  (hzc : ∀ n < 1073741824, networkUpgradeActive P.upgradeZC n = false)
include hmax hmature hg hzc

theorem mem_revertedByCall
    {Z : Zerocoins}
    {b : CBlock} {rest : List CBlock} {n : ChainState} {t : ChainTip} {undo : BlockUndo}
    (hchain : n.chain = b :: rest) (hrest : Replay P g rest t) (hext : Extends P rest t b undo n.tip)
    (hundo : n.undo (b :: rest) = some undo) :
    ∀ a ∈ blockActions P M rest b, a ∈ revertedByCall P M keys Z n := by
  have hbal := hrest.balanced hmax hmature hg
  have hu := (hbal.extend hmax hmature hext).1
  obtain ⟨N, hcheck⟩ := hext.checked
  obtain ⟨cb, txs, hvtx, hcb, -⟩ := checkBlock_vtx hcheck
  obtain ⟨-, ⟨-, hnone, -⟩ | ⟨-, -, undos, t', htxs, -, htail, htip⟩⟩ := connectCore_cases hext.core
  · cases hnone
  cases htail
  have hhead : undos = [] :: undos.tail := connectTxs_coinbase hcb (hvtx ▸ htxs)
  have hread : readBlockUndo keys undos.tail = some undos.tail :=
    readBlockUndo_eq fun u hmem => (connectTxs_stored hbal.stored hu htxs).2 u (List.mem_of_mem_tail hmem)
  have hlen : undos.tail.length + 1 = b.vtx.length := by
    have hlen := connectTxs_length htxs
    rw [hhead] at hlen
    simpa using hlen
  have hzpiv : updateZPIVSupplyDisconnect P (rest.length + 1) (Z.mints b) Z.supply = true := by
    rw [updateZPIVSupplyDisconnect, hzc _ hext.height]
    rfl
  intro a ha
  rw [blockActions, ← hrest.coins] at ha
  have hmem := mem_revertedActions hbal.stored hu htxs (u := ⟨n.tip.coins, true, 0, 0⟩)
    (by rw [htip]) a ha
  rw [hhead] at hmem
  rw [revertedByCall, hchain]
  dsimp only
  rw [hundo, Option.bind_some, hread]
  dsimp only
  rw [if_pos (by rw [htip, hlen, hzpiv]; simp)]
  exact hmem

theorem GovernanceInv.disconnect
    {Z : Zerocoins}
    (hi : GovernanceInv P M g s) : GovernanceInv P M g (governanceStep P M keys s (.disconnect Z)) := by
  rw [governanceStep]
  cases hchain : s.node.chain with
  | nil =>
    have hstay : chainStep P keys s.node (.disconnect Z) = none := by
      rw [chainStep, hchain]
    rw [hstay, revertedByCall, hchain]
    exact hi
  | cons b rest =>
    cases hundo : s.node.undo (b :: rest) with
    | none =>
      -- without undo records the call fails before it does anything
      have hstay : chainStep P keys s.node (.disconnect Z) = none := by
        rw [chainStep, hchain]
        simp [hundo, disconnectBlock]
      rw [hstay, revertedByCall, hchain]
      dsimp only
      rw [hundo]
      exact hi
    | some undo =>
      obtain ⟨t, hrest, hext, hback⟩ := hi.chain.back hmax hmature hg hzc keys Z hchain hundo
      have hstep : chainStep P keys s.node (.disconnect Z) = some ⟨rest, t, s.node.undo⟩ := by
        rw [chainStep, hchain]
        simp [hundo, hback]
      have hwritten := hi.written
      rw [hchain] at hwritten
      rw [hstep]
      refine ⟨disconnect_inv hmax hmature hg hzc hi.chain hstep, ?_, hwritten.2⟩
      dsimp only [Option.getD_some]
      rw [hi.governance, hchain]
      exact revert_governanceOf (mem_revertedByCall hmax hmature hg hzc hchain hrest hext hundo)

end

end

/-- **Governance values follow the active chain**, after every sequence of calls that
meet the condition. -/
theorem governance_follows_chain {P : ChainParams} {M : GovernanceParams} {keys : PubKeys} {g : Int}
    (hmax : P.nMaxMoneyOut ≤ i64Max) (hmature : 0 < P.nCoinbaseMaturity)
    (hzc : ∀ n < 1073741824, networkUpgradeActive P.upgradeZC n = false) (hg : InI64 g)
    {es : List GovernanceEvent} {s : GovernanceNode}
    (h : run (safeGovernanceStep P M keys) (.genesis P M g) es = some s) :
    FollowsChain P M s.governance s.node.chain := by
  have hinit : GovernanceInv P M g (.genesis P M g) :=
    ⟨⟨.genesis, fun entry u hu => by cases hu⟩, rfl, trivial⟩
  have hinv : GovernanceInv P M g s := by
    refine run_invariant (fun s e s' hi hstep => ?_) hinit h
    obtain ⟨hsafe, hstep⟩ := guarded_eq_some.mp hstep
    cases hstep
    cases e with
    | connect N C b => exact hi.connect hsafe
    | check N C b => exact hi.attempt hsafe
    | disconnect Z => exact hi.disconnect hmax hmature hg hzc
  rw [hinv.governance]
  exact followsChain_governanceOf hinv.written

/-! ### A block that is connected, and one that is only checked -/

/-- A governance from the first block on. -/
def testGovernance : GovernanceParams where
  heightGovernance := 0
  masterKey := [0x52]
  fixedFee := 100
  managedFee := 200
  variableFee := 300
  usernameFee := 400
  subFee := 500
  feeScript := [0x53]
  devScript := [0x54]

/-- Nothing else is wrong. -/
def allPass : LeftOutChecks := ⟨fun _ _ _ => true, fun _ => true⟩

/-- Ten blocks, the first of which pays the governance's key. -/
def governedChain : List GovernanceEvent :=
  .connect syncedNode allPass ⟨1, [⟨101, [⟨⟨0, 4294967295⟩, [1, 1]⟩], [⟨1000, [0x52]⟩]⟩]⟩ ::
    (List.range 9).map fun k => .connect syncedNode allPass ⟨k + 2, [coinbaseOf (102 + k) 1000]⟩

/-- Block 11 sets the cost of fixed properties to 5. -/
def costBlock : CBlock :=
  ⟨11, [coinbaseOf 111 1000,
    ⟨200, [⟨⟨101, 0⟩, []⟩], [⟨0, [0x6a, 12, 71, 65, 67, 1, 5, 0, 0, 0, 0, 0, 0, 0]⟩, ⟨900, [0x51]⟩]⟩]⟩

/-- The block is connected, disconnected and connected again. -/
theorem governance_follows_chain_reconnected :
    ∃ s, run (safeGovernanceStep mainParams testGovernance noKeys) (.genesis mainParams testGovernance 0)
        (governedChain ++ [.connect syncedNode allPass costBlock, .disconnect noZerocoins,
          .connect syncedNode allPass costBlock]) = some s ∧
      getCost s.governance governanceCostFixed = 5 ∧
      FollowsChain mainParams testGovernance s.governance s.node.chain := by
  have hrun : (run (safeGovernanceStep mainParams testGovernance noKeys)
      (.genesis mainParams testGovernance 0)
      (governedChain ++ [.connect syncedNode allPass costBlock, .disconnect noZerocoins,
        .connect syncedNode allPass costBlock])).map
        (fun s => getCost s.governance governanceCostFixed) = some 5 := by
    decide +kernel
  obtain ⟨s, hs, hcost⟩ := Option.map_eq_some_iff.mp hrun
  have hzc : ∀ n < 1073741824, networkUpgradeActive mainParams.upgradeZC n = false := by
    intro n hn
    simp only [networkUpgradeActive, mainParams, decide_eq_false_iff_not]
    omega
  exact ⟨s, hs, hcost, governance_follows_chain (by decide) (by decide) hzc ⟨by decide, by decide⟩ hs⟩

/-- The block is only checked, and the cost is 5 where the chain has none. -/
theorem checked_block_governs :
    ¬ ∀ (P : ChainParams) (M : GovernanceParams) (keys : PubKeys) (es : List GovernanceEvent),
      FollowsChain P M (es.foldl (governanceStep P M keys) (.genesis P M 0)).governance
        (es.foldl (governanceStep P M keys) (.genesis P M 0)).node.chain := by
  intro hall
  have hcost := (hall mainParams testGovernance noKeys
    (governedChain ++ [.check syncedNode allPass costBlock])).cost governanceCostFixed (by decide) (by decide)
  revert hcost
  decide +kernel

end Rapids.Chain
