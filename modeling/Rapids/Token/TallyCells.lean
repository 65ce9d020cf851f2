import Rapids.Token.Tally

/-!
# Rapids.Token.TallyCells

The **cells** of one address's tally over whole runs of `updateMoney`.

A `MoneyCall` is a call as a caller writes it: the type is a number, which may
be out of range, and the amount is any 64-bit one. `MoneyCall.run_cell` says
once what a call does to each cell. From it follows, by induction on the calls,
that a cell is the exact sum of the amounts of its successful calls and that it
stays within its range, so the sum inside a call never wraps.
-/

namespace Rapids.Token

open Rapids.Lib OrdMap

/-- The tally type with a number, if there is one below `TALLY_TYPE_COUNT`. -/
def TallyType.ofCode? : Nat → Option TallyType
  | 0 => some .balance
  | 1 => some .sellofferReserve
  | 2 => some .acceptReserve
  | 3 => some .pending
  | 4 => some .metadexReserve
  | _ => none

/-- The arguments of a call of `updateMoney`. -/
structure MoneyCall where
  propertyId : PropertyId
  amount : Int
  ttype : Nat
  /-- The amount is a 64-bit number. -/
  fits : InI64 amount

variable (c : MoneyCall) (t : CMPTally) (p : PropertyId)

/-- Does the call name this cell? -/
def MoneyCall.Names (tt : TallyType) : Prop :=
  c.propertyId = p ∧ TallyType.ofCode? c.ttype = some tt

instance (c : MoneyCall) (p : PropertyId) (tt : TallyType) : Decidable (c.Names p tt) :=
  inferInstanceAs (Decidable (_ ∧ _))

/-- `CMPTally::updateMoney`, the range of the type checked first. -/
def MoneyCall.run : Bool × CMPTally :=
  match TallyType.ofCode? c.ttype with
  | none => (false, t)
  | some tt => CMPTally.updateMoney t c.propertyId c.amount tt

/-- The calls made one after the other on an empty tally. -/
def runCalls (calls : List MoneyCall) : CMPTally :=
  calls.foldl (fun t c => (c.run t).2) ∅

/-- The sum of the amounts of the successful calls that name a cell, from a
tally on. -/
def credited (p : PropertyId) (tt : TallyType) : CMPTally → List MoneyCall → Int
  | _, [] => 0
  | t, c :: rest =>
    (if (c.run t).1 = true ∧ c.Names p tt then c.amount else 0) + credited p tt (c.run t).2 rest

/-! ### One call -/

theorem updateMoney_fst (amount : Int) (tt : TallyType) :
    (CMPTally.updateMoney t p amount tt).1 = false ↔
      amount = 0 ∨ isOverflow (CMPTally.getMoney t p tt) amount = true ∨
        (tt ≠ .pending ∧ CMPTally.getMoney t p tt + amount < 0) := by
  unfold CMPTally.updateMoney CMPTally.getMoney
  dsimp only
  split_ifs with h0 ho hn
  · simp [h0]
  · simp [ho]
  · exact iff_of_true rfl (.inr (.inr hn))
  · simp [h0, ho, hn]

/-- A refused update may create a record of zeroes, and changes no cell. -/
theorem updateMoney_cell (q : PropertyId) (amount : Int) (tt ty : TallyType) :
    CMPTally.getMoney (CMPTally.updateMoney t p amount tt).2 q ty = CMPTally.getMoney t q ty +
      if (CMPTally.updateMoney t p amount tt).1 = true ∧ p = q ∧ tt = ty then amount else 0 := by
  have hkeep : CMPTally.getMoney (t.insert p ((find? t p).getD {})) q ty =
      CMPTally.getMoney t q ty := by
    rw [getMoney_insert]
    by_cases hq : q = p
    · rw [if_pos hq, hq, CMPTally.getMoney]
    · rw [if_neg hq]
  unfold CMPTally.updateMoney
  by_cases h0 : amount = 0
  · simp [h0]
  by_cases ho : isOverflow (((find? t p).getD {}).get tt) amount = true
  · simp [h0, ho, hkeep]
  by_cases hn : tt ≠ .pending ∧ ((find? t p).getD {}).get tt + amount < 0
  · rw [if_neg h0, if_neg ho, if_pos hn]
    simp [hkeep]
  · rw [if_neg h0, if_neg ho, if_neg hn, getMoney_insert, BalanceRecord.get_set]
    by_cases hq : p = q
    · subst hq
      by_cases hty : tt = ty
      · simp [hty, CMPTally.getMoney]
      · simp [hty, Ne.symm hty, CMPTally.getMoney]
    · simp [hq, Ne.symm hq]

/-- A call adds its amount to the cell it names if it succeeds, and nothing to
any other. -/
theorem MoneyCall.run_cell (tt : TallyType) :
    CMPTally.getMoney (c.run t).2 p tt = CMPTally.getMoney t p tt +
      if (c.run t).1 = true ∧ c.Names p tt then c.amount else 0 := by
  cases h : TallyType.ofCode? c.ttype with
  | none => simp [MoneyCall.run, h]
  | some ty =>
    simp only [MoneyCall.run, MoneyCall.Names, h, Option.some.injEq]
    exact updateMoney_cell t c.propertyId p c.amount ty tt

/-! ### The range of a cell -/

/-- The values a cell of a type may have. -/
def InCell (tt : TallyType) (x : Int) : Prop := InI64 x ∧ (tt ≠ .pending → 0 ≤ x)

/-- From a value in range, the two comparisons of `isOverflow` say whether the
sum leaves the 64-bit range. -/
theorem isOverflow_iff {a b : Int} (ha : InI64 a) : isOverflow a b = true ↔ ¬ InI64 (a + b) := by
  rw [← Bool.not_eq_false, isOverflow_eq_false]
  unfold InI64 at ha ⊢
  simp only [i64Min, i64Max] at ha ⊢
  omega

theorem MoneyCall.run_fst {t : CMPTally}
    (ht : ∀ p tt, InCell tt (CMPTally.getMoney t p tt)) :
    (c.run t).1 = false ↔ c.amount = 0 ∨ TallyType.ofCode? c.ttype = none ∨
      ∃ tt, TallyType.ofCode? c.ttype = some tt ∧
        ¬ InCell tt (CMPTally.getMoney t c.propertyId tt + c.amount) := by
  unfold MoneyCall.run
  cases h : TallyType.ofCode? c.ttype with
  | none => simp
  | some ty =>
    simp only [updateMoney_fst, isOverflow_iff (ht c.propertyId ty).1, reduceCtorEq, false_or,
      Option.some.injEq, exists_eq_left', InCell, not_and_or, Classical.not_imp, not_le]

theorem MoneyCall.run_inCell {t : CMPTally}
    (ht : ∀ p tt, InCell tt (CMPTally.getMoney t p tt)) (p : PropertyId) (tt : TallyType) :
    InCell tt (CMPTally.getMoney (c.run t).2 p tt) := by
  rw [c.run_cell]
  by_cases hok : (c.run t).1 = true ∧ c.Names p tt
  · rw [if_pos hok]
    obtain ⟨hok, rfl, hcode⟩ := hok
    by_contra hout
    rw [(c.run_fst ht).mpr (.inr (.inr ⟨tt, hcode, hout⟩))] at hok
    cases hok
  · rw [if_neg hok, Int.add_zero]
    exact ht p tt

/-! ### Runs of calls -/

theorem run_cells (calls : List MoneyCall) {t : CMPTally}
    (ht : ∀ p tt, InCell tt (CMPTally.getMoney t p tt)) (p : PropertyId) (tt : TallyType) :
    CMPTally.getMoney (calls.foldl (fun t c => (c.run t).2) t) p tt =
        CMPTally.getMoney t p tt + credited p tt t calls ∧
      InCell tt (CMPTally.getMoney (calls.foldl (fun t c => (c.run t).2) t) p tt) := by
  induction calls generalizing t with
  | nil => exact ⟨(Int.add_zero _).symm, ht p tt⟩
  | cons c rest ih =>
    obtain ⟨hsum, hin⟩ := ih fun p tt => c.run_inCell ht p tt
    refine ⟨?_, hin⟩
    rw [List.foldl_cons, hsum, c.run_cell, credited]
    omega

/-- After any calls each cell is the exact sum of the amounts of its successful
calls and lies in its range. A further call fails just where its amount is 0,
its type is out of range or that sum would leave the cell's range; it then
changes no cell. The subtractions of `isOverflow` stay within 64 bits. -/
theorem cells_exact (calls : List MoneyCall) :
    (∀ p tt, CMPTally.getMoney (runCalls calls) p tt = credited p tt ∅ calls ∧
      InI64 (credited p tt ∅ calls) ∧ (tt ≠ .pending → 0 ≤ credited p tt ∅ calls)) ∧
    ∀ c : MoneyCall,
      ((c.run (runCalls calls)).1 = false ↔ c.amount = 0 ∨ TallyType.ofCode? c.ttype = none ∨
        ∃ tt, TallyType.ofCode? c.ttype = some tt ∧
          (¬ InI64 (credited c.propertyId tt ∅ calls + c.amount) ∨
            tt ≠ .pending ∧ credited c.propertyId tt ∅ calls + c.amount < 0)) ∧
      ((c.run (runCalls calls)).1 = false → ∀ p tt,
        CMPTally.getMoney (c.run (runCalls calls)).2 p tt =
          CMPTally.getMoney (runCalls calls) p tt) ∧
      (0 < c.amount → InI64 (i64Max - c.amount)) ∧ (c.amount < 0 → InI64 (i64Min - c.amount)) := by
  have hempty : ∀ p tt, InCell tt (CMPTally.getMoney ∅ p tt) := fun p tt => by
    rw [CMPTally.getMoney_empty]
    exact ⟨by decide, fun _ => le_refl 0⟩
  have hrun := run_cells calls hempty
  have hsum : ∀ p tt, CMPTally.getMoney (runCalls calls) p tt = credited p tt ∅ calls :=
    fun p tt => by rw [runCalls, (hrun p tt).1, CMPTally.getMoney_empty, Int.zero_add]
  have hin : ∀ p tt, InCell tt (CMPTally.getMoney (runCalls calls) p tt) := fun p tt => (hrun p tt).2
  refine ⟨fun p tt => ⟨hsum p tt, hsum p tt ▸ hin p tt⟩, fun c => ⟨?_, fun hfail p tt => ?_, ?_⟩⟩
  · rw [c.run_fst hin]
    simp only [hsum, InCell, not_and_or, Classical.not_imp, not_le]
  · rw [c.run_cell, hfail]
    simp
  · have hfits := c.fits
    unfold InI64 at hfits ⊢
    simp only [i64Min, i64Max] at hfits ⊢
    omega

end Rapids.Token
