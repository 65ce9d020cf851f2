import Rapids.Token.State

/-!
# Rapids.Token.Tally

The **tally map** and its one writer, `update_tally_map`.

Every movement of tokens goes through `updateTallyMap`. Most callers wrap it in
an `assert`, which stops the node when the update is refused; `assertTally` is
that pattern, and `none` is the stopped node. `TallyStep` says once what a
successful update does: which bucket moves, by how much, what stays, and what
the amounts moved add up to (`held`). No later proof unfolds the update.
-/

namespace Rapids.Token

open Rapids.Lib OrdMap

/-! ### Reading -/

variable (r : BalanceRecord) (s : State) (who : Address) (t : CMPTally) (p : PropertyId) (amount : Int) (tt : TallyType)

/-- The amount an address's tally holds in one bucket. -/
def CMPTally.getMoney : Int :=
  ((t.find? p).getD {}).get tt

/-- `GetTokenBalance` -/
def getTokenBalance : Int :=
  match s.tally.find? who with
  | none => 0
  | some t => CMPTally.getMoney t p tt

/-- Is the address frozen for the property? -/
def isAddressFrozen : Bool :=
  s.frozen.contains (toLex (who, p))

/-- The tokens in a record, without the pending ones. -/
def BalanceRecord.total : Int :=
  r.balance + r.sellofferReserve + r.acceptReserve + r.metadexReserve

/-- All tokens of a property that one address owns. -/
def CMPTally.owned : Int := ((t.find? p).getD {}).total

/-- All tokens of a property, over all addresses. -/
def held (m : TallyMap) (p : PropertyId) : Int := m.sumBy fun _ t => CMPTally.owned t p

/-! ### Writing -/

/-- `isOverflow` -/
def isOverflow (a b : Int) : Bool :=
  (decide (0 < b) && decide (i64Max - b < a)) || (decide (b < 0) && decide (a < i64Min - b))

/-- Add to one bucket. Refused for a zero amount, on overflow, and where a
bucket other than the pending one would become negative. -/
def CMPTally.updateMoney :
    Bool × CMPTally :=
  if amount = 0 then (false, t)
  else
    -- reading through `operator[]` creates the record
    let r := (t.find? p).getD {}
    let now := r.get tt
    if isOverflow now amount then (false, t.insert p r)
    else if tt ≠ .pending ∧ now + amount < 0 then (false, t.insert p r)
    else (true, t.insert p (r.set tt (now + amount)))

/-- Credit or debit an address. Debiting the balance of a frozen address stops
the node. -/
def updateTallyMap :
    Option (Bool × State) :=
  if amount = 0 then some (false, s)
  else if tt = .balance ∧ amount < 0 ∧ isAddressFrozen s who p = true then none
  else
    let r := CMPTally.updateMoney ((s.tally.find? who).getD ∅) p amount tt
    some (r.1, { s with tally := s.tally.insert who r.2 })

/-- `assert(update_tally_map(...))` -/
def assertTally :
    Option State :=
  match updateTallyMap s who p amount tt with
  | some (true, s') => some s'
  | _ => none

/-- A bucket of an address. -/
abbrev Bucket := Address × TallyType

/-- Debit one bucket and credit another, both updates asserted. -/
def transferTally (src dst : Bucket) : Option State := do
  let s ← assertTally s src.1 p (-amount) src.2
  assertTally s dst.1 p amount dst.2

/-! ### Small facts about records -/

@[simp] theorem BalanceRecord.get_set_self (t : TallyType) (x : Int) :
    (r.set t x).get t = x := by
  cases t <;> rfl

theorem BalanceRecord.get_set (t t' : TallyType) (x : Int) :
    (r.set t x).get t' = if t' = t then x else r.get t' := by
  cases t <;> cases t' <;> rfl

@[simp] theorem BalanceRecord.get_default (t : TallyType) : ({} : BalanceRecord).get t = 0 := by
  cases t <;> rfl

theorem BalanceRecord.total_set (t : TallyType) (x : Int) :
    (r.set t (r.get t + x)).total = r.total + if t = .pending then 0 else x := by
  cases t <;> simp [BalanceRecord.set, BalanceRecord.get, BalanceRecord.total] <;> omega

@[simp] theorem CMPTally.owned_empty : CMPTally.owned ∅ p = 0 := rfl

@[simp] theorem CMPTally.getMoney_empty (t : TallyType) :
    CMPTally.getMoney ∅ p t = 0 := by
  simp [CMPTally.getMoney]

theorem getTokenBalance_eq (t : TallyType) :
    getTokenBalance s who p t = CMPTally.getMoney ((s.tally.find? who).getD ∅) p t := by
  unfold getTokenBalance
  cases s.tally.find? who with
  | none => simp
  | some t' => rfl

theorem isOverflow_eq_false {a b : Int} :
    isOverflow a b = false ↔ (0 < b → a + b ≤ i64Max) ∧ (b < 0 → i64Min ≤ a + b) := by
  simp only [isOverflow, Bool.or_eq_false_iff, Bool.and_eq_false_iff, decide_eq_false_iff_not,
    not_lt]
  constructor
  · rintro ⟨h1, h2⟩
    constructor
    · intro h; omega
    · intro h; omega
  · rintro ⟨h1, h2⟩
    constructor
    · by_cases h : 0 < b
      · have := h1 h; omega
      · omega
    · by_cases h : b < 0
      · have := h2 h; omega
      · omega

/-! ### Refusals -/

theorem rejected {c rc : Int} {s s' : State} (hc : c < 0) (h : some (c, s) = some (rc, s')) :
    rc < 0 ∧ s' = s := by
  simp only [Option.some.injEq, Prod.mk.injEq] at h
  exact ⟨h.1 ▸ hc, h.2.symm⟩

/-! ### What a successful update does -/

/-- `s'` is `s` with `amount` added to one bucket of one address. -/
structure TallyStep (s s' : State) (who : Address) (p : PropertyId) (amount : Int)
    (tt : TallyType) : Prop where
  /-- Only the tally map changes. -/
  frame : s' = { s with tally := s'.tally }
  amount_ne : amount ≠ 0
  /-- One bucket moves. -/
  balance : ∀ a q t, getTokenBalance s' a q t =
    getTokenBalance s a q t + if a = who ∧ q = p ∧ t = tt then amount else 0
  /-- The property's total moves with it, unless the bucket is the pending one. -/
  held : ∀ q, held s'.tally q =
    held s.tally q + if q = p ∧ tt ≠ .pending then amount else 0
  /-- The checks the update passed. -/
  credit_fits : 0 < amount → getTokenBalance s who p tt + amount ≤ i64Max
  debit_fits : amount < 0 → i64Min ≤ getTokenBalance s who p tt + amount
  nonneg : tt ≠ .pending → 0 ≤ getTokenBalance s who p tt + amount
  notFrozen : tt = .balance → amount < 0 → isAddressFrozen s who p = false

theorem updateMoney_ok {t t' : CMPTally} {p : PropertyId} {amount : Int} {tt : TallyType}
    (h : CMPTally.updateMoney t p amount tt = (true, t')) :
    amount ≠ 0 ∧ isOverflow (CMPTally.getMoney t p tt) amount = false ∧
      (tt ≠ .pending → 0 ≤ CMPTally.getMoney t p tt + amount) ∧
      t' = t.insert p (((t.find? p).getD {}).set tt (CMPTally.getMoney t p tt + amount)) := by
  unfold CMPTally.updateMoney at h
  by_cases h0 : amount = 0
  · simp [h0] at h
  · simp only [if_neg h0] at h
    by_cases ho : isOverflow (((t.find? p).getD {}).get tt) amount = true
    · simp [ho] at h
    · simp only [ho, Bool.false_eq_true, if_false] at h
      by_cases hn : tt ≠ .pending ∧ ((t.find? p).getD {}).get tt + amount < 0
      · simp [hn] at h
      · rw [if_neg hn] at h
        simp only [Prod.mk.injEq, true_and] at h
        refine ⟨h0, by simpa [CMPTally.getMoney] using ho, fun hp => ?_, h.symm⟩
        by_contra hlt
        exact hn ⟨hp, by simpa [CMPTally.getMoney] using not_le.mp hlt⟩

theorem getMoney_insert (q : PropertyId) (r : BalanceRecord) (tt : TallyType) :
    CMPTally.getMoney (t.insert p r) q tt = if q = p then r.get tt else CMPTally.getMoney t q tt := by
  unfold CMPTally.getMoney
  rw [find?_insert]
  split_ifs <;> rfl

theorem owned_insert (q : PropertyId) (r : BalanceRecord) :
    CMPTally.owned (t.insert p r) q = if q = p then r.total else CMPTally.owned t q := by
  unfold CMPTally.owned
  rw [find?_insert]
  split_ifs <;> rfl

theorem held_insert (m : TallyMap) (who : Address) (t : CMPTally) (p : PropertyId) :
    held (m.insert who t) p =
      held m p + (CMPTally.owned t p - CMPTally.owned ((m.find? who).getD ∅) p) := by
  unfold held
  rw [sumBy_insert]
  cases m.find? who with
  | none => simp
  | some t' => simp only [weightAt_some, Option.getD_some]; omega

theorem assertTally_spec {s s' : State} {who : Address} {p : PropertyId} {amount : Int}
    {tt : TallyType} (h : assertTally s who p amount tt = some s') :
    TallyStep s s' who p amount tt := by
  unfold assertTally updateTallyMap at h
  by_cases h0 : amount = 0
  · simp [h0] at h
  · by_cases hf : tt = .balance ∧ amount < 0 ∧ isAddressFrozen s who p = true
    · simp [h0, hf] at h
    · simp only [if_neg h0, if_neg hf] at h
      cases hr : CMPTally.updateMoney ((s.tally.find? who).getD ∅) p amount tt with
      | mk ok t' =>
        rw [hr] at h
        cases ok with
        | false => simp at h
        | true =>
          simp only [Option.some.injEq] at h
          subst h
          obtain ⟨-, ho, hn, rfl⟩ := updateMoney_ok hr
          rw [isOverflow_eq_false] at ho
          refine ⟨rfl, h0, fun a q t => ?_, fun q => ?_, ?_, ?_, ?_, fun ht hlt => ?_⟩
          · simp only [getTokenBalance_eq, find?_insert]
            by_cases ha : a = who
            · subst ha
              rw [if_pos rfl, Option.getD_some, getMoney_insert]
              by_cases hq : q = p
              · subst hq
                rw [if_pos rfl, BalanceRecord.get_set]
                by_cases htt : t = tt
                · subst htt
                  simp
                · simp [htt, CMPTally.getMoney]
              · simp [hq]
            · simp [ha]
          · rw [held_insert, owned_insert]
            by_cases hq : q = p
            · subst hq
              rw [if_pos rfl]
              have := BalanceRecord.total_set
                ((find? ((s.tally.find? who).getD ∅) q).getD {}) tt amount
              simp only [CMPTally.getMoney, CMPTally.owned, this]
              by_cases htt : tt = .pending <;> simp [htt]
            · simp [hq]
          · rw [getTokenBalance_eq]
            exact ho.1
          · rw [getTokenBalance_eq]
            exact ho.2
          · rw [getTokenBalance_eq]
            exact hn
          · by_contra hc
            exact hf ⟨ht, hlt, by simpa using hc⟩

theorem updateTallyMap_refused {s s' : State} {who : Address} {p : PropertyId} {amount : Int}
    {tt : TallyType} (h : updateTallyMap s who p amount tt = some (false, s')) :
    s' = { s with tally := s'.tally } ∧
      (∀ a q t, getTokenBalance s' a q t = getTokenBalance s a q t) ∧
      ∀ q, held s'.tally q = held s.tally q := by
  unfold updateTallyMap at h
  by_cases h0 : amount = 0
  · simp only [if_pos h0, Option.some.injEq, Prod.mk.injEq, true_and] at h
    subst h
    exact ⟨rfl, fun _ _ _ => rfl, fun _ => rfl⟩
  by_cases hf : tt = .balance ∧ amount < 0 ∧ isAddressFrozen s who p = true
  · simp [h0, hf] at h
  simp only [if_neg h0, if_neg hf, Option.some.injEq, Prod.mk.injEq] at h
  obtain ⟨hfalse, rfl⟩ := h
  have ht : (CMPTally.updateMoney ((s.tally.find? who).getD ∅) p amount tt).2 =
      ((s.tally.find? who).getD ∅).insert p ((((s.tally.find? who).getD ∅).find? p).getD {}) := by
    unfold CMPTally.updateMoney at hfalse ⊢
    rw [if_neg h0] at hfalse ⊢
    dsimp only at hfalse ⊢
    split_ifs at hfalse ⊢ <;> rfl
  refine ⟨rfl, fun a q t => ?_, fun q => ?_⟩
  · simp only [getTokenBalance_eq, find?_insert, ht]
    by_cases ha : a = who
    · subst ha
      rw [if_pos rfl, Option.getD_some, getMoney_insert]
      by_cases hq : q = p
      · subst hq
        rw [if_pos rfl]
        rfl
      · rw [if_neg hq]
    · rw [if_neg ha]
  · rw [held_insert, ht, owned_insert]
    by_cases hq : q = p
    · subst hq
      simp [CMPTally.owned]
    · simp [hq]

theorem assertTally_isSome {s : State} {who : Address} {p : PropertyId} {amount : Int}
    {tt : TallyType} (h0 : amount ≠ 0)
    (hcr : 0 < amount → getTokenBalance s who p tt + amount ≤ i64Max)
    (hdb : amount < 0 → i64Min ≤ getTokenBalance s who p tt + amount)
    (hn : tt ≠ .pending → 0 ≤ getTokenBalance s who p tt + amount)
    (hf : tt = .balance → amount < 0 → isAddressFrozen s who p = false) :
    ∃ s', assertTally s who p amount tt = some s' := by
  have hfz : ¬ (tt = .balance ∧ amount < 0 ∧ isAddressFrozen s who p = true) := by
    rintro ⟨h1, h2, h3⟩
    rw [hf h1 h2] at h3
    cases h3
  rw [getTokenBalance_eq] at hcr hdb hn
  have ho := isOverflow_eq_false.mpr ⟨hcr, hdb⟩
  unfold CMPTally.getMoney at ho hn
  unfold assertTally updateTallyMap CMPTally.updateMoney
  simp only [if_neg h0, if_neg hfz, ho, Bool.false_eq_true, if_false]
  rw [if_neg fun hc => absurd (hn hc.1) (not_le.mpr hc.2)]
  exact ⟨_, rfl⟩

end Rapids.Token
