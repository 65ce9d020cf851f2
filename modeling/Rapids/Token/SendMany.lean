import Mathlib.Algebra.Order.BigOperators.Group.List
import Rapids.Token.Frozen

/-!
# Rapids.Token.SendMany

**Sending to many, over the integers.** The handler checks the 64-bit sum of the amounts
and then moves them one by one as signed numbers, each move asserted. `CanMove` says when
one entry passes both assertions and moves what it says; `canPay` asks it of all entries,
each with the balances the earlier ones leave.

An entry for another address must be a positive signed amount. An entry for the sender
itself is netted whatever its sign, as long as the detour stays in range.
-/

namespace Rapids.Token

open Rapids.Lib

/-! ### What the payload says -/

/-- Entries of a payload, with the addresses that their outputs refer to. -/
def stmEntries (tx : CMPTransaction) (l : List (Nat × Nat)) : List (Address × Nat) :=
  l.filterMap fun entry =>
    (tx.validOutputAddressesForSTM.find? entry.1).map fun receiver => (receiver, entry.2)

/-- The sum of the amounts. -/
def totalSent (l : List (Address × Nat)) : Int := ((l.map Prod.snd).sum : Nat)

/-- The sum of the amounts addressed to an address. -/
def addressedTo (a : Address) (l : List (Address × Nat)) : Int :=
  (((l.filter fun e => e.1 = a).map Prod.snd).sum : Nat)

/-- What the entries do to a balance: the sender pays all of them. -/
def netMove (sender : Address) (l : List (Address × Nat)) (a : Address) : Int :=
  addressedTo a l - if a = sender then totalSent l else 0

/-- **The tokens move as the payload says**: over the integers, and nothing else does. -/
structure MovesExactly (s s' : State) (tx : CMPTransaction) : Prop where
  balances : ∀ a q t, getTokenBalance s' a q t = getTokenBalance s a q t +
    if q = tx.property ∧ t = .balance then
      netMove tx.sender (stmEntries tx tx.outputValuesForSTM) a else 0
  /-- No receiver loses tokens. -/
  rises : ∀ e ∈ stmEntries tx tx.outputValuesForSTM, e.1 ≠ tx.sender →
    getTokenBalance s e.1 tx.property .balance ≤ getTokenBalance s' e.1 tx.property .balance

/-- What is asked of the handler: it does not stop the node, and where it returns 0 it has
moved the tokens as the payload says. -/
def SendsToMany (s : State) (tx : CMPTransaction) : Prop :=
  ∃ rc s', logicMathSendToMany s tx = some (rc, s') ∧ (rc = 0 → MovesExactly s s' tx)

/-! ### When the entries can be paid -/

/-- Balances after one entry. -/
def movedBalance (bal : Address → Int) (sender receiver : Address) (amount : Nat) (a : Address) : Int :=
  bal a + ((if receiver = a then (amount : Int) else 0) - if a = sender then (amount : Int) else 0)

/-- Can one entry be paid? The amount is not zero, the debit of the signed amount leaves the
sender's balance in range, and a receiver that is not the sender gets a signed amount it has
room for. -/
def CanMove (bal : Address → Int) (sender receiver : Address) (amount : Nat) : Prop :=
  amount ≠ 0 ∧ 0 ≤ bal sender + toI64 (-(amount : Int)) ∧ bal sender + toI64 (-(amount : Int)) ≤ i64Max ∧
    (receiver ≠ sender → amount < 9223372036854775808 ∧ bal receiver + amount ≤ i64Max)

instance (bal : Address → Int) (sender receiver : Address) (amount : Nat) :
    Decidable (CanMove bal sender receiver amount) := by
  unfold CanMove
  infer_instance

/-- Can all entries be paid, one after the other? -/
def canPay (sender : Address) : (Address → Int) → List (Address × Nat) → Bool
  | _, [] => true
  | bal, (receiver, amount) :: rest =>
    decide (CanMove bal sender receiver amount) &&
      canPay sender (movedBalance bal sender receiver amount) rest

/-- The balances of the packet's property. -/
def balancesOf (s : State) (tx : CMPTransaction) (a : Address) : Int :=
  getTokenBalance s a tx.property .balance

theorem totalSent_cons (e : Address × Nat) (rest : List (Address × Nat)) :
    totalSent (e :: rest) = e.2 + totalSent rest := by
  unfold totalSent
  rw [List.map_cons, List.sum_cons]
  omega

theorem addressedTo_cons (e : Address × Nat) (rest : List (Address × Nat)) (a : Address) :
    addressedTo a (e :: rest) = (if e.1 = a then (e.2 : Int) else 0) + addressedTo a rest := by
  unfold addressedTo
  by_cases he : e.1 = a
  · rw [List.filter_cons_of_pos (by simpa using he), if_pos he, List.map_cons, List.sum_cons]
    omega
  · rw [List.filter_cons_of_neg (by simpa using he), if_neg he, Int.zero_add]

theorem addressedTo_nonneg (l : List (Address × Nat)) (a : Address) : 0 ≤ addressedTo a l :=
  Int.natCast_nonneg _

theorem le_addressedTo {l : List (Address × Nat)} {e : Address × Nat} (he : e ∈ l) :
    (e.2 : Int) ≤ addressedTo e.1 l := by
  have hmem : e.2 ∈ (l.filter fun e' => e'.1 = e.1).map Prod.snd :=
    List.mem_map_of_mem (List.mem_filter.mpr ⟨he, by simp⟩)
  exact Int.ofNat_le.mpr (List.single_le_sum (fun _ _ => Nat.zero_le _) _ hmem)

theorem netMove_cons (sender receiver : Address) (amount : Nat) (rest : List (Address × Nat))
    (a : Address) :
    netMove sender ((receiver, amount) :: rest) a =
      ((if receiver = a then (amount : Int) else 0) - if a = sender then (amount : Int) else 0) +
        netMove sender rest a := by
  unfold netMove
  rw [addressedTo_cons, totalSent_cons]
  split_ifs <;> omega

/-! ### One entry -/

variable {s s₁ s' : State} {tx : CMPTransaction} {receiver : Address} {amount : Nat}

theorem toI64_ne_min {bal : Int} (hnonneg : 0 ≤ bal + toI64 (-(amount : Int))) (hfits : bal ≤ i64Max) :
    toI64 amount ≠ i64Min := by
  intro hmin
  have hneg : toI64 (-(amount : Int)) = i64Min := by
    unfold toI64 i64Min at hmin ⊢
    rw [Int.bmod_def] at hmin ⊢
    omega
  unfold i64Max at hfits
  rw [hneg] at hnonneg
  unfold i64Min at hnonneg
  omega

theorem toI64_ne_zero (hne : amount ≠ 0) (hlt : amount < 18446744073709551616) :
    toI64 (amount : Int) ≠ 0 := by
  unfold toI64
  rw [Int.bmod_def]
  split_ifs <;> omega

theorem toI64_of_lt (hlt : amount < 9223372036854775808) : toI64 (amount : Int) = amount :=
  toI64_of_inI64 ⟨by unfold i64Min; omega, by unfold i64Max; omega⟩

theorem entry_balances (t₁ : TallyStep s s₁ tx.sender tx.property (toI64 (-(amount : Int))) .balance)
    (t₂ : TallyStep s₁ s' receiver tx.property (toI64 amount) .balance)
    (hmin : toI64 amount ≠ i64Min) (hother : receiver ≠ tx.sender → amount < 9223372036854775808)
    (a : Address) (q : PropertyId) (t : TallyType) :
    getTokenBalance s' a q t = getTokenBalance s a q t +
      if q = tx.property ∧ t = .balance then
        (if receiver = a then (amount : Int) else 0) - if a = tx.sender then (amount : Int) else 0
      else 0 := by
  rw [t₂.balance, t₁.balance, toI64_neg hmin]
  by_cases hq : q = tx.property ∧ t = .balance
  · obtain ⟨rfl, rfl⟩ := hq
    by_cases hself : receiver = tx.sender
    · by_cases ha : a = tx.sender
      · simp [ha, hself]
      · simp [ha, hself, Ne.symm ha]
    · rw [toI64_of_lt (hother hself)]
      by_cases ha : a = tx.sender
      · subst ha
        simp [hself, Ne.symm hself]
      · by_cases hr : a = receiver
        · subst hr
          simp [ha]
        · simp [ha, hr, Ne.symm hr]
  · have h1 : ¬ (a = tx.sender ∧ q = tx.property ∧ t = .balance) := fun h => hq h.2
    have h2 : ¬ (a = receiver ∧ q = tx.property ∧ t = .balance) := fun h => hq h.2
    rw [if_neg h1, if_neg h2, if_neg hq, Int.add_zero]

theorem entry_pays (hs : Solvent s) (hfree : isAddressFrozen s tx.sender tx.property = false)
    (h64 : amount < 18446744073709551616) (h : CanMove (balancesOf s tx) tx.sender receiver amount) :
    ∃ s₁ s₂, assertTally s tx.sender tx.property (toI64 (-(amount : Int))) .balance = some s₁ ∧
      assertTally s₁ receiver tx.property (toI64 amount) .balance = some s₂ := by
  obtain ⟨hne, hnonneg, hfits, hother⟩ := h
  have hmin : toI64 amount ≠ i64Min := toI64_ne_min hnonneg (hs.fits _ _ _)
  have hneg : toI64 (-(amount : Int)) = -toI64 amount := toI64_neg hmin
  have hamount : toI64 (amount : Int) ≠ 0 := toI64_ne_zero hne h64
  obtain ⟨s₁, h1⟩ : ∃ s₁, assertTally s tx.sender tx.property (toI64 (-(amount : Int))) .balance = some s₁ :=
    assertTally_isSome (by rw [hneg]; omega) (fun _ => hfits)
      (fun _ => by unfold i64Min; exact Int.le_trans (by decide) hnonneg) (fun _ => hnonneg)
      (fun _ _ => hfree)
  have t₁ := assertTally_spec h1
  have hfree1 : isAddressFrozen s₁ tx.sender tx.property = false := by
    rw [t₁.frame]
    exact hfree
  -- the credit finds room: the sender gets back what it paid, another receiver a positive amount
  have hcredit : 0 ≤ getTokenBalance s₁ receiver tx.property .balance + toI64 amount ∧
      getTokenBalance s₁ receiver tx.property .balance + toI64 amount ≤ i64Max ∧
      (toI64 (amount : Int) < 0 → isAddressFrozen s₁ receiver tx.property = false) := by
    have hbal := hs.nonneg receiver tx.property .balance (by simp)
    have hbal' := hs.fits receiver tx.property .balance
    rw [t₁.balance]
    by_cases hself : receiver = tx.sender
    · rw [if_pos ⟨hself, rfl, rfl⟩, hneg, hself]
      rw [hself] at hbal hbal'
      exact ⟨by omega, by omega, fun _ => hfree1⟩
    · obtain ⟨hlt, hroom⟩ := hother hself
      have hroom : getTokenBalance s receiver tx.property .balance + amount ≤ i64Max := hroom
      rw [if_neg fun hc => hself hc.1, toI64_of_lt hlt]
      exact ⟨by omega, by omega, fun hneg => absurd hneg (by omega)⟩
  obtain ⟨s₂, h2⟩ : ∃ s₂, assertTally s₁ receiver tx.property (toI64 amount) .balance = some s₂ :=
    assertTally_isSome hamount (fun _ => hcredit.2.1)
      (fun _ => by unfold i64Min; exact Int.le_trans (by decide) hcredit.1) (fun _ => hcredit.1)
      (fun _ hlt => hcredit.2.2 hlt)
  exact ⟨s₁, s₂, h1, h2⟩

/-- An entry that is paid could be paid, if its amount is a positive signed one or goes to the
sender; and then the sender is not frozen. -/
theorem entry_canMove (hs : Solvent s)
    (t₁ : TallyStep s s₁ tx.sender tx.property (toI64 (-(amount : Int))) .balance)
    (t₂ : TallyStep s₁ s' receiver tx.property (toI64 amount) .balance)
    (hother : receiver ≠ tx.sender → amount < 9223372036854775808) :
    CanMove (balancesOf s tx) tx.sender receiver amount ∧
      isAddressFrozen s tx.sender tx.property = false := by
  have hnonneg := t₁.nonneg (by simp)
  have hfits := hs.fits tx.sender tx.property .balance
  have hneg : toI64 (-(amount : Int)) = -toI64 amount := toI64_neg (toI64_ne_min hnonneg hfits)
  refine ⟨⟨?_, hnonneg, ?_, fun hself => ⟨hother hself, ?_⟩⟩, ?_⟩
  · rintro rfl
    exact t₁.amount_ne rfl
  · show getTokenBalance s tx.sender tx.property .balance + toI64 (-(amount : Int)) ≤ i64Max
    rcases lt_or_gt_of_ne t₁.amount_ne with hlt | hgt
    · omega
    · exact t₁.credit_fits hgt
  · have hlt := hother hself
    have hroom := t₂.credit_fits
    rw [toI64_of_lt hlt, t₁.balance, if_neg fun hc => hself hc.1, Int.add_zero] at hroom
    show getTokenBalance s receiver tx.property .balance + amount ≤ i64Max
    have hbal := hs.fits receiver tx.property .balance
    rcases Nat.eq_zero_or_pos amount with h0 | hpos
    · omega
    · exact hroom (by omega)
  · rcases lt_or_gt_of_ne t₁.amount_ne with hlt | hgt
    · exact t₁.notFrozen rfl hlt
    · -- a negative amount goes to the sender, and its second half is the debit
      have hself : receiver = tx.sender := by
        by_contra hself
        rw [hneg, toI64_of_lt (hother hself)] at hgt
        omega
      have hfree := t₂.notFrozen rfl (by omega)
      rw [hself, t₁.frame] at hfree
      exact hfree

/-! ### All entries -/

theorem stmEntries_cons {output : Nat} {rest : List (Nat × Nat)}
    (h : tx.validOutputAddressesForSTM.find? output = some receiver) :
    stmEntries tx ((output, amount) :: rest) = (receiver, amount) :: stmEntries tx rest := by
  unfold stmEntries
  rw [List.filterMap_cons_some]
  rw [h]
  rfl

theorem sendManyLoop_cons {output : Nat} (rest : List (Nat × Nat))
    (hr : tx.validOutputAddressesForSTM.find? output = some receiver)
    (h1 : assertTally s tx.sender tx.property (toI64 (-(amount : Int))) .balance = some s₁)
    (h2 : assertTally s₁ receiver tx.property (toI64 amount) .balance = some s') :
    sendManyLoop tx ((output, amount) :: rest) s = sendManyLoop tx rest s' := by
  rw [sendManyLoop, hr, Option.bind_eq_bind, Option.bind_some, h1, Option.bind_eq_bind, Option.bind_some,
    h2, Option.bind_some]

theorem balancesOf_entry
    (hbal : ∀ a q t, getTokenBalance s' a q t = getTokenBalance s a q t +
      if q = tx.property ∧ t = .balance then
        (if receiver = a then (amount : Int) else 0) - if a = tx.sender then (amount : Int) else 0
      else 0) :
    balancesOf s' tx = movedBalance (balancesOf s tx) tx.sender receiver amount := by
  funext a
  unfold balancesOf movedBalance
  rw [hbal, if_pos ⟨rfl, rfl⟩]

variable {l : List (Nat × Nat)}

/-- **Entries that can be paid are paid**, and every balance moves by the net of them. -/
theorem sendManyLoop_pays (hs : Solvent s)
    (hfree : isAddressFrozen s tx.sender tx.property = false)
    (hdest : ∀ e ∈ l, ∃ r, tx.validOutputAddressesForSTM.find? e.1 = some r)
    (h64 : ∀ e ∈ l, e.2 < 18446744073709551616)
    (h : canPay tx.sender (balancesOf s tx) (stmEntries tx l) = true) :
    ∃ s', sendManyLoop tx l s = some s' ∧ ∀ a q t, getTokenBalance s' a q t = getTokenBalance s a q t +
      if q = tx.property ∧ t = .balance then netMove tx.sender (stmEntries tx l) a else 0 := by
  induction l generalizing s with
  | nil =>
    refine ⟨s, rfl, fun a q t => ?_⟩
    have hnet : netMove tx.sender (stmEntries tx []) a = 0 := by
      show (0 : Int) - (if a = tx.sender then 0 else 0) = 0
      split_ifs <;> rfl
    rw [hnet, ite_self, Int.add_zero]
  | cons entry rest ih =>
    obtain ⟨output, amount⟩ := entry
    obtain ⟨receiver, hr⟩ := hdest _ (.head _)
    rw [stmEntries_cons hr, canPay, Bool.and_eq_true, decide_eq_true_iff] at h
    obtain ⟨hmove, hrest⟩ := h
    have hlt := h64 (output, amount) (.head _)
    obtain ⟨s₁, s₂, h1, h2⟩ := entry_pays hs hfree hlt hmove
    have t₁ := assertTally_spec h1
    have t₂ := assertTally_spec h2
    obtain ⟨-, hnonneg, -, hother⟩ := hmove
    have hbal := entry_balances t₁ t₂ (toI64_ne_min hnonneg (hs.fits _ _ _))
      fun hself => (hother hself).1
    have hfree2 : isAddressFrozen s₂ tx.sender tx.property = false := by
      rw [t₂.frame, t₁.frame]
      exact hfree
    rw [← balancesOf_entry hbal] at hrest
    obtain ⟨s', h', hbal'⟩ := ih (t₂.solvent (t₁.solvent hs)) hfree2
      (fun e he => hdest e (.tail _ he)) (fun e he => h64 e (.tail _ he)) hrest
    refine ⟨s', ?_, fun a q t => ?_⟩
    · rw [sendManyLoop_cons rest hr h1 h2]
      exact h'
    · rw [hbal', hbal, stmEntries_cons hr, netMove_cons]
      split_ifs <;> omega

theorem sendManyLoop_solvent (hs : Solvent s) (h : sendManyLoop tx l s = some s') :
    Solvent s' := by
  induction l generalizing s with
  | nil =>
    obtain rfl : s = s' := Option.some.inj h
    exact hs
  | cons entry rest ih =>
    obtain ⟨output, amount⟩ := entry
    simp only [sendManyLoop, do_eq_some] at h
    obtain ⟨receiver, -, s₁, h1, s₂, h2, h3⟩ := h
    exact ih ((assertTally_spec h2).solvent ((assertTally_spec h1).solvent hs)) h3

/-- Entries that are paid could be paid, if no other address is sent a negative signed amount. -/
theorem canPay_of_sendManyLoop (hs : Solvent s)
    (hother : ∀ e ∈ stmEntries tx l, e.1 ≠ tx.sender → e.2 < 9223372036854775808)
    (h : sendManyLoop tx l s = some s') :
    canPay tx.sender (balancesOf s tx) (stmEntries tx l) = true ∧
      (l ≠ [] → isAddressFrozen s tx.sender tx.property = false) := by
  induction l generalizing s with
  | nil => exact ⟨rfl, fun hne => absurd rfl hne⟩
  | cons entry rest ih =>
    obtain ⟨output, amount⟩ := entry
    simp only [sendManyLoop, do_eq_some] at h
    obtain ⟨receiver, hr, s₁, h1, s₂, h2, h3⟩ := h
    rw [stmEntries_cons hr] at hother ⊢
    have t₁ := assertTally_spec h1
    have t₂ := assertTally_spec h2
    have hthis := hother (receiver, amount) (.head _)
    obtain ⟨hmove, hfree⟩ := entry_canMove hs t₁ t₂ hthis
    have hbal := entry_balances t₁ t₂ (toI64_ne_min hmove.2.1 (hs.fits _ _ _)) hthis
    obtain ⟨hrest, -⟩ := ih (t₂.solvent (t₁.solvent hs))
      (fun e he => hother e (.tail _ he)) h3
    refine ⟨?_, fun _ => hfree⟩
    rw [canPay, Bool.and_eq_true, decide_eq_true_iff, ← balancesOf_entry hbal]
    exact ⟨hmove, hrest⟩

/-! ### The handler -/

theorem stmChecks_errors (s : State) (tx : CMPTransaction) : allErrors (stmChecks s tx) := by
  have hcodes : (stmOutputError tx).isSome = true → (stmOutputError tx).getD 0 < 0 := fun hsome => by
    obtain ⟨code, hcode⟩ := Option.isSome_iff_exists.mp hsome
    rw [hcode]
    exact stmOutputError_neg hcode
  simpa [allErrors, stmChecks, pktErrorSendMany] using hcodes

theorem sendToMany_rejected (h : (stmChecks s tx).any Prod.fst = true) : SendsToMany s tx := by
  cases hfind : (stmChecks s tx).find? Prod.fst with
  | none =>
    obtain ⟨c, hc, hfail⟩ := List.any_eq_true.mp h
    exact absurd hfail (List.find?_eq_none.mp hfind c hc)
  | some c =>
    have hneg := stmChecks_errors s tx c (List.mem_of_find?_eq_some hfind) (List.find?_some hfind)
    refine ⟨c.2, s, ?_, fun h0 => absurd h0 hneg.ne⟩
    show reject s (stmChecks s tx) _ = some (c.2, s)
    rw [reject, hfind]

/-- A packet that passes the checks: its outputs have receivers, it has an output, and the
handler is the loop. -/
theorem sendToMany_passes (h : (stmChecks s tx).any Prod.fst = false) :
    (∀ e ∈ tx.outputValuesForSTM, ∃ r, tx.validOutputAddressesForSTM.find? e.1 = some r) ∧
      tx.outputValuesForSTM ≠ [] ∧
      logicMathSendToMany s tx = (sendManyLoop tx tx.outputValuesForSTM s).map fun s' => (0, s') := by
  have hpass : ∀ c ∈ stmChecks s tx, c.1 = false := fun c hc =>
    Bool.eq_false_iff.mpr (List.any_eq_false.mp h c hc)
  have heach := hpass
  simp only [stmChecks, List.forall_mem_cons] at heach
  obtain ⟨-, hrange, -, -, hnone, hsum, -⟩ := heach
  refine ⟨fun e he => ?_, fun hnil => ?_, ?_⟩
  · rw [Option.isSome_eq_false_iff, Option.isNone_iff_eq_none, stmOutputError,
      List.findSome?_eq_none_iff] at hnone
    have hentry := hnone e he
    cases hr : tx.validOutputAddressesForSTM.find? e.1 with
    | none =>
      rw [hr] at hentry
      cases hentry
    | some r => exact ⟨r, rfl⟩
  · rw [decide_eq_false_iff_not, not_not, hnil] at hsum
    rw [← hsum] at hrange
    exact absurd hrange (by decide)
  · show reject s (stmChecks s tx) _ = _
    rw [reject_pass hpass]
    cases sendManyLoop tx tx.outputValuesForSTM s <;> rfl

/-- **Send-to-many moves what it says**, in a reachable state, if and only if a check rejects
the packet, or the sender is not frozen and its entries can be paid. -/
theorem send_to_many_moves_iff {cfg : Config} {es : List Event} {n : Node}
    (hrun : run step (Node.initial cfg) es = some n) {tx : CMPTransaction}
    (h64 : ∀ e ∈ tx.outputValuesForSTM, e.2 < 18446744073709551616) :
    SendsToMany n.state tx ↔
      (stmChecks n.state tx).any Prod.fst = true ∨
        (isAddressFrozen n.state tx.sender tx.property = false ∧
          canPay tx.sender (balancesOf n.state tx) (stmEntries tx tx.outputValuesForSTM) = true) := by
  have hs : Solvent n.state := (run_inv hrun).core.solvent
  cases hchecks : (stmChecks n.state tx).any Prod.fst with
  | true => exact iff_of_true (sendToMany_rejected hchecks) (.inl rfl)
  | false =>
    obtain ⟨hdest, hne, heq⟩ := sendToMany_passes hchecks
    constructor
    · rintro ⟨rc, s', h, hmoves⟩
      rw [heq, Option.map_eq_some_iff] at h
      obtain ⟨s'', hloop, hpair⟩ := h
      obtain ⟨rfl, rfl⟩ := Prod.mk.inj hpair
      have hs' : Solvent s'' := sendManyLoop_solvent hs hloop
      -- what another address gets is part of a balance, so it is a positive signed amount
      have hother : ∀ e ∈ stmEntries tx tx.outputValuesForSTM, e.1 ≠ tx.sender →
          e.2 < 9223372036854775808 := by
        intro e he hself
        have hbal := (hmoves rfl).balances e.1 tx.property .balance
        rw [if_pos ⟨rfl, rfl⟩, netMove, if_neg hself, Int.sub_zero] at hbal
        have hpart := le_addressedTo he
        have hbefore := hs.nonneg e.1 tx.property .balance (by simp)
        have hafter := hs'.fits e.1 tx.property .balance
        unfold i64Max at hafter
        omega
      obtain ⟨hpay, hfree⟩ := canPay_of_sendManyLoop hs hother hloop
      exact .inr ⟨hfree hne, hpay⟩
    · rintro (h | ⟨hfree, hpay⟩)
      · cases h
      · obtain ⟨s', hloop, hbal⟩ := sendManyLoop_pays hs hfree hdest h64 hpay
        refine ⟨0, s', by rw [heq, hloop]; rfl, fun _ => ⟨hbal, fun e he hself => ?_⟩⟩
        rw [hbal, if_pos ⟨rfl, rfl⟩, netMove, if_neg hself]
        have := addressedTo_nonneg (stmEntries tx tx.outputValuesForSTM) e.1
        omega

/-- The issuer grants a hundred tokens each to `alice` and `bob`. -/
def grantedRun : List Event :=
  [ .blockBegin 1 1500000000 1,
    .packet (frozenTx 54 1 "issuer" "" 0) issuanceEnv,
    .packet (frozenTx 55 2 "issuer" "alice" 100) issuanceEnv,
    .packet (frozenTx 55 3 "issuer" "bob" 100) issuanceEnv ]

/-- `alice` sends ten tokens to `bob` and fifteen to `carol`. -/
theorem send_to_many_moves_granted :
    ∃ n, run step (Node.initial regtestCfg) grantedRun = some n ∧
      (logicMathSendToMany n.state (toMany 25 10 15)).map
        (fun r => (r.1, balancesOf r.2 (toMany 25 10 15) "bob")) = some (0, 110) ∧
      SendsToMany n.state (toMany 25 10 15) := by
  have hrun : ((run step (Node.initial regtestCfg) grantedRun).map fun n =>
      ((logicMathSendToMany n.state (toMany 25 10 15)).map
          (fun r => (r.1, balancesOf r.2 (toMany 25 10 15) "bob")),
        isAddressFrozen n.state "alice" 3,
        canPay "alice" (balancesOf n.state (toMany 25 10 15)) [("bob", 10), ("carol", 15)])) =
      some (some (0, 110), false, true) := by decide +kernel
  obtain ⟨n, hn, hvals⟩ := Option.map_eq_some_iff.mp hrun
  simp only [Prod.mk.injEq] at hvals
  exact ⟨n, hn, hvals.1, (send_to_many_moves_iff hn (by decide +kernel)).mpr (.inr hvals.2)⟩

/-- The amounts `2 ^ 64 - 10` and 15 pass as five tokens: the handler returns 0, and `bob`, a
receiver, has lost ten. -/
theorem send_to_many_takes :
    ∃ n, run step (Node.initial regtestCfg) grantedRun = some n ∧
      balancesOf n.state (toMany 5 18446744073709551606 15) "bob" = 100 ∧
      (logicMathSendToMany n.state (toMany 5 18446744073709551606 15)).map
        (fun r => (r.1, balancesOf r.2 (toMany 5 18446744073709551606 15) "bob")) = some (0, 90) ∧
      ¬ SendsToMany n.state (toMany 5 18446744073709551606 15) := by
  have hrun : ((run step (Node.initial regtestCfg) grantedRun).map fun n =>
      (balancesOf n.state (toMany 5 18446744073709551606 15) "bob",
        (logicMathSendToMany n.state (toMany 5 18446744073709551606 15)).map
          (fun r => (r.1, balancesOf r.2 (toMany 5 18446744073709551606 15) "bob")))) =
      some (100, some (0, 90)) := by decide +kernel
  obtain ⟨n, hn, hvals⟩ := Option.map_eq_some_iff.mp hrun
  obtain ⟨hbefore, hafter⟩ := Prod.mk.inj hvals
  refine ⟨n, hn, hbefore, hafter, ?_⟩
  rintro ⟨rc, s', h, hmoves⟩
  rw [h, Option.map_some, Option.some.injEq, Prod.mk.injEq] at hafter
  have hrises := (hmoves hafter.1).rises ("bob", 18446744073709551606) (by decide +kernel) (by decide)
  have hle : (100 : Int) ≤ 90 := hbefore ▸ hafter.2 ▸ hrises
  exact absurd hle (by decide)

end Rapids.Token
