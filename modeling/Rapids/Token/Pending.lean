import Rapids.Token.Features

/-!
# Rapids.Token.Pending

**Pending transactions** (`pending.cpp`): what the wallet has sent and no block has confirmed.

`PendingAdd` takes the amount of a transaction off the pending tally of its sender, if it is
told to, and remembers the transaction. It does not remember whether it was told to.
`PendingDelete` puts the amount back whenever the pending tally is not zero.

So the accounts are right as long as that guess is: a transaction whose amount was taken off
must be deleted while the tally is not zero, and one whose amount was not taken off while it
is (`pending_accounted_iff`). The guess is always right if every amount is positive and taken
off (`pending_accounted_of_subtracted`).
-/

namespace Rapids.Token

open Rapids.Lib OrdMap

/-! ### Adding and deleting -/

/-- A pending transaction. -/
structure CMPPending where
  src : Address
  prop : PropertyId
  amount : Int
  type : Nat
  deriving DecidableEq, Repr

/-- The token layer, and the map of pending transactions beside it. -/
structure PendingState where
  state : State
  my_pending : OrdMap Hash CMPPending

/-- `update_tally_map` for a pending tally, which never stops the node. -/
def updatePending (s : State) (who : Address) (p : PropertyId) (amount : Int) : Bool × State :=
  (updateTallyMap s who p amount .pending).getD (false, s)

/-- The arguments of `PendingAdd`. -/
structure Adding where
  txid : Hash
  sendingAddress : Address
  type : Nat
  propertyId : PropertyId
  amount : Int
  fSubtract : Bool
  deriving DecidableEq

/-- `PendingAdd` skips payments to crowdsales. -/
def Adding.isSkipped (c : Adding) : Bool := decide (c.type = 80 ∧ c.propertyId = 0)

def pendingAdd (s : PendingState) (c : Adding) : PendingState :=
  if c.isSkipped then s
  else
    let r := if c.fSubtract then updatePending s.state c.sendingAddress c.propertyId (toI64 (-c.amount))
      else (true, s.state)
    { state := r.2
      my_pending :=
        if r.1 then s.my_pending.insertNew c.txid ⟨c.sendingAddress, c.propertyId, c.amount, c.type⟩
        else s.my_pending }

def pendingDelete (s : PendingState) (txid : Hash) : PendingState :=
  match s.my_pending.find? txid with
  | none => s
  | some pending =>
    let src_amount := getTokenBalance s.state pending.src pending.prop .pending
    { state :=
        if src_amount ≠ 0 then (updatePending s.state pending.src pending.prop pending.amount).2
        else s.state
      my_pending := s.my_pending.erase txid }

inductive PendingCall
  | add (c : Adding)
  | delete (txid : Hash)
  deriving DecidableEq

def pendingStep (s : PendingState) : PendingCall → PendingState
  | .add c => pendingAdd s c
  | .delete txid => pendingDelete s txid

/-! ### The pending tally -/

section Update

variable {s : State} {who : Address} {p : PropertyId} {amount : Int}

theorem updatePending_fst (hne : amount ≠ 0) :
    (updatePending s who p amount).1 = !isOverflow (getTokenBalance s who p .pending) amount := by
  have hnever : ¬ (TallyType.pending = .balance ∧ amount < 0 ∧ isAddressFrozen s who p = true) := by
    simp
  rw [updatePending, updateTallyMap, if_neg hne, if_neg hnever, Option.getD_some, getTokenBalance_eq]
  simp only [CMPTally.updateMoney, if_neg hne, CMPTally.getMoney]
  cases isOverflow ((((s.tally.find? who).getD ∅).find? p).getD {} |>.get .pending) amount <;> simp

theorem updatePending_balance (a : Address) (q : PropertyId) :
    getTokenBalance (updatePending s who p amount).2 a q .pending =
      getTokenBalance s a q .pending +
        if (updatePending s who p amount).1 = true ∧ a = who ∧ q = p then amount else 0 := by
  cases hr : updateTallyMap s who p amount .pending with
  | none => simp [updatePending, hr]
  | some r =>
    obtain ⟨ok, s'⟩ := r
    simp only [updatePending, hr, Option.getD_some]
    cases ok with
    | false => simp [(updateTallyMap_refused hr).2.1]
    | true =>
      have hstep : TallyStep s s' who p amount .pending := assertTally_spec (by rw [assertTally, hr])
      simp [hstep.balance]

end Update

/-! ### The accounts -/

section Accounts

variable {F : Hash → Bool} {s s' : PendingState}

/-- What the pending transactions of an address and property that `F` selects take off. -/
def pendingSum (F : Hash → Bool) (m : OrdMap Hash CMPPending) (a : Address) (p : PropertyId) : Int :=
  m.sumBy fun txid e => if F txid = true ∧ a = e.src ∧ p = e.prop then e.amount else 0

/-- Every pending tally is minus the sum of the transactions whose amount was taken off. -/
def Accounted (F : Hash → Bool) (s : PendingState) : Prop :=
  ∀ a p, getTokenBalance s.state a p .pending = -pendingSum F s.my_pending a p

theorem accounted_moved {who : Address} {p : PropertyId} {δ w : Int} (hacc : Accounted F s)
    (hbalance : ∀ a q, getTokenBalance s'.state a q .pending =
      getTokenBalance s.state a q .pending + if a = who ∧ q = p then δ else 0)
    (hsum : ∀ a q, pendingSum F s'.my_pending a q =
      pendingSum F s.my_pending a q - if a = who ∧ q = p then w else 0) :
    Accounted F s' ↔ δ = w := by
  constructor
  · intro h
    have hwho := h who p
    have hold := hacc who p
    rw [hbalance, hsum, if_pos ⟨rfl, rfl⟩, if_pos ⟨rfl, rfl⟩] at hwho
    omega
  · intro h a q
    rw [hbalance, hsum, hacc a q, h]
    omega

theorem pendingSum_insertNew {m : OrdMap Hash CMPPending} {txid : Hash} (hfresh : m.find? txid = none)
    (e : CMPPending) (a : Address) (p : PropertyId) :
    pendingSum F (m.insertNew txid e) a p =
      pendingSum F m a p + if a = e.src ∧ p = e.prop then (if F txid then e.amount else 0) else 0 := by
  have hnew : m.insertNew txid e = m.insert txid e := by simp [insertNew, contains, hfresh]
  rw [hnew, pendingSum, sumBy_insert, hfresh, weightAt_none, sub_zero, pendingSum]
  by_cases hF : F txid = true <;> simp [hF]

theorem pendingSum_erase {m : OrdMap Hash CMPPending} {txid : Hash} {e : CMPPending}
    (hfind : m.find? txid = some e) (a : Address) (p : PropertyId) :
    pendingSum F (m.erase txid) a p =
      pendingSum F m a p - if a = e.src ∧ p = e.prop then (if F txid then e.amount else 0) else 0 := by
  rw [pendingSum, sumBy_erase, hfind, weightAt_some, pendingSum]
  by_cases hF : F txid = true <;> simp [hF]

/-- The condition on a call, in the state that it finds: an amount whose negation overflows is not
taken off; what was taken off is given back, as the tally is not zero, and what was not is not. -/
def StepBalances (F : Hash → Bool) (s : PendingState) : PendingCall → Prop
  | .add c => c.isSkipped = false → c.fSubtract = true → c.amount = i64Min →
      getTokenBalance s.state c.sendingAddress c.propertyId .pending < 0
  | .delete txid => ∀ pending, s.my_pending.find? txid = some pending →
      let src_amount := getTokenBalance s.state pending.src pending.prop .pending
      (F txid = true ↔ src_amount ≠ 0 ∧ isOverflow src_amount pending.amount = false)

theorem toI64_neg_eq_iff {amount : Int} (h : InI64 amount) : toI64 (-amount) = -amount ↔ amount ≠ i64Min := by
  obtain ⟨hlow, hhigh⟩ := h
  have hmin : toI64 (-i64Min) = i64Min := by decide
  constructor
  · intro heq hamount
    rw [hamount, hmin] at heq
    exact absurd heq (by decide)
  · intro hne
    refine toI64_of_inI64 ⟨?_, ?_⟩
    · simp only [i64Min, i64Max] at *
      omega
    · simp only [i64Min, i64Max] at *
      omega

theorem isOverflow_min {x : Int} : isOverflow x i64Min = true ↔ x < 0 := by
  rw [← Bool.not_eq_false, isOverflow_eq_false]
  simp only [i64Min, i64Max]
  omega

theorem pendingAdd_accounted_iff {c : Adding} (hacc : Accounted F s) (hF : F c.txid = c.fSubtract)
    (hfresh : s.my_pending.find? c.txid = none) (hne : c.amount ≠ 0) (hfits : InI64 c.amount) :
    Accounted F (pendingAdd s c) ↔ StepBalances F s (.add c) := by
  by_cases hskip : c.isSkipped = true
  · rw [pendingAdd, if_pos hskip]
    simp [StepBalances, hskip, hacc]
  rw [pendingAdd, if_neg hskip]
  by_cases hsub : c.fSubtract = true
  · have hneg : toI64 (-c.amount) ≠ 0 := by
      by_cases hmin : c.amount = i64Min
      · rw [hmin]
        decide
      · rw [(toI64_neg_eq_iff hfits).mpr hmin]
        omega
    have hok := @updatePending_fst s.state c.sendingAddress c.propertyId _ hneg
    have hbalance := @updatePending_balance s.state c.sendingAddress c.propertyId (toI64 (-c.amount))
    rw [hsub] at hF
    simp only [hsub, if_true]
    generalize updatePending s.state c.sendingAddress c.propertyId (toI64 (-c.amount)) = r at hok hbalance ⊢
    cases hrefused : r.1 with
    | false =>
      -- refused: nothing is remembered, and no tally moves
      have hkept : Accounted F { state := r.2, my_pending := s.my_pending } := by
        intro a p
        simpa [hrefused, hacc a p] using hbalance a p
      simp only [Bool.false_eq_true, if_false]
      refine iff_of_true hkept fun _ _ hmin => ?_
      have hlow : toI64 (-c.amount) = i64Min := by
        rw [hmin]
        decide
      rw [hrefused, hlow] at hok
      exact isOverflow_min.mp (by simpa using hok)
    | true =>
      simp only [if_true]
      rw [accounted_moved hacc (w := -c.amount) (by simpa [hrefused] using hbalance) fun a q => by
        rw [pendingSum_insertNew hfresh, hF]
        by_cases h : a = c.sendingAddress ∧ q = c.propertyId <;> simp [h], toI64_neg_eq_iff hfits]
      constructor
      · intro hmin _ _ heq
        exact absurd heq hmin
      · intro h heq
        have hlow : toI64 (-c.amount) = i64Min := by
          rw [heq]
          decide
        rw [hrefused, hlow, isOverflow_min.mpr (h (by simpa using hskip) hsub heq)] at hok
        cases hok
  · have hkept : Accounted F
        ⟨s.state, s.my_pending.insertNew c.txid ⟨c.sendingAddress, c.propertyId, c.amount, c.type⟩⟩ := by
      intro a p
      rw [hacc a p, pendingSum_insertNew hfresh, hF]
      simp [hsub]
    simp only [hsub]
    exact iff_of_true hkept fun _ h => absurd h hsub

theorem ite_eq_ite_iff {P Q : Prop} [Decidable P] [Decidable Q] {x : Int} (hx : x ≠ 0) :
    (if P then x else 0) = (if Q then x else 0) ↔ (Q ↔ P) := by
  by_cases hP : P <;> by_cases hQ : Q <;> simp [hP, hQ, hx, hx.symm]

theorem pendingDelete_accounted_iff {txid : Hash} (hacc : Accounted F s)
    (hne : ∀ e, s.my_pending.find? txid = some e → e.amount ≠ 0) :
    Accounted F (pendingDelete s txid) ↔ StepBalances F s (.delete txid) := by
  cases hfind : s.my_pending.find? txid with
  | none => simp [pendingDelete, StepBalances, hfind, hacc]
  | some e =>
    have he := hne e hfind
    have hok := @updatePending_fst s.state e.src e.prop _ he
    have hbalance := @updatePending_balance s.state e.src e.prop e.amount
    have hmoved : ∀ a q, getTokenBalance (pendingDelete s txid).state a q .pending =
        getTokenBalance s.state a q .pending + if a = e.src ∧ q = e.prop then
          (if getTokenBalance s.state e.src e.prop .pending ≠ 0 ∧
            isOverflow (getTokenBalance s.state e.src e.prop .pending) e.amount = false
           then e.amount else 0) else 0 := by
      intro a q
      by_cases hzero : getTokenBalance s.state e.src e.prop .pending = 0
      · simp [pendingDelete, hfind, hzero]
      · simp only [pendingDelete, hfind, ne_eq, hzero, not_false_eq_true, if_true, true_and, hbalance, hok]
        cases isOverflow (getTokenBalance s.state e.src e.prop .pending) e.amount <;> simp
    have hsum : ∀ a q, pendingSum F (pendingDelete s txid).my_pending a q = pendingSum F s.my_pending a q -
        if a = e.src ∧ q = e.prop then (if F txid then e.amount else 0) else 0 := by
      intro a q
      simp only [pendingDelete, hfind]
      exact pendingSum_erase hfind a q
    rw [accounted_moved hacc hmoved hsum, StepBalances]
    simp only [hfind, Option.some.injEq, forall_eq']
    exact ite_eq_ite_iff he

end Accounts

/-! ### Whole runs -/

/-- The transaction that a call adds. -/
def addedId : PendingCall → Option Hash
  | .add c => some c.txid
  | .delete _ => none

/-- Was the transaction added with the amount to be taken off? -/
def wasSubtracted (calls : List PendingCall) (txid : Hash) : Bool :=
  calls.any fun
    | .add c => decide (c.txid = txid) && c.fSubtract
    | .delete _ => false

/-- No transaction is added twice, and amounts are numbers of 64 bits other than zero. -/
structure WellCalled (calls : List PendingCall) : Prop where
  distinct : (calls.filterMap addedId).Nodup
  amounts : ∀ c, PendingCall.add c ∈ calls → c.amount ≠ 0 ∧ InI64 c.amount

/-- What is pending has been added. -/
def Remembered (seen : List PendingCall) (s : PendingState) : Prop :=
  ∀ txid e, s.my_pending.find? txid = some e →
    ∃ c, PendingCall.add c ∈ seen ∧ c.txid = txid ∧ c.amount = e.amount

section Runs

variable {calls seen rest : List PendingCall} {s : PendingState}

theorem Remembered.step (h : Remembered seen s) (c : PendingCall) :
    Remembered (seen ++ [c]) (pendingStep s c) := by
  have hold : Remembered (seen ++ [c]) s := by
    intro txid e hfind
    obtain ⟨c', hmem, hc'⟩ := h txid e hfind
    exact ⟨c', List.mem_append_left _ hmem, hc'⟩
  cases c with
  | add c =>
    rw [pendingStep, pendingAdd]
    by_cases hskip : c.isSkipped = true
    · rwa [if_pos hskip]
    rw [if_neg hskip]
    intro txid e hfind
    dsimp only at hfind
    split_ifs at hfind
    all_goals first
      | exact hold txid e hfind
      | (rcases find?_insertNew_cases hfind with hfind | ⟨rfl, rfl⟩
         · exact hold _ _ hfind
         · exact ⟨c, by simp, rfl, rfl⟩)
  | delete txid =>
    rw [pendingStep, pendingDelete]
    cases s.my_pending.find? txid with
    | none => exact hold
    | some pending =>
      intro txid' e hfind
      rw [find?_erase] at hfind
      split_ifs at hfind
      exact hold txid' e hfind

/-- Where a transaction is added, it has not been added before, and it is not added otherwise. -/
theorem WellCalled.sole (h : WellCalled calls) {c : Adding} (hsplit : calls = seen ++ .add c :: rest) :
    (∀ c', PendingCall.add c' ∈ seen → c'.txid ≠ c.txid) ∧ wasSubtracted calls c.txid = c.fSubtract := by
  have hdistinct := h.distinct
  rw [hsplit, List.filterMap_append, List.filterMap_cons] at hdistinct
  simp only [addedId] at hdistinct
  obtain ⟨-, hrest, hdisjoint⟩ := List.nodup_append.mp hdistinct
  have hid : ∀ {l : List PendingCall} {c'}, PendingCall.add c' ∈ l → c'.txid ∈ l.filterMap addedId := by
    intro l c' hmem
    exact List.mem_filterMap.mpr ⟨_, hmem, rfl⟩
  have hseen : ∀ c', PendingCall.add c' ∈ seen → c'.txid ≠ c.txid := by
    intro c' hmem
    exact hdisjoint _ (hid hmem) _ (.head _)
  have hbehind : ∀ c', PendingCall.add c' ∈ rest → c'.txid ≠ c.txid := by
    intro c' hmem heq
    exact (List.nodup_cons.mp hrest).1 (heq ▸ hid hmem)
  refine ⟨hseen, ?_⟩
  rw [Bool.eq_iff_iff, wasSubtracted, List.any_eq_true, hsplit]
  constructor
  · rintro ⟨x, hmem, hx⟩
    cases x with
    | delete txid => cases hx
    | add c' =>
      simp only [Bool.and_eq_true, decide_eq_true_eq] at hx
      rcases List.mem_append.mp hmem with hmem | hmem
      · exact absurd hx.1 (hseen c' hmem)
      · rcases List.mem_cons.mp hmem with heq | hmem
        · rw [← PendingCall.add.inj heq]
          exact hx.2
        · exact absurd hx.1 (hbehind c' hmem)
  · intro hsub
    exact ⟨.add c, by simp, by simp [hsub]⟩

/-- One step of a run keeps the accounts if and only if it meets the condition. -/
theorem pendingStep_accounted_iff (h : WellCalled calls) {c : PendingCall}
    (hsplit : calls = seen ++ c :: rest) (hrem : Remembered seen s)
    (hacc : Accounted (wasSubtracted calls) s) :
    Accounted (wasSubtracted calls) (pendingStep s c) ↔ StepBalances (wasSubtracted calls) s c := by
  have hmem : ∀ c', PendingCall.add c' ∈ seen → PendingCall.add c' ∈ calls := by
    intro c' hc'
    rw [hsplit]
    exact List.mem_append_left _ hc'
  cases c with
  | add c =>
    obtain ⟨hsole, hF⟩ := h.sole hsplit
    obtain ⟨hne, hfits⟩ := h.amounts c (by simp [hsplit])
    refine pendingAdd_accounted_iff hacc hF ?_ hne hfits
    cases hfind : s.my_pending.find? c.txid with
    | none => rfl
    | some e =>
      obtain ⟨c', hc', htxid, -⟩ := hrem _ e hfind
      exact absurd htxid (hsole c' hc')
  | delete txid =>
    refine pendingDelete_accounted_iff hacc fun e hfind => ?_
    obtain ⟨c', hc', -, hamount⟩ := hrem _ e hfind
    rw [← hamount]
    exact (h.amounts c' (hmem c' hc')).1

theorem accounted_run_iff (h : WellCalled calls) (hsplit : calls = seen ++ rest) (hrem : Remembered seen s)
    (hacc : Accounted (wasSubtracted calls) s) :
    (∀ n, Accounted (wasSubtracted calls) ((rest.take n).foldl pendingStep s)) ↔
      Along pendingStep (StepBalances (wasSubtracted calls)) s rest := by
  induction rest generalizing seen s with
  | nil => simp [Along, hacc]
  | cons c rest ih =>
    have hstep := pendingStep_accounted_iff h hsplit hrem hacc
    have hrest := @ih (seen ++ [c]) (pendingStep s c) (by simp [hsplit]) (hrem.step c)
    rw [Along]
    constructor
    · intro hall
      have hacc' : Accounted (wasSubtracted calls) (pendingStep s c) := by simpa using hall 1
      exact ⟨hstep.mp hacc', (hrest hacc').mp fun n => by simpa using hall (n + 1)⟩
    · intro hguard n
      have hacc' := hstep.mpr hguard.1
      cases n with
      | zero => simpa using hacc
      | succ n => simpa using (hrest hacc').mpr hguard.2 n

end Runs

theorem remembered_start (s : State) : Remembered [] ⟨s, ∅⟩ := by
  intro txid e hfind
  simp at hfind

theorem accounted_start (F : Hash → Bool) {s : State}
    (hstart : ∀ a p, getTokenBalance s a p .pending = 0) : Accounted F ⟨s, ∅⟩ := by
  intro a p
  simp [hstart, pendingSum]

/-- **The pending tallies are always minus the sums of what was taken off for transactions that
are still pending** if every call meets the condition, and only then. -/
theorem pending_accounted_iff {calls : List PendingCall} (hcalls : WellCalled calls) {s : State}
    (hstart : ∀ a p, getTokenBalance s a p .pending = 0) :
    (∀ n, Accounted (wasSubtracted calls) ((calls.take n).foldl pendingStep ⟨s, ∅⟩)) ↔
      Along pendingStep (StepBalances (wasSubtracted calls)) ⟨s, ∅⟩ calls :=
  accounted_run_iff hcalls rfl (remembered_start s) (accounted_start _ hstart)

/-- Two sends, deleted in the order in which they were added. -/
def twoSends : List PendingCall :=
  [.add ⟨1, "sender", 0, 3, 10, true⟩, .add ⟨2, "sender", 0, 3, 5, true⟩, .delete 1, .delete 2]

theorem twoSends_sends {c : Adding} (hc : PendingCall.add c ∈ twoSends) :
    InI64 c.amount ∧ 0 < c.amount ∧ c.fSubtract = true := by
  simp only [twoSends, List.mem_cons, PendingCall.add.injEq, List.not_mem_nil, or_false, reduceCtorEq] at hc
  rcases hc with rfl | rfl <;> decide

theorem twoSends_wellCalled : WellCalled twoSends :=
  ⟨by decide, fun _ hc => ⟨(twoSends_sends hc).2.1.ne', (twoSends_sends hc).1⟩⟩

theorem pending_accounted_twoSends :
    Accounted (wasSubtracted twoSends) ((twoSends.take 3).foldl pendingStep ⟨plainState .test, ∅⟩) := by
  refine (pending_accounted_iff twoSends_wellCalled fun a p => rfl).mpr ?_ 3
  refine ⟨?_, ?_, ?_, ?_, trivial⟩
  · intro _ _ h
    exact absurd h (by decide)
  · intro _ _ h
    exact absurd h (by decide)
  · intro pending hfind
    have heq : some pending = some ⟨"sender", 3, 10, 0⟩ := hfind.symm.trans (by decide +kernel)
    cases heq
    decide +kernel
  · intro pending hfind
    have heq : some pending = some ⟨"sender", 3, 5, 0⟩ := hfind.symm.trans (by decide +kernel)
    cases heq
    decide +kernel

/-- A send, and a cancellation of orders that takes nothing off and is deleted first. -/
def sendAndCancel : List PendingCall :=
  [.add ⟨1, "sender", 0, 3, 10, true⟩, .add ⟨2, "sender", 26, 3, 5, false⟩, .delete 2]

/-- The amount of the cancellation is put back all the same. -/
theorem pending_credited_unasked :
    (sendAndCancel.filterMap addedId).Nodup ∧
    getTokenBalance (sendAndCancel.foldl pendingStep ⟨plainState .test, ∅⟩).state "sender" 3 .pending = -5 ∧
    pendingSum (wasSubtracted sendAndCancel)
      (sendAndCancel.foldl pendingStep ⟨plainState .test, ∅⟩).my_pending "sender" 3 = 10 ∧
    ¬ Accounted (wasSubtracted sendAndCancel) (sendAndCancel.foldl pendingStep ⟨plainState .test, ∅⟩) := by
  have hbalance : getTokenBalance (sendAndCancel.foldl pendingStep ⟨plainState .test, ∅⟩).state "sender" 3
      .pending = -5 := by
    decide +kernel
  have hsum : pendingSum (wasSubtracted sendAndCancel)
      (sendAndCancel.foldl pendingStep ⟨plainState .test, ∅⟩).my_pending "sender" 3 = 10 := by
    decide +kernel
  refine ⟨by decide, hbalance, hsum, fun hacc => ?_⟩
  have h := hacc "sender" 3
  rw [hbalance, hsum] at h
  exact absurd h (by decide)

/-! ### Amounts that are taken off -/

theorem le_pendingSum {F : Hash → Bool} {m : OrdMap Hash CMPPending}
    (hpos : ∀ txid e, m.find? txid = some e → 0 ≤ e.amount) {txid : Hash} {e : CMPPending}
    (hfind : m.find? txid = some e) (hF : F txid = true) : e.amount ≤ pendingSum F m e.src e.prop := by
  have hle := @le_sumEntries _ _ (fun txid x => if F txid = true ∧ e.src = x.src ∧ e.prop = x.prop then x.amount else 0)
    m.entries (fun x hx => by
      have hx' := hpos x.1 x.2 (mem_entries_iff.mp hx)
      split_ifs <;> omega) (txid, e) (mem_entries_iff.mpr hfind)
  rw [pendingSum, sumBy]
  simpa [hF] using hle

/-- Where every addition takes a positive amount off, a call meets the condition: a tally is below
zero while something of it is pending. -/
theorem Remembered.stepBalances {calls seen rest : List PendingCall} {c : PendingCall} {s : PendingState}
    (hrem : Remembered seen s) (hcalls : WellCalled calls) (hsplit : calls = seen ++ c :: rest)
    (hall : ∀ c, PendingCall.add c ∈ calls → 0 < c.amount ∧ c.fSubtract = true)
    (hacc : Accounted (wasSubtracted calls) s) : StepBalances (wasSubtracted calls) s c := by
  cases c with
  | add c =>
    intro _ _ hmin
    have hpos := (hall c (by simp [hsplit])).1
    rw [hmin] at hpos
    exact absurd hpos (by decide)
  | delete txid =>
    intro pending hfind
    have hpos : ∀ txid e, s.my_pending.find? txid = some e →
        0 < e.amount ∧ wasSubtracted calls txid = true := by
      intro txid e hfind
      obtain ⟨c, hmem, rfl, hamount⟩ := hrem txid e hfind
      obtain ⟨before, behind, hseen⟩ := List.append_of_mem hmem
      have hadd := hall c (by simp [hsplit, hmem])
      rw [← hamount, (hcalls.sole (by rw [hsplit, hseen, List.append_assoc]; rfl)).2]
      exact hadd
    obtain ⟨hamount, hF⟩ := hpos txid pending hfind
    have hle := le_pendingSum (fun txid e h => le_of_lt (hpos txid e h).1) hfind hF
    have hbalance := hacc pending.src pending.prop
    have hfits : isOverflow (getTokenBalance s.state pending.src pending.prop .pending)
        pending.amount = false := by
      rw [isOverflow_eq_false, i64Max, i64Min]
      omega
    exact iff_of_true hF ⟨by omega, hfits⟩

/-- Transactions with positive amounts that are all taken off are accounted for, in whatever order
they are deleted. -/
theorem pending_accounted_of_subtracted {calls : List PendingCall} (hcalls : WellCalled calls)
    (hall : ∀ c, PendingCall.add c ∈ calls → 0 < c.amount ∧ c.fSubtract = true) {s : State}
    (hstart : ∀ a p, getTokenBalance s a p .pending = 0) (n : Nat) :
    Accounted (wasSubtracted calls) ((calls.take n).foldl pendingStep ⟨s, ∅⟩) := by
  have hrun : ∀ {seen rest : List PendingCall} {s : PendingState}, calls = seen ++ rest →
      Remembered seen s → Accounted (wasSubtracted calls) s →
      Along pendingStep (StepBalances (wasSubtracted calls)) s rest := by
    intro seen rest
    induction rest generalizing seen with
    | nil => intros; trivial
    | cons c rest ih =>
      intro s hsplit hrem hacc
      have hguard := hrem.stepBalances hcalls hsplit hall hacc
      have hacc' := (pendingStep_accounted_iff hcalls hsplit hrem hacc).mpr hguard
      exact ⟨hguard, ih (by simp [hsplit]) (hrem.step c) hacc'⟩
  have hfirst := remembered_start s
  have hacc : Accounted (wasSubtracted calls) ⟨s, ∅⟩ := accounted_start _ hstart
  exact (accounted_run_iff hcalls rfl hfirst hacc).mpr (hrun rfl hfirst hacc) n

/-- The two sends, after three calls. -/
theorem pending_accounted_subtractedSends :
    Accounted (wasSubtracted twoSends) ((twoSends.take 3).foldl pendingStep ⟨plainState .test, ∅⟩) := by
  refine pending_accounted_of_subtracted twoSends_wellCalled ?_ (fun a p => rfl) 3
  intro c hc
  exact (twoSends_sends hc).2

end Rapids.Token
