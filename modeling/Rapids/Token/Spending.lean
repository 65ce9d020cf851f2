import Rapids.Token.Book
import Rapids.Token.Frozen
import Rapids.Token.Invariant

/-!
# Rapids.Token.Spending

**Only the owner spends.** Whatever the events of a run are, transactions of every type, payments of
accepted offers and the hooks of a block, the balance of an address decreases only by a transaction
that the address sends itself (`balance_kept_unless_sent`). Others can only add to it: orders that
are filled, cancelled or closed give back what was reserved for them.

The walk through the handlers asks for each debit whether it is allowed; here that is so if the
balance is the sender's. Sending to many is the exception: an amount of `2 ^ 63` or more is moved as a
negative one, and debits the receiver.
-/

namespace Rapids.Token

open Rapids.Lib

/-- Who may be debited by an event. -/
def Event.spender : Event → Option Address
  | .packet tx _ => some tx.sender
  | _ => none

/-- Are the amounts that an event sends to many no negative ones when they are moved? -/
def Event.sendsAmounts : Event → Bool
  | .packet tx _ => tx.outputValuesForSTM.all fun e => 0 ≤ toI64 e.2
  | _ => true

/-- No balance has decreased since `s₀` but those of the spender, and every open order has something
left. -/
structure Unspent (who : Option Address) (s₀ s : State) : Prop where
  balance : ∀ a p, who ≠ some a → getTokenBalance s₀ a p .balance ≤ getTokenBalance s a p .balance
  orders : OrdersOpen s

section

variable {who : Option Address} {s₀ s s' : State}

theorem Unspent.of_eq (h : Unspent who s₀ s) (ht : s'.tally = s.tally) (hb : s'.metadex = s.metadex) :
    Unspent who s₀ s' := by
  refine ⟨fun a p ha => ?_, fun p price pos o hord => h.orders p price pos o ?_⟩
  · rw [show getTokenBalance s' a p .balance = getTokenBalance s a p .balance by
      rw [getTokenBalance, getTokenBalance, ht]]
    exact h.balance a p ha
  · rwa [State.orderAt, State.level, hb] at hord

/-- **The rule for an update**: what is debited is the spender's. -/
theorem Unspent.update (h : Unspent who s₀ s) {a : Address} {p : PropertyId} {amount : Int} {tt : TallyType}
    (howner : tt = .balance → amount < 0 → who = some a) :
    Every (Out (Unspent who s₀)) (updateTallyMap s a p amount tt) := by
  rintro ⟨ok, s'⟩ hs
  have hkept : ∀ b q, who ≠ some b → getTokenBalance s b q .balance ≤ getTokenBalance s' b q .balance := by
    intro b q hb
    cases ok with
    | false => exact ((updateTallyMap_refused hs).2.1 b q .balance).ge
    | true =>
      rw [(assertTally_of_update hs).balance]
      split_ifs with hc
      · obtain ⟨rfl, rfl, htt⟩ := hc
        have hcredit : ¬ amount < 0 := fun hneg => hb (howner htt.symm hneg)
        omega
      · omega
  have hframe : s' = { s with tally := s'.tally } := by
    cases ok with
    | false => exact (updateTallyMap_refused hs).1
    | true => exact (assertTally_of_update hs).frame
  refine ⟨fun b q hb => (h.balance b q hb).trans (hkept b q hb), ?_⟩
  show OrdersOpen s'
  rw [hframe]
  exact h.orders

/-- **The primitive steps.** An open order has something left, so that giving it back is a credit. -/
theorem unspent_lockstep (who : Option Address) (s₀ : State) :
    Lockstep (fun a _ => who = some a) (Beside (Unspent who s₀)) where
  same := by
    rintro _ s s' ⟨rfl, -⟩
    rfl
  write := by
    rintro _ s s' r r' ⟨rfl, h⟩ hr hr'
    exact ⟨by rw [hr', hr], h.of_eq (by rw [hr]) (by rw [hr])⟩
  update := by
    rintro _ s s' a p amount tt ⟨rfl, h⟩ howner
    have hall := h.update (p := p) howner
    generalize updateTallyMap s' a p amount tt = x at hall ⊢
    cases x with
    | none => exact .none
    | some r => exact .some ⟨rfl, rfl, hall r rfl⟩
  orders h ho := .of_nonneg (h.2.orders _ _ _ _ ho).le
  erase := by
    rintro _ s s' p price pos ⟨rfl, h⟩
    refine ⟨rfl, h.balance, fun q price' pos' o ho => ?_⟩
    rw [State.orderAt_eraseOrder] at ho
    split_ifs at ho
    exact h.orders _ _ _ _ ho
  put := by
    rintro _ s s' o p price pos ⟨rfl, h⟩ hleft
    refine ⟨rfl, h.balance, fun q price' pos' o' ho => ?_⟩
    rw [State.orderAt_putOrder] at ho
    split_ifs at ho
    · rwa [← Option.some.inj ho]
    · exact h.orders _ _ _ _ ho
  threshold := by
    rintro _ s s' p ⟨rfl, -⟩ -
    rfl
  setThreshold := by
    rintro _ s s' p ⟨rfl, h⟩
    exact ⟨rfl, h.of_eq rfl rfl⟩
  mono _ h := h
  live := by
    rintro _ s s' height ⟨rfl, h⟩
    refine ⟨rfl, ?_⟩
    rw [checkLiveActivations_frame]
    exact h.of_eq rfl rfl
  pending := by
    rintro _ s s' a ⟨rfl, h⟩
    exact ⟨rfl, h.of_eq rfl rfl⟩
  alerts := by
    rintro _ s s' f ⟨rfl, h⟩
    exact ⟨rfl, h.of_eq rfl rfl⟩

theorem unspent_followsFrozen (who : Option Address) (s₀ : State) : FollowsFrozen (Beside (Unspent who s₀)) where
  same h := by rw [h.1]
  freeze := by
    rintro _ s s' ⟨rfl, h⟩ a p -
    exact ⟨rfl, h.of_eq rfl rfl⟩
  unfreeze := by
    rintro _ s s' ⟨rfl, h⟩ a p
    exact ⟨rfl, h.of_eq rfl rfl⟩

/-- **One event** debits its spender only. -/
theorem handle_unspent (ho : OrdersOpen s) {e : Event} (hmany : e.sendsAmounts = true) :
    Every (Unspent e.spender s) (handle s e) := by
  have h : Beside (Unspent e.spender s) (fun _ => True) s s := ⟨rfl, fun _ _ _ => le_rfl, ho⟩
  have L := unspent_lockstep e.spender s
  cases e with
  | blockBegin height time hash => exact every_of_rel (L.walk.handlerBlockBegin_rel h height time hash)
  | payment block sender outputs => exact every_of_rel (L.walk.handleDExPayments_rel h sender outputs block)
  | packet tx env =>
    refine every_map (P := Out (Unspent (some tx.sender) s)) (reject_out h.2 fun _ => ?_) fun _ h1 => h1
    cases htype : TxType.ofId tx.type with
    | none => exact every_some h.2
    | some txType =>
      refine out_of_rel (L.walk.logicMath_rel h tx env rfl (fun _ _ e he hneg => ?_) (fun _ _ => trivial)
        (fun _ => L.followsParams) fun _ => ⟨unspent_followsFrozen _ _, fun _ => rfl⟩)
      have hamount := List.all_eq_true.mp hmany e he
      exact absurd hneg (not_lt.mpr (of_decide_eq_true hamount))
  | blockEnd height time => exact every_of_rel (L.walk.handlerBlockEnd_rel h height time)

end

/-- **Only the owner spends.** From every reachable state, and over every run of events none of which
is a transaction of the address, its balances do not decrease. -/
theorem balance_kept_unless_sent {cfg : Config} {es later : List Event} {n n' : Node} {a : Address}
    (hrun : run step (Node.initial cfg) es = some n) (hlater : run step n later = some n')
    (hmany : ∀ e ∈ later, e.sendsAmounts = true) (hnot : ∀ e ∈ later, e.spender ≠ some a) (p : PropertyId) :
    getTokenBalance n.state a p .balance ≤ getTokenBalance n'.state a p .balance := by
  have hopen : OrdersOpen n.state := fun p price pos o ho => ((run_bookInv hrun).2.placed p price pos o ho).remaining
  refine (run_invariant_mem (I := fun m : Node => OrdersOpen m.state ∧
    getTokenBalance n.state a p .balance ≤ getTokenBalance m.state a p .balance) ?_ ⟨hopen, le_rfl⟩ hlater).2
  rintro m e he m' ⟨ho, hle⟩ hstep
  obtain ⟨-, hhandle, -⟩ := step_eq_some.mp hstep
  have h := handle_unspent ho (hmany e he) m'.state hhandle
  exact ⟨h.orders, hle.trans (h.balance a p (hnot e he))⟩

/-- `alice` sends ten tokens to `bob`, and the balance of `bob` has not decreased. -/
theorem balance_kept_unless_sent_toMany :
    ∃ n n', run step (Node.initial regtestCfg) frozenRun = some n ∧
      run step n [.packet (toMany 25 10 15) issuanceEnv] = some n' ∧
      getTokenBalance n.state "bob" 3 .balance ≤ getTokenBalance n'.state "bob" 3 .balance := by
  have hrun : ((run step (Node.initial regtestCfg) frozenRun).bind fun n =>
      run step n [.packet (toMany 25 10 15) issuanceEnv]).isSome = true := by
    decide +kernel
  obtain ⟨n', hn'⟩ := Option.isSome_iff_exists.mp hrun
  obtain ⟨n, hn, hlater⟩ := Option.bind_eq_some_iff.mp hn'
  refine ⟨n, n', hn, hlater, balance_kept_unless_sent hn hlater (fun e he => ?_) (fun e he => ?_) 3⟩
  · obtain rfl := List.mem_singleton.mp he
    decide
  · obtain rfl := List.mem_singleton.mp he
    decide

end Rapids.Token
