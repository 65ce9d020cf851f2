import Rapids.Token.Lockstep

/-!
# Rapids.Token.Frozen

**Frozen balances.** A packet whose sender is frozen for its property is
rejected before any handler runs, and sending everything leaves frozen properties
out. Behind this `update_tally_map` asserts that a balance it debits is not
frozen. `unasserted` is the token layer without that assertion, and the question
is whether it makes a difference.

The two are compared step by step (`Kept`). A run of the code and a run without
the assertion hold the same state but for the frozen set, which the second one
has lost; no frozen balance has decreased; and every open order has something
left, so that cancelling it is a credit. The only rule for a debit is that the
balance is not frozen, and each handler owes an argument for it: it debits the
sender in the property of the packet, or a balance it has found not frozen, or
nothing but reserves.

Sending to many has no such argument. Its amounts are unsigned and are moved as
signed ones, so that an amount of `2 ^ 63` or more debits the receiver.
-/

namespace Rapids.Token

open Rapids.Lib

variable {tx : CMPTransaction} {p : PropertyId} {amount : Int} {r : State} {env : TxEnv}

/-! ### Without the assertion -/

/-- The state in which the assertion finds nobody frozen. -/
def State.thaw (s : State) : State := { s with frozen := ∅ }

/-- The loop over the sender's properties, with the frozen set of the state `s₀`. -/
def sendAllUnasserted (s₀ : State) (tx : CMPTransaction) :
    List PropertyId → Nat → State → Option (Nat × State)
  | [], sent, s => some (sent, s)
  | p :: rest, sent, s =>
    let moneyAvailable := getTokenBalance s tx.sender p .balance
    if skippedBySendAll s₀ tx p ∨ moneyAvailable ≤ 0 then sendAllUnasserted s₀ tx rest sent s
    else do
      let s ← transferTally s p moneyAvailable (tx.sender, .balance) (tx.receiver, .balance)
      sendAllUnasserted s₀ tx rest (sent + 1) s

/-- Tx 4 without the assertion. -/
def logicMathSendAllUnasserted (s : State) (tx : CMPTransaction) : Option (Int × State) :=
  reject s.thaw
    [ (notAllowed s tx tx.ecosystem .sendAll, pktErrorSendAll - 22),
      ((s.tally.find? tx.sender).isNone, pktErrorSendAll - 54) ]
    do
      let properties := (((s.tally.find? tx.sender).getD ∅).entries.map Prod.fst).takeWhile (· != 0)
      let (sent, s) ← sendAllUnasserted s tx properties 0 s.thaw
      return (if sent = 0 then pktErrorSendAll - 55 else 0, s)

/-- The handler of a transaction type, without the assertion. -/
def logicMathUnasserted (s : State) (tx : CMPTransaction) (env : TxEnv) (txType : TxType) :
    Option (Int × State) :=
  if txType.isFreezing then logicMath s tx env txType
  else
    (if txType = .sendAll then logicMathSendAllUnasserted s tx else logicMath s.thaw tx env txType).map
      fun r => (r.1, { r.2 with frozen := s.frozen })

/-- The handler of an event, without the assertion. -/
def unasserted (s : State) : Event → Option State
  | .packet tx env =>
    (reject s
      [ (tx.rpcOnly, pktError - 1),
        (!tx.interpreted, pktError - 2),
        (isAddressFrozen s tx.sender tx.property, pktError - 3) ]
      (match TxType.ofId tx.type with
      | none => some (pktError - 100, s)
      | some txType => logicMathUnasserted s tx env txType)).map Prod.snd
  | e => (handle s.thaw e).map fun s' => { s' with frozen := s.frozen }

/-! ### Two runs, one without the assertion -/

/-- Every open order has something left. -/
def OrdersOpen (s : State) : Prop :=
  ∀ p price pos o, s.orderAt p price pos = some o → 0 < o.amountRemaining

/-- The states of the two runs, both started from `s₀`. -/
structure Kept (s₀ s s' : State) : Prop where
  same : s' = { s with frozen := ∅ }
  frozen : s.frozen = s₀.frozen
  balance : ∀ a p, isAddressFrozen s₀ a p = true →
    getTokenBalance s₀ a p .balance ≤ getTokenBalance s a p .balance
  orders : OrdersOpen s

section Tally

variable {s₀ s s' : State}

theorem Kept.refl (ho : OrdersOpen s) : Kept s s s.thaw := ⟨rfl, rfl, fun _ _ _ => le_rfl, ho⟩

theorem Kept.write {r' : State} (h : Kept s₀ s s') (hr : r' = { r with frozen := ∅ })
    (hf : r.frozen = s.frozen) (ht : r.tally = s.tally) (hb : r.metadex = s.metadex) : Kept s₀ r r' := by
  refine ⟨hr, hf.trans h.frozen, fun a p hap => ?_, fun p price pos o hord => ?_⟩
  · rw [show getTokenBalance r a p .balance = getTokenBalance s a p .balance by
      rw [getTokenBalance, getTokenBalance, ht]]
    exact h.balance a p hap
  · refine h.orders p price pos o ?_
    rwa [State.orderAt, State.level, hb] at hord

theorem checkLiveActivations_kept (h : Kept s₀ s s') (height : Nat) :
    Kept s₀ (checkLiveActivations s height) (checkLiveActivations s' height) := by
  have hpending : s'.pendingActivations = s.pendingActivations := by rw [h.same]
  unfold checkLiveActivations
  rw [hpending]
  generalize s.pendingActivations.filter _ = live
  clear hpending
  induction live generalizing s s' with
  | nil => exact h
  | cons a rest ih =>
    refine ih ?_
    obtain rfl := h.same
    exact h.write rfl rfl rfl rfl

theorem isAddressFrozen_congr (h : r.frozen = s.frozen) (a : Address) (p : PropertyId) :
    isAddressFrozen r a p = isAddressFrozen s a p := by
  unfold isAddressFrozen
  rw [h]

/-- **The rule for an update**: a balance that is debited must not be frozen. -/
theorem updateTallyMap_kept (h : Kept s₀ s s') {who : Address}
    {tt : TallyType} (hsafe : tt = .balance → amount < 0 → isAddressFrozen s₀ who p = false) :
    Option.Rel (EqualRc (Kept s₀)) (updateTallyMap s who p amount tt) (updateTallyMap s' who p amount tt) := by
  have hdebit : ¬ (tt = .balance ∧ amount < 0 ∧ isAddressFrozen s who p = true) := by
    rintro ⟨h1, h2, h3⟩
    rw [isAddressFrozen_congr h.frozen, hsafe h1 h2] at h3
    cases h3
  obtain rfl := h.same
  by_cases h0 : amount = 0
  · rw [updateTallyMap, updateTallyMap, if_pos h0, if_pos h0]
    exact .some ⟨rfl, h⟩
  · have hs := (rfl : updateTallyMap s who p amount tt = updateTallyMap s who p amount tt)
    conv_rhs at hs => rw [updateTallyMap, if_neg h0, if_neg hdebit]
    have hs' := (rfl : updateTallyMap { s with frozen := ∅ } who p amount tt = _)
    conv_rhs at hs' =>
      rw [updateTallyMap, if_neg h0, if_neg fun hc => absurd hc.2.2 Bool.false_ne_true]
    dsimp only at hs hs'
    rw [hs, hs']
    refine .some ⟨rfl, rfl, h.frozen, fun a q haq => (h.balance a q haq).trans ?_, h.orders⟩
    cases hok : (CMPTally.updateMoney ((s.tally.find? who).getD ∅) p amount tt).1 with
    | false =>
      rw [hok] at hs
      exact ((updateTallyMap_refused hs).2.1 a q .balance).ge
    | true =>
      rw [hok] at hs
      rw [(assertTally_of_update hs).balance]
      split_ifs with hc
      · obtain ⟨rfl, rfl, htt⟩ := hc
        have hcredit : ¬ amount < 0 := by
          intro hneg
          rw [hsafe htt.symm hneg] at haq
          cases haq
        omega
      · omega

/-- **The primitive steps** with and without the assertion. Every open order has
something left, so cancelling it is a credit. -/
theorem kept_lockstep (s₀ : State) :
    Lockstep (fun a p => isAddressFrozen s₀ a p = false) (fun _ => Kept s₀) where
  same h := by rw [h.same]
  write := by
    intro _ s s' r r' h hr hr'
    rw [h.same] at hr'
    exact h.write (by rw [hr', hr]) (by rw [hr]) (by rw [hr]) (by rw [hr])
  update := fun h hsafe => updateTallyMap_kept h hsafe
  orders h hord := .of_nonneg (h.orders _ _ _ _ hord).le
  erase := by
    intro _ s s' p price pos h
    obtain rfl := h.same
    refine ⟨rfl, h.frozen, h.balance, fun q price' pos' o ho => ?_⟩
    rw [State.orderAt_eraseOrder] at ho
    split_ifs at ho
    exact h.orders _ _ _ _ ho
  put := by
    intro _ s s' o p price pos h hleft
    obtain rfl := h.same
    refine ⟨rfl, h.frozen, h.balance, fun q price' pos' o' ho => ?_⟩
    rw [State.orderAt_putOrder] at ho
    split_ifs at ho
    · rw [Option.some.injEq] at ho
      rw [← ho]
      exact hleft
    · exact h.orders _ _ _ _ ho
  threshold h _ := by rw [h.same]
  setThreshold := by
    intro _ s s' p h
    obtain rfl := h.same
    exact h.write rfl rfl rfl rfl
  mono _ h := h
  live height h := checkLiveActivations_kept h height
  pending := by
    intro _ s s' a h
    obtain rfl := h.same
    exact h.write rfl rfl rfl rfl
  alerts := by
    intro _ s s' f h
    obtain rfl := h.same
    exact h.write rfl rfl rfl rfl

end Tally

section Packets

variable {s₀ s s' : State}

theorem sendAllLoop_kept (h : Kept s₀ s s') (tx : CMPTransaction) (l : List PropertyId) (sent : Nat) :
    Option.Rel (EqualRc (Kept s₀)) (sendAllLoop tx l sent s) (sendAllUnasserted s₀ tx l sent s') := by
  induction l generalizing s s' sent with
  | nil => exact .some ⟨rfl, h⟩
  | cons p rest ih =>
    have hskip := ih h sent
    have hbal : getTokenBalance s' tx.sender p .balance = getTokenBalance s tx.sender p .balance := by
      rw [h.same]
      rfl
    have hfrozen : skippedBySendAll s tx p = skippedBySendAll s₀ tx p := by
      rw [skippedBySendAll, skippedBySendAll, isAddressFrozen_congr h.frozen]
    rw [sendAllLoop, sendAllUnasserted, hbal, hfrozen]
    refine rel_ite_of (fun _ => hskip) fun hgo => ?_
    push Not at hgo
    have hfree : isAddressFrozen s₀ tx.sender p = false := by
      have hsk := hgo.1
      rw [ne_eq, Bool.not_eq_true, skippedBySendAll, Bool.or_eq_false_iff] at hsk
      exact hsk.2
    exact rel_bind ((kept_lockstep s₀).walk.transferTally_rel (F := fun _ => True) h trivial _ _
      (.of_nonneg hgo.2.le) fun _ => hfree) fun _ _ hab => ih hab _

theorem logicMathSendAll_kept (tx : CMPTransaction) (ho : OrdersOpen s) :
    Option.Rel (EqualRc (Kept s)) (logicMathSendAll s tx) (logicMathSendAllUnasserted s tx) := by
  have h := Kept.refl ho
  refine reject_related h _ fun _ => rel_bind (sendAllLoop_kept h tx _ _) fun a b hab => ?_
  obtain ⟨sent, r⟩ := a
  obtain ⟨sent', r'⟩ := b
  obtain ⟨rfl, hr⟩ : sent = sent' ∧ Kept s r r' := hab
  exact .some ⟨rfl, hr⟩

/-- Does an output of a packet debit a receiver that is frozen? -/
def debitsFrozen (s : State) (tx : CMPTransaction) : Bool :=
  tx.outputValuesForSTM.any fun e =>
    decide (toI64 e.2 < 0) &&
      (tx.validOutputAddressesForSTM.find? e.1).any fun receiver => isAddressFrozen s receiver tx.property

theorem not_debitsFrozen (h : debitsFrozen s tx = false) :
    ManyCreditable (fun a p => isAddressFrozen s a p = false) tx tx.outputValuesForSTM := by
  intro e he hneg receiver hr
  have hany := List.any_eq_false.mp h e he
  rw [decide_eq_true hneg, hr, Bool.true_and, Option.any_some, Bool.not_eq_true] at hany
  exact hany

/-- Does the packet pass the checks of sending to many? -/
def isSendToMany (s : State) (tx : CMPTransaction) : Bool :=
  isInterpreted s tx && TxType.ofId tx.type == some .sendToMany && (stmChecks s tx).all fun c => !c.1

/-- **The condition.** No output of a packet that sends to many debits a frozen
receiver. -/
def freezeSafe (s : State) : Event → Bool
  | .packet tx _ => !(isSendToMany s tx && debitsFrozen s tx)
  | _ => true

theorem manyCreditable_of_safe (htype : TxType.ofId tx.type = some .sendToMany)
    (hint : isInterpreted s tx = true) (hsafe : freezeSafe s (.packet tx env) = true)
    (hpass : ∀ c ∈ stmChecks s tx, c.1 = false) :
    ManyCreditable (fun a p => isAddressFrozen s a p = false) tx tx.outputValuesForSTM := by
  have hmany : isSendToMany s tx = true := by
    rw [isSendToMany, hint, htype, Bool.true_and, beq_self_eq_true, Bool.true_and, List.all_eq_true]
    intro c hc
    rw [hpass c hc]
    rfl
  refine not_debitsFrozen ?_
  simpa [freezeSafe, hmany] using hsafe

/-- **One handler**, with and without the assertion. -/
theorem logicMath_kept (ho : OrdersOpen s) {txType : TxType}
    (htype : TxType.ofId tx.type = some txType) (hint : isInterpreted s tx = true)
    (hfree : isAddressFrozen s tx.sender tx.property = false)
    (hsafe : freezeSafe s (.packet tx env) = true) (hnot : txType.isFreezing = false) :
    Option.Rel (EqualRc (Kept s)) (logicMath s tx env txType)
      (if txType = .sendAll then logicMathSendAllUnasserted s tx else logicMath s.thaw tx env txType) := by
  by_cases hall : txType = .sendAll
  · subst hall
    exact logicMathSendAll_kept tx ho
  · rw [if_neg hall]
    refine (kept_lockstep s).walk.logicMath_rel (F := fun _ => True) (Kept.refl ho) tx env hfree ?_
      (fun _ _ => trivial) (fun _ => @Lockstep.followsParams _ _ (kept_lockstep s)) fun hc => ?_
    · rintro rfl
      exact manyCreditable_of_safe htype hint hsafe
    · rw [hnot] at hc
      exact absurd hc (by simpa using hall)

/-- Tokens and book as they were. -/
def SameTokens (s r : State) : Prop := r.tally = s.tally ∧ r.metadex = s.metadex

theorem reject_sameTokens {checks : List (Bool × Int)} {go : Option (Int × State)}
    (hgo : Every (fun r => SameTokens s r.2) go) : Every (fun r => SameTokens s r.2) (reject s checks go) :=
  every_reject (fun _ => ⟨rfl, rfl⟩) fun _ => hgo

theorem freezing_sameTokens (tx : CMPTransaction) (env : TxEnv) {txType : TxType}
    (hf : txType.isFreezing = true) :
    Every (fun r => SameTokens s r.2) (logicMath s tx env txType) := by
  cases txType with
  | enableFreezing =>
    exact reject_sameTokens (every_bind_any fun _ _ => reject_sameTokens (every_some ⟨rfl, rfl⟩))
  | disableFreezing =>
    refine reject_sameTokens (every_bind_any fun _ _ => reject_sameTokens fun r hr => ?_)
    obtain ⟨s₁, h1, rfl⟩ := Option.map_eq_some_iff.mp hr
    rw [disableFreezing_frame h1]
    exact ⟨rfl, rfl⟩
  | freezePropertyTokens =>
    exact reject_sameTokens (every_bind_any fun _ _ => reject_sameTokens (every_some ⟨rfl, rfl⟩))
  | unfreezePropertyTokens =>
    exact reject_sameTokens (every_bind_any fun _ _ => reject_sameTokens (every_some ⟨rfl, rfl⟩))
  | _ => cases hf

end Packets

/-! ### Events -/

section Events

variable {s₀ s s' : State}

/-- No frozen balance has decreased. -/
def NoDecrease (s r : State) : Prop :=
  ∀ a p, isAddressFrozen s a p = true → getTokenBalance s a p .balance ≤ getTokenBalance r a p .balance

/-- The results of an event, with and without the assertion. -/
def SameResult (s r r' : State) : Prop := r = r' ∧ NoDecrease s r ∧ OrdersOpen r

theorem Kept.sameResult {r' : State} (h : Kept s r r') : SameResult s r { r' with frozen := s.frozen } := by
  refine ⟨?_, h.balance, h.orders⟩
  rw [h.same, ← h.frozen]

theorem rel_sameResult {x y : Option State} (h : Option.Rel (Kept s) x y) :
    Option.Rel (SameResult s) x (y.map fun r => { r with frozen := s.frozen }) := by
  cases h with
  | none => exact .none
  | some hab => exact .some hab.sameResult

theorem SameTokens.sameResult (ho : OrdersOpen s) (h : SameTokens s r) : SameResult s r r := by
  refine ⟨rfl, fun a p _ => ?_, fun p price pos o hord => ho p price pos o ?_⟩
  · rw [getTokenBalance, getTokenBalance, h.1]
  · rwa [State.orderAt, State.level, h.2] at hord

theorem logicMathUnasserted_sameResult (ho : OrdersOpen s)
    {txType : TxType} (htype : TxType.ofId tx.type = some txType) (hint : isInterpreted s tx = true)
    (hsafe : freezeSafe s (.packet tx env) = true) :
    Option.Rel (fun x y => SameResult s x.2 y.2) (logicMath s tx env txType)
      (logicMathUnasserted s tx env txType) := by
  rw [logicMathUnasserted]
  cases hf : txType.isFreezing with
  | true =>
    have hsame := freezing_sameTokens (s := s) tx env hf
    rw [if_pos rfl]
    generalize logicMath s tx env txType = x at hsame ⊢
    cases x with
    | none => exact .none
    | some r => exact .some ((hsame r rfl).sameResult ho)
  | false =>
    have hfree : isAddressFrozen s tx.sender tx.property = false := by
      rw [isInterpreted, Bool.and_eq_true, Bool.not_eq_true'] at hint
      exact hint.2
    have hrel := logicMath_kept ho htype hint hfree hsafe hf
    rw [if_neg Bool.false_ne_true]
    generalize logicMath s tx env txType = x at hrel ⊢
    generalize (if txType = .sendAll then logicMathSendAllUnasserted s tx
      else logicMath s.thaw tx env txType) = y at hrel ⊢
    cases hrel with
    | none => exact .none
    | some hab => exact .some hab.2.sameResult

theorem packet_sameResult (ho : OrdersOpen s)
    (hsafe : freezeSafe s (.packet tx env) = true) :
    Option.Rel (SameResult s) (handle s (.packet tx env)) (unasserted s (.packet tx env)) := by
  have hstay : SameResult s s s := SameTokens.sameResult ho ⟨rfl, rfl⟩
  refine rel_map (reject_rel (fun _ => hstay) _ fun hpass => ?_)
    fun _ _ hab => hab
  have hint : isInterpreted s tx = true := by
    simpa [isInterpreted, and_assoc] using hpass
  cases htype : TxType.ofId tx.type with
  | none => exact .some hstay
  | some txType => exact logicMathUnasserted_sameResult ho htype hint hsafe

/-- **One event.** The assertion makes no difference, and no frozen balance
decreases. -/
theorem handle_sameResult (ho : OrdersOpen s) {e : Event} (hsafe : freezeSafe s e = true) :
    Option.Rel (SameResult s) (handle s e) (unasserted s e) := by
  have h := Kept.refl ho
  have W := (kept_lockstep s).walk
  cases e with
  | blockBegin height time hash =>
    exact rel_sameResult (W.handlerBlockBegin_rel (F := fun _ => True) h height time hash)
  | payment block sender outputs =>
    exact rel_sameResult (W.handleDExPayments_rel (F := fun _ => True) h sender outputs block)
  | packet tx env => exact packet_sameResult ho hsafe
  | blockEnd height time =>
    exact rel_sameResult (W.handlerBlockEnd_rel (F := fun _ => True) h height time)

end Events

/-! ### Runs -/

/-- An event leaves frozen balances alone: the assertion makes no difference to it,
and no frozen balance decreases. -/
structure StaysFrozen (s : State) (e : Event) : Prop where
  asserted : handle s e = unasserted s e
  balance : ∀ s', handle s e = some s' → NoDecrease s s'

/-- Steps that meet the condition. -/
def safeStep : Node → Event → Option Node := guarded (fun n e => freezeSafe n.state e) step

theorem staysFrozen_of_safe {s : State} {e : Event} (ho : OrdersOpen s) (hsafe : freezeSafe s e = true) :
    StaysFrozen s e ∧ ∀ s', handle s e = some s' → OrdersOpen s' := by
  have hrel := handle_sameResult ho hsafe
  generalize hx : handle s e = x at hrel
  generalize hy : unasserted s e = y at hrel
  cases hrel with
  | none =>
    refine ⟨⟨by rw [hx, hy], fun s' hs' => ?_⟩, fun s' hs' => ?_⟩
    · rw [hx] at hs'
      cases hs'
    · cases hs'
  | some hab =>
    obtain ⟨rfl, hkept, hopen⟩ := hab
    refine ⟨⟨by rw [hx, hy], fun s' hs' => ?_⟩, fun s' hs' => ?_⟩
    · rw [hx, Option.some.injEq] at hs'
      exact hs' ▸ hkept
    · rw [Option.some.injEq] at hs'
      exact hs' ▸ hopen

theorem run_ordersOpen {cfg : Config} {es : List Event} {n : Node}
    (h : run safeStep (Node.initial cfg) es = some n) : OrdersOpen n.state := by
  refine run_invariant (I := fun n => OrdersOpen n.state) (fun n e n' ho hstep => ?_) ?_ h
  · obtain ⟨hsafe, hs⟩ := guarded_eq_some.mp hstep
    obtain ⟨-, hh, -⟩ := step_eq_some.mp hs
    exact (staysFrozen_of_safe ho hsafe).2 _ hh
  · intro p price pos o hord
    cases hord

/-- **Frozen balances do not move.** In every run whose events meet the condition,
each event leaves frozen balances alone. -/
theorem frozen_balances_kept {cfg : Config} {es : List Event} {n : Node} {e : Event}
    (h : run safeStep (Node.initial cfg) es = some n) (hsafe : freezeSafe n.state e = true) :
    StaysFrozen n.state e :=
  (staysFrozen_of_safe (run_ordersOpen h) hsafe).1

/-- A packet about property 3. -/
def frozenTx (type idx : Nat) (sender receiver : Address) (value : Nat) : CMPTransaction where
  txid := idx
  block := 1
  blockTime := 1500000000
  txIdx := idx
  sender := sender
  receiver := receiver
  type := type
  property := 3
  nValue := value
  ecosystem := 1
  propType := 1
  name := "Coin"
  ticker := "COIN"

/-- The issuer grants a hundred tokens each to `alice` and `bob`, and freezes
`bob`. -/
def frozenRun : List Event :=
  [ .blockBegin 1 1500000000 1,
    .packet (frozenTx 54 1 "issuer" "" 0) issuanceEnv,
    .packet (frozenTx 55 2 "issuer" "alice" 100) issuanceEnv,
    .packet (frozenTx 55 3 "issuer" "bob" 100) issuanceEnv,
    .packet (frozenTx 71 4 "issuer" "" 0) issuanceEnv,
    .packet (frozenTx 185 5 "issuer" "bob" 0) issuanceEnv ]

/-- `alice` sends the amounts to `bob` and to `carol`. -/
def toMany (value first second : Nat) : CMPTransaction :=
  { frozenTx 5 6 "alice" "" value with
    numberOfSTMReceivers := 2
    outputValuesForSTM := [(1, first), (2, second)]
    validOutputAddressesForSTM := (OrdMap.insert ∅ 1 "bob").insert 2 "carol" }

/-- A frozen receiver of a few tokens. -/
theorem frozen_balances_kept_toMany :
    ∃ n, run safeStep (Node.initial regtestCfg) frozenRun = some n ∧
      isAddressFrozen n.state "bob" 3 = true ∧
      (handle n.state (.packet (toMany 25 10 15) issuanceEnv)).map
        (fun s => getTokenBalance s "bob" 3 .balance) = some 110 ∧
      StaysFrozen n.state (.packet (toMany 25 10 15) issuanceEnv) := by
  have hrun : ((run safeStep (Node.initial regtestCfg) frozenRun).map fun n =>
      (isAddressFrozen n.state "bob" 3,
        (handle n.state (.packet (toMany 25 10 15) issuanceEnv)).map
          (fun s => getTokenBalance s "bob" 3 .balance),
        freezeSafe n.state (.packet (toMany 25 10 15) issuanceEnv))) = some (true, some 110, true) := by
    decide +kernel
  obtain ⟨n, hn, hvals⟩ := Option.map_eq_some_iff.mp hrun
  rw [Prod.mk.injEq, Prod.mk.injEq] at hvals
  exact ⟨n, hn, hvals.1, hvals.2.1, frozen_balances_kept hn hvals.2.2⟩

/-- The amounts `2 ^ 64 - 10` and 15 add up to 5, and the first one takes ten tokens
from `bob`: the node stops at the assertion. -/
theorem frozen_debited :
    ¬ ∀ (cfg : Config) (es : List Event) (n : Node) (e : Event),
      run step (Node.initial cfg) es = some n → StaysFrozen n.state e := by
  intro hall
  have hrun : ((run step (Node.initial regtestCfg) frozenRun).map fun n =>
      ((handle n.state (.packet (toMany 5 18446744073709551606 15) issuanceEnv)).isSome,
        (unasserted n.state (.packet (toMany 5 18446744073709551606 15) issuanceEnv)).map
          (fun s => getTokenBalance s "bob" 3 .balance))) = some (false, some 90) := by
    decide +kernel
  obtain ⟨n, hn, hvals⟩ := Option.map_eq_some_iff.mp hrun
  rw [Prod.mk.injEq] at hvals
  have hsame := (hall _ _ n (.packet (toMany 5 18446744073709551606 15) issuanceEnv) hn).asserted
  rw [← hsame] at hvals
  cases hh : handle n.state (.packet (toMany 5 18446744073709551606 15) issuanceEnv) with
  | none =>
    rw [hh] at hvals
    cases hvals.2
  | some s =>
    rw [hh] at hvals
    cases hvals.1

end Rapids.Token
