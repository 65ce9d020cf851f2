import Rapids.Lib.Relate
import Rapids.Token.Atomicity

/-!
# Rapids.Token.Lockstep

**Two runs of the token layer, side by side.** The states of two runs that differ in
who is frozen, in fee thresholds, or in what is only displayed, are related by some
`R`. `Lockstep` says what `R` must allow of the primitive steps: a write elsewhere,
an update of the tally, an order put into the book or taken out, a threshold that is
set. `Walk` says it step by step, for relations that look at offers, accepts and
crowdsales too. From that, one lemma for each function of the token layer, which
follows the function's own shape, says that the function keeps `R`, up to whole
handlers and to the calls of a block.

Two things may decide whether a step is allowed. `D a p` says that the balance of `a`
in `p` may be debited, and each handler owes an argument for it: it debits the sender
in the property of the packet, or nothing but reserves. `F p` says that the threshold
of `p` is the same in both states, and the only call that reads a threshold another
one left is a trade that charges a fee.
-/

namespace Rapids.Token

open Rapids.Lib OrdMap

variable {p : PropertyId} {amount got : Int} {new : CMPMetaDEx}

/-- An amount that may be added to every balance: it is not negative, unless every
balance may be debited. -/
def Creditable (D : Address → PropertyId → Prop) (amount : Int) : Prop :=
  amount < 0 → ∀ a p, D a p

/-- What a relation must allow of the steps that are about no balance and no new order. -/
structure FollowsSteps (R : (PropertyId → Prop) → State → State → Prop) : Prop where
  same : ∀ {F s s'}, R F s s' → s' = { s with
    distributionThresholds := s'.distributionThresholds
    pendingActivations := s'.pendingActivations
    completedActivations := s'.completedActivations
    alerts := s'.alerts
    frozen := s'.frozen }
  erase : ∀ {F s s'} p price pos, R F s s' → R F (s.eraseOrder p price pos) (s'.eraseOrder p price pos)
  threshold : ∀ {F s s' p}, R F s s' → F p →
    s'.distributionThresholds.find? p = s.distributionThresholds.find? p
  setThreshold : ∀ {F s s'} p, R F s s' → R (fun q => F q ∨ q = p)
    (updateDistributionThresholds s p) (updateDistributionThresholds s' p)
  mono : ∀ {F G : PropertyId → Prop} {s s'}, (∀ p, G p → F p) → R F s s' → R G s s'
  live : ∀ {F s s'} height, R F s s' → R F (checkLiveActivations s height) (checkLiveActivations s' height)
  pending : ∀ {F s s'} a, R F s s' → R F (addPendingActivation s a) (addPendingActivation s' a)
  alerts : ∀ {F s s'} (f : List AlertData → List AlertData), R F s s' →
    R F { s with alerts := f s.alerts } { s' with alerts := f s'.alerts }

/-- What it must allow of the primitive steps. -/
structure Lockstep (D : Address → PropertyId → Prop)
    (R : (PropertyId → Prop) → State → State → Prop) : Prop extends FollowsSteps R where
  write : ∀ {F s s' r r'}, R F s s' →
    r = { r with
      tally := s.tally
      metadex := s.metadex
      distributionThresholds := s.distributionThresholds
      pendingActivations := s.pendingActivations
      completedActivations := s.completedActivations
      alerts := s.alerts
      frozen := s.frozen } →
    r' = { r with
      distributionThresholds := s'.distributionThresholds
      pendingActivations := s'.pendingActivations
      completedActivations := s'.completedActivations
      alerts := s'.alerts
      frozen := s'.frozen } → R F r r'
  update : ∀ {F s s' who p amount tt}, R F s s' → (tt = .balance → amount < 0 → D who p) →
    Option.Rel (fun x y : Bool × State => x.1 = y.1 ∧ R F x.2 y.2)
      (updateTallyMap s who p amount tt) (updateTallyMap s' who p amount tt)
  orders : ∀ {F s s' p price pos o}, R F s s' → s.orderAt p price pos = some o →
    Creditable D o.amountRemaining
  put : ∀ {F s s' o} p price pos, R F s s' → 0 < o.amountRemaining →
    R F (s.putOrder p price pos o) (s'.putOrder p price pos o)

/-- An order whose tokens may go back to its owner. -/
def Removable (ok : PropertyId → Prop) (D : Address → PropertyId → Prop) (o : CMPMetaDEx) : Prop :=
  Creditable D o.amountRemaining ∧ ok o.property

/-- A new order: the properties of its pair passed the test. -/
def PairOk (ok : PropertyId → Prop) (new : CMPMetaDEx) : Prop := ok new.property ∧ ok new.desiredProperty

/-- The same, step by step. Updates, offers, accepts, orders and crowdsales are about
properties that `ok` allows. -/
structure Walk (ok : PropertyId → Prop) (D : Address → PropertyId → Prop)
    (R : (PropertyId → Prop) → State → State → Prop) : Prop extends FollowsSteps R where
  ne_zero : ∀ {p}, p ≠ 0 → ok p
  balance : ∀ {F s s' a p tt}, R F s s' → 0 < getTokenBalance s a p tt → ok p
  offers : ∀ {F s s'}, R F s s' → ∀ k, s.offers.contains k = true → ok k.property
  accepts : ∀ {F s s'}, R F s s' → ∀ k, s.accepts.contains k = true → ok k.property
  crowds : ∀ {F s s'}, R F s s' → ∀ a c, s.crowds.find? a = some c → ok c.propertyId
  orders : ∀ {F s s' p price pos o}, R F s s' → s.orderAt p price pos = some o → Removable ok D o
  write : ∀ {F s s' r r'}, R F s s' →
    r = { r with
      cfg := s.cfg
      params := s.params
      tally := s.tally
      offers := s.offers
      accepts := s.accepts
      crowds := s.crowds
      metadex := s.metadex
      distributionThresholds := s.distributionThresholds
      pendingActivations := s.pendingActivations
      completedActivations := s.completedActivations
      alerts := s.alerts
      frozen := s.frozen } →
    r' = { r with
      distributionThresholds := s'.distributionThresholds
      pendingActivations := s'.pendingActivations
      completedActivations := s'.completedActivations
      alerts := s'.alerts
      frozen := s'.frozen } → R F r r'
  update : ∀ {F s s' who p amount tt}, R F s s' → ok p → (tt = .balance → amount < 0 → D who p) →
    Option.Rel (fun x y : Bool × State => x.1 = y.1 ∧ R F x.2 y.2)
      (updateTallyMap s who p amount tt) (updateTallyMap s' who p amount tt)
  putOffer : ∀ {F s s' k}, R F s s' → ok k.property → ∀ o, R F (s.putOffer k o) (s'.putOffer k o)
  eraseOffer : ∀ {F s s'}, R F s s' → ∀ k, R F (s.eraseOffer k) (s'.eraseOffer k)
  putAccept : ∀ {F s s' k}, R F s s' → ok k.property → ∀ a, R F (s.putAccept k a) (s'.putAccept k a)
  eraseAccept : ∀ {F s s'}, R F s s' → ∀ k, R F (s.eraseAccept k) (s'.eraseAccept k)
  putCrowd : ∀ {F s s' c}, R F s s' → ok c.propertyId → ∀ a,
    R F { s with crowds := s.crowds.insert a c } { s' with crowds := s'.crowds.insert a c }
  eraseCrowd : ∀ {F s s'}, R F s s' → ∀ a,
    R F { s with crowds := s.crowds.erase a } { s' with crowds := s'.crowds.erase a }
  put : ∀ {F s s' o} p price pos, R F s s' → 0 < o.amountRemaining → ok o.property →
    R F (s.putOrder p price pos o) (s'.putOrder p price pos o)

/-- What a relation must allow besides, where the handlers for features are concerned. -/
def FollowsParams (R : (PropertyId → Prop) → State → State → Prop) : Prop :=
  ∀ {F s s'} P, R F s s' → R F { s with params := P } { s' with params := P }

/-- And where it matters who is frozen. -/
structure FollowsFrozen (R : (PropertyId → Prop) → State → State → Prop) : Prop where
  same : ∀ {F s s'}, R F s s' → s'.frozen = s.frozen
  freeze : ∀ {F s s'}, R F s s' → ∀ a {p}, p ≠ 0 → R F (freezeAddress s a p) (freezeAddress s' a p)
  unfreeze : ∀ {F s s'}, R F s s' → ∀ a p, R F (unfreezeAddress s a p) (unfreezeAddress s' a p)

/-- Where every property is allowed, and a write elsewhere may be to offers, accepts and
crowdsales too. -/
theorem Lockstep.walk {D : Address → PropertyId → Prop}
    {R : (PropertyId → Prop) → State → State → Prop} (L : Lockstep D R) : Walk (fun _ => True) D R where
  toFollowsSteps := L.toFollowsSteps
  ne_zero _ := trivial
  balance _ _ := trivial
  offers _ _ _ := trivial
  accepts _ _ _ := trivial
  crowds _ _ _ _ := trivial
  orders h ho := ⟨L.orders h ho, trivial⟩
  write := fun h hr hr' => L.write h (by rw [hr]) hr'
  update h _ hsafe := L.update h hsafe
  putOffer := fun h _ o => L.write h rfl (by rw [L.same h]; rfl)
  eraseOffer := fun h k => L.write h rfl (by rw [L.same h]; rfl)
  putAccept := fun h _ a => L.write h rfl (by rw [L.same h]; rfl)
  eraseAccept := fun h k => L.write h rfl (by rw [L.same h]; rfl)
  putCrowd := fun h _ a => L.write h rfl (by rw [L.same h])
  eraseCrowd := fun h a => L.write h rfl (by rw [L.same h])
  put := fun p price pos h hpos _ => L.put p price pos h hpos

theorem Lockstep.followsParams {D : Address → PropertyId → Prop}
    {R : (PropertyId → Prop) → State → State → Prop} (L : Lockstep D R) : FollowsParams R :=
  fun _ h => L.write h rfl (by rw [L.same h])

/-- Results with equal codes. -/
def EqualRc (R : State → State → Prop) {α : Type} (x y : α × State) : Prop := x.1 = y.1 ∧ R x.2 y.2

/-! ### Computations -/

section Results

variable {R : State → State → Prop} {s s' r r' : State}

theorem equalRc_ite {α : Type} {c : Prop} [Decidable c] {x x' y y' : α × State}
    (h : EqualRc R x y) (h' : EqualRc R x' y') :
    EqualRc R (if c then x else x') (if c then y else y') := by
  split
  · exact h
  · exact h'

theorem related_ite {c : Prop} [Decidable c] (h : R s s') (h' : R r r') :
    R (if c then s else r) (if c then s' else r') := by
  split
  · exact h
  · exact h'

theorem reject_related (h : R s s') (checks : List (Bool × Int)) {go go' : Option (Int × State)}
    (hgo : (∀ c ∈ checks, c.1 = false) → Option.Rel (EqualRc R) go go') :
    Option.Rel (EqualRc R) (reject s checks go) (reject s' checks go') :=
  reject_rel (fun _ => ⟨rfl, h⟩) checks hgo

theorem equalRc_zero {x y : Option State} (h : Option.Rel R x y) :
    Option.Rel (EqualRc R) (x >>= fun s => some ((0 : Int), s)) (y >>= fun s => some ((0 : Int), s)) :=
  rel_bind h fun _ _ hab => .some ⟨rfl, hab⟩

end Results

theorem Creditable.of_nonneg {D : Address → PropertyId → Prop} (h : 0 ≤ amount) :
    Creditable D amount :=
  fun hneg => absurd hneg (not_lt.mpr h)

theorem Creditable.trans {D : Address → PropertyId → Prop} {x y : Int} (h : Creditable D x)
    (hxy : 0 ≤ x → 0 ≤ y) : Creditable D y := by
  intro hy
  exact h (not_le.mp fun hx => not_lt.mpr (hxy hx) hy)

theorem ne_zero_of_valid {s : State} {p : PropertyId} (h : isPropertyIdValid s p = true) : p ≠ 0 := by
  intro hp
  rw [isPropertyIdValid, if_pos hp] at h
  cases h

theorem ne_zero_of_checks (s : State) (p : PropertyId) {checks : List (Bool × Int)}
    (hok : ∀ c ∈ checks, c.1 = false) (rc : Int) (hmem : (!isPropertyIdValid s p, rc) ∈ checks) : p ≠ 0 :=
  ne_zero_of_valid (by simpa using hok _ hmem)

/-- An amount that has passed the check of its range is positive as a signed one. -/
theorem toI64_pos_of_check {checks : List (Bool × Int)} {v : Nat}
    (hpass : ∀ c ∈ checks, c.1 = false) (hc : isOutOfRange v ∈ checks.map Prod.fst) : 0 < toI64 v := by
  obtain ⟨c, hmem, hv⟩ := List.mem_map.mp hc
  obtain ⟨hpos, -, hcast⟩ := isOutOfRange_eq_false (hv ▸ hpass c hmem)
  omega

theorem stoAllocate_pos {total : Int} {l : List (Int × Address)} {sent : Int}
    {rs : List (Int × Address)} (h : stoAllocate amount total l sent = some rs) : ∀ e ∈ rs, 0 < e.1 := by
  induction l generalizing sent rs with
  | nil =>
    cases h
    exact fun e he => absurd he List.not_mem_nil
  | cons o rest ih =>
    simp only [stoAllocate, Option.bind_eq_bind, Option.bind_eq_some_iff] at h
    obtain ⟨x, -, y, -, z, -, w, -, v, -, h⟩ := h
    generalize (if amount - sent < v then amount - sent else v) = share at h
    by_cases hpos : 0 < share
    · rw [if_pos hpos] at h
      simp only [Option.bind_eq_some_iff, Option.pure_def, Option.some.injEq] at h
      obtain ⟨more, hmore, rfl⟩ := h
      intro e he
      rcases List.mem_cons.mp he with rfl | he
      · exact hpos
      · exact ih hmore e he
    · rw [if_neg hpos] at h
      cases h
      exact fun e he => absurd he List.not_mem_nil

theorem stoGetReceivers_pos {s : State} {sender : Address}
    {rs : List (Int × Address)} (h : stoGetReceivers s sender p amount = some rs) :
    ∀ e ∈ rs, 0 < e.1 := by
  simp only [stoGetReceivers, do_eq_some, pure_eq_some] at h
  obtain ⟨receivers, hr, rfl⟩ := h
  intro e he
  exact stoAllocate_pos hr e ((List.mem_insertionSort _).mp he)

/-! ### Trades -/

theorem afterFee_nonneg (hg : 0 ≤ got) (s : State) (new old : CMPMetaDEx) :
    0 ≤ got - tradingFee s new old got := by
  unfold tradingFee
  split_ifs
  · rw [Int.tdiv_eq_ediv_of_nonneg hg]
    omega
  · omega

theorem amountWouldPay_nonneg {old : CMPMetaDEx} {paid : Int} (h : amountWouldPay old got = some paid) :
    0 ≤ paid := by
  simp only [amountWouldPay, do_eq_some] at h
  obtain ⟨_, -, _, -, _, -, _, -, h⟩ := h
  exact convertTo64_nonneg h

theorem chargeFee_params {s r : State} {old : CMPMetaDEx}
    (h : chargeFee s new old got = some r) : r.params = s.params := by
  unfold chargeFee at h
  split_ifs at h
  · unfold addFee at h
    dsimp only at h
    split_ifs at h
    rw [(evalCache_feeStep h).frame]
    rfl
  · exact Option.some.inj h ▸ rfl

theorem assertTally_params {s r : State} {who : Address} {tt : TallyType}
    (h : assertTally s who p amount tt = some r) : r.params = s.params := by
  rw [(assertTally_spec h).frame]

/-- Two states of a trade under the parameters `P`. -/
def TradeRel (R : State → State → Prop) (P : CConsensusParams) (new : CMPMetaDEx)
    (x y : CMPMetaDEx × State) : Prop :=
  EqualRc R x y ∧ x.2.params = P ∧ x.1 = { new with amountRemaining := x.1.amountRemaining }

/-- Can a trade of the order charge a fee? -/
def mayChargeFee (P : CConsensusParams) (block : Nat) (property desiredProperty : PropertyId) : Bool :=
  isFeatureActivated P Feature.fees.id block && decide (propertyTMSC < property) &&
    decide (propertyTMSC < desiredProperty)

/-! ### What packets ask for -/

/-- The checks of sending to many. -/
def stmChecks (s : State) (tx : CMPTransaction) : List (Bool × Int) :=
  [ (notAllowed s tx tx.property .sendToMany, pktErrorSendMany - 22),
    (isOutOfRange tx.nValue, pktErrorSendMany - 23),
    (!isPropertyIdValid s tx.property, pktErrorSendMany - 24),
    (insufficient s tx tx.nValue, pktErrorSendMany - 25),
    ((stmOutputError tx).isSome, (stmOutputError tx).getD 0),
    (decide ((tx.outputValuesForSTM.map Prod.snd).sum % 18446744073709551616 ≠ tx.nValue),
      pktErrorSendMany - 28),
    (decide (tx.outputValuesForSTM.length % 256 ≠ tx.numberOfSTMReceivers), pktErrorSendMany - 29) ]

/-- Every entry of a packet that sends to many is one that its receiver may get. -/
def ManyCreditable (D : Address → PropertyId → Prop) (tx : CMPTransaction) (l : List (Nat × Nat)) : Prop :=
  ∀ e ∈ l, toI64 e.2 < 0 → ∀ receiver, tx.validOutputAddressesForSTM.find? e.1 = some receiver →
    D receiver tx.property

/-- Does the type change who is frozen? These handlers move no tokens. -/
def TxType.isFreezing : TxType → Bool
  | .enableFreezing | .disableFreezing | .freezePropertyTokens | .unfreezePropertyTokens => true
  | _ => false

namespace Walk

variable {ok : PropertyId → Prop} {D : Address → PropertyId → Prop}
  {R : (PropertyId → Prop) → State → State → Prop} (W : Walk ok D R) {F : PropertyId → Prop} {s s' : State} (h : R F s s')
include W h

theorem exists_eq : ∃ θ pending completed alerts frozen, s' = { s with
      distributionThresholds := θ
      pendingActivations := pending
      completedActivations := completed
      alerts := alerts
      frozen := frozen } :=
  ⟨_, _, _, _, _, W.same h⟩

/-! ### The tally -/

section Tally

variable {p : PropertyId} {amount : Int}

/-- **The rule for an update**: a balance that is debited must be one that may be. -/
theorem assertTally_rel {who : Address} {tt : TallyType} (hp : ok p)
    (hsafe : tt = .balance → amount < 0 → D who p) :
    Option.Rel (R F) (assertTally s who p amount tt) (assertTally s' who p amount tt) := by
  have hrel := W.update h hp hsafe
  unfold assertTally
  generalize updateTallyMap s who p amount tt = x at hrel ⊢
  generalize updateTallyMap s' who p amount tt = y at hrel ⊢
  cases hrel with
  | none => exact .none
  | @some a b hab =>
    obtain ⟨rc, r⟩ := a
    obtain ⟨rc', r'⟩ := b
    obtain ⟨rfl, hr⟩ : rc = rc' ∧ R F r r' := hab
    cases rc with
    | true => exact .some hr
    | false => exact .none

theorem credit_rel (who : Address) (hp : ok p) (tt : TallyType) (ha : Creditable D amount) :
    Option.Rel (R F) (assertTally s who p amount tt) (assertTally s' who p amount tt) :=
  W.assertTally_rel h hp fun _ hneg => ha hneg _ _

/-- Moving tokens out of a bucket that is a reserve, or a balance that may be
debited. -/
theorem transferTally_rel (hp : ok p) (src dst : Bucket) (ha : Creditable D amount)
    (hsrc : src.2 = .balance → D src.1 p) :
    Option.Rel (R F) (transferTally s p amount src dst) (transferTally s' p amount src dst) :=
  rel_bind (W.assertTally_rel h hp fun hb _ => hsrc hb) fun _ _ h1 => W.credit_rel h1 _ hp _ ha

theorem updateSP_rel (p : PropertyId) (info : SPEntry) :
    Option.Rel (R F) (updateSP s p info) (updateSP s' p info) := by
  obtain ⟨_, _, _, _, _, rfl⟩ := W.exists_eq h
  unfold updateSP
  exact rel_ite .none (.some (W.write h rfl rfl))

theorem creditReceivers_rel (hp : ok p) {l : List (Int × Address)} (hpos : ∀ e ∈ l, 0 < e.1) :
    Option.Rel (R F) (creditReceivers s p l) (creditReceivers s' p l) := by
  induction l generalizing s s' with
  | nil => exact .some h
  | cons e rest ih =>
    obtain ⟨amount, address⟩ := e
    have ha : 0 < amount := hpos _ (.head _)
    exact rel_bind (W.credit_rel h _ hp _ (.of_nonneg ha.le)) fun _ _ h1 =>
      ih h1 fun e he => hpos e (.tail _ he)

theorem evalCache_rel (hp : ok p) (hF : F p) (block : Nat) :
    Option.Rel (R F) (evalCache s p block) (evalCache s' p block) := by
  unfold evalCache
  rw [W.threshold h hF]
  obtain ⟨_, _, _, _, _, rfl⟩ := W.exists_eq h
  refine rel_ite (rel_bind_eq fun receivers hr => ?_) (.some h)
  refine rel_bind (W.creditReceivers_rel h hp (stoGetReceivers_pos hr)) fun a b hab => ?_
  obtain ⟨_, _, _, _, _, rfl⟩ := W.exists_eq hab
  exact rel_ite (.some (W.write hab rfl rfl)) .none

theorem addFee_rel (hp : ok p) (hF : F p) (block : Nat) (amount : Int) :
    Option.Rel (R F) (addFee s p block amount) (addFee s' p block amount) := by
  obtain ⟨_, _, _, _, _, rfl⟩ := W.exists_eq h
  exact rel_ite .none (W.evalCache_rel (W.write h rfl rfl) hp hF block)

theorem notifyTotalTokensChanged_rel (hp : ok p) (block : Nat) :
    Option.Rel (R F) (notifyTotalTokensChanged s p block) (notifyTotalTokensChanged s' p block) :=
  rel_mono (W.evalCache_rel (W.setThreshold p h) hp (.inr rfl) block)
    fun _ _ hab => W.mono (fun _ => .inl) hab

end Tally

/-! ### Crowdsales -/

theorem creditIfPositive_rel (who : Address) (hp : ok p) (amount : Int) :
    Option.Rel (R F) (creditIfPositive s who p amount) (creditIfPositive s' who p amount) :=
  rel_ite_of (fun ha => W.credit_rel h _ hp _ (.of_nonneg ha.le)) fun _ => .some h

theorem eraseMaxedCrowdsale_rel (address : Address) (blockTime : Int) (blockHash : Option Hash) :
    Option.Rel (R F) (eraseMaxedCrowdsale s address blockTime blockHash)
      (eraseMaxedCrowdsale s' address blockTime blockHash) := by
  have hupdate := W.updateSP_rel h
  obtain ⟨_, _, _, _, _, rfl⟩ := W.exists_eq h
  unfold eraseMaxedCrowdsale
  cases s.crowds.find? address with
  | none => exact .some h
  | some crowd =>
    exact rel_bind_same fun sp => rel_bind_same fun hash => rel_bind (hupdate _ _) fun a b hab =>
      .some (W.eraseCrowd hab address)

theorem eraseExpiredOne_rel (blockTime : Int) (blockHash : Hash) (address : Address)
    {crowd : CMPCrowd} (hp : ok crowd.propertyId) :
    Option.Rel (R F) (eraseExpiredOne s blockTime blockHash address crowd)
      (eraseExpiredOne s' blockTime blockHash address crowd) := by
  have hupdate := W.updateSP_rel h
  obtain ⟨_, _, _, _, _, rfl⟩ := W.exists_eq h
  refine rel_ite ?_ (.some h)
  exact rel_bind_same fun sp => rel_bind_same fun missed => rel_bind (hupdate _ _) fun a b hab =>
    rel_bind (W.creditIfPositive_rel hab _ hp _) fun a b hab => .some (W.eraseCrowd hab address)

theorem eraseExpiredLoop_rel (blockTime : Int) (blockHash : Hash) {l : List (Address × CMPCrowd)}
    (hl : ∀ e ∈ l, ok e.2.propertyId) :
    Option.Rel (R F) (eraseExpiredLoop blockTime blockHash l s)
      (eraseExpiredLoop blockTime blockHash l s') := by
  induction l generalizing s s' with
  | nil => exact .some h
  | cons e rest ih =>
    exact rel_bind (W.eraseExpiredOne_rel h _ _ _ (hl e (.head _))) fun _ _ hab =>
      ih hab fun e' he' => hl e' (.tail _ he')

theorem crowdsaleParticipation_rel (tx : Investment) :
    Option.Rel (EqualRc (R F)) (crowdsaleParticipation s tx) (crowdsaleParticipation s' tx) := by
  have hcrowds := W.crowds h tx.receiver
  have hput := fun (c : CMPCrowd) (hc : ok c.propertyId) => W.putCrowd h hc tx.receiver
  obtain ⟨_, _, _, _, _, rfl⟩ := W.exists_eq h
  unfold crowdsaleParticipation
  cases hfind : s.crowds.find? tx.receiver with
  | none => exact .some ⟨rfl, h⟩
  | some crowd =>
    have hp : ok crowd.propertyId := hcrowds _ hfind
    refine rel_ite (.some ⟨rfl, h⟩) (rel_bind_same fun sp => rel_bind_same fun tokens => ?_)
    obtain ⟨user, issuer, close⟩ := tokens
    refine rel_bind (W.creditIfPositive_rel (hput (crowd.participate tx user issuer) hp) _ hp _)
      fun a b hab => rel_bind (W.creditIfPositive_rel hab _ hp _) fun a b hab =>
        rel_bind (W.notifyTotalTokensChanged_rel hab hp _) fun a b hab =>
          rel_bind ?_ fun a b hab => .some ⟨rfl, hab⟩
    exact rel_ite (W.eraseMaxedCrowdsale_rel hab _ _ _) (.some hab)

/-! ### Offers -/

theorem transferIfPositive_rel (hp : ok p) (amount : Int) (src dst : Bucket)
    (hsrc : src.2 ≠ .balance) :
    Option.Rel (R F) (transferIfPositive s p amount src dst)
      (transferIfPositive s' p amount src dst) :=
  rel_ite_of (fun ha => W.transferTally_rel h hp _ _ (.of_nonneg ha.le) fun hb => absurd hb hsrc)
    fun _ => .some h

theorem dexOfferCreate_rel {seller : Address} {p : PropertyId} (hfree : D seller p)
    (amountOffered : Int) (block : Nat) (amountDesired minAcceptFee : Int) (paymentWindow : Nat)
    (txid : Hash) :
    Option.Rel (EqualRc (R F))
      (dexOfferCreate s seller p amountOffered block amountDesired minAcceptFee paymentWindow txid)
      (dexOfferCreate s' seller p amountOffered block amountDesired minAcceptFee paymentWindow txid) := by
  have hmove := fun (hp : ok p) (x : Int) (hx : 0 < x) =>
    W.transferTally_rel h hp (seller, .balance) (seller, .sellofferReserve) (.of_nonneg hx.le) fun _ => hfree
  have hstay : ∀ rc : Int, Option.Rel (EqualRc (R F)) (some (rc, s)) (some (rc, s')) :=
    fun rc => .some ⟨rfl, h⟩
  have hheld : 0 < getTokenBalance s seller p .balance → ok p := W.balance h
  obtain ⟨_, _, _, _, _, rfl⟩ := W.exists_eq h
  unfold dexOfferCreate
  refine rel_ite (hstay _) (rel_ite (hstay _) (rel_ite (hstay _) (rel_ite (hstay _)
    (rel_ite (hstay _) (rel_ite_of (fun hx => ?_) fun _ => hstay _)))))
  -- what is offered is there, so the identifier is one of a property
  have hp : ok p := hheld (by split_ifs at hx <;> omega)
  exact rel_bind (hmove hp _ hx) fun a b hab => .some ⟨rfl, W.putOffer hab hp _⟩

theorem dexOfferDestroy_rel (seller : Address) (p : PropertyId) :
    Option.Rel (EqualRc (R F)) (dexOfferDestroy s seller p) (dexOfferDestroy s' seller p) := by
  have hmove := fun (hp : ok p) x =>
    W.transferIfPositive_rel h hp x (seller, .sellofferReserve) (seller, .balance) (by simp)
  have hoffers := W.offers h ⟨seller, p⟩
  obtain ⟨_, _, _, _, _, rfl⟩ := W.exists_eq h
  refine rel_ite_of (fun _ => .some ⟨rfl, h⟩) fun hexists => ?_
  exact rel_bind (hmove (hoffers (by simpa [dexOfferExists] using hexists)) _) fun a b hab =>
    .some ⟨rfl, W.eraseOffer hab _⟩

theorem dexOfferUpdate_rel {seller : Address} (hfree : D seller p)
    (amountOffered : Int) (block : Nat) (amountDesired minAcceptFee : Int) (paymentWindow : Nat)
    (txid : Hash) :
    Option.Rel (EqualRc (R F))
      (dexOfferUpdate s seller p amountOffered block amountDesired minAcceptFee paymentWindow txid)
      (dexOfferUpdate s' seller p amountOffered block amountDesired minAcceptFee paymentWindow txid) := by
  have hdestroy := W.dexOfferDestroy_rel h seller p
  obtain ⟨_, _, _, _, _, rfl⟩ := W.exists_eq h
  refine rel_ite (.some ⟨rfl, h⟩) (rel_bind hdestroy fun a b hab => ?_)
  obtain ⟨rc, r⟩ := a
  obtain ⟨rc', r'⟩ := b
  obtain ⟨rfl, hr⟩ : rc = rc' ∧ R F r r' := hab
  exact rel_ite (W.dexOfferCreate_rel hr hfree _ _ _ _ _ _) (.some ⟨rfl, hr⟩)

theorem dexAcceptCreate_rel (buyer seller : Address) (p : PropertyId) (amountAccepted : Int)
    (block : Nat) (feePaid : Int) :
    Option.Rel (EqualRc (R F)) (dexAcceptCreate s buyer seller p amountAccepted block feePaid)
      (dexAcceptCreate s' buyer seller p amountAccepted block feePaid) := by
  have hmove := fun (hp : ok p) (x : Int) (hx : 0 < x) =>
    W.transferTally_rel h hp (seller, .sellofferReserve) (seller, .acceptReserve) (.of_nonneg hx.le)
      fun hb => by simp at hb
  have hoffers := W.offers h ⟨seller, p⟩
  obtain ⟨_, _, _, _, _, rfl⟩ := W.exists_eq h
  unfold dexAcceptCreate
  cases hoffer : s.offers.find? ⟨seller, p⟩ with
  | none => exact .some ⟨rfl, h⟩
  | some offer =>
    have hp : ok p := hoffers (by rw [contains, hoffer]; rfl)
    exact rel_ite (.some ⟨rfl, h⟩) (rel_ite (.some ⟨rfl, h⟩) (rel_ite_of
      (fun hx => rel_bind (hmove hp _ hx) fun a b hab => .some ⟨rfl, W.putAccept hab hp _⟩)
      fun _ => .some ⟨rfl, h⟩))

theorem dexAcceptDestroy_rel (buyer seller : Address) (p : PropertyId) :
    Option.Rel (EqualRc (R F)) (dexAcceptDestroy s buyer seller p) (dexAcceptDestroy s' buyer seller p) := by
  have hmove := fun (hp : ok p) x tt =>
    W.transferIfPositive_rel h hp x (seller, .acceptReserve) (seller, tt) (by simp)
  have haccepts := W.accepts h ⟨seller, p, buyer⟩
  obtain ⟨_, _, _, _, _, rfl⟩ := W.exists_eq h
  unfold dexAcceptDestroy
  cases haccept : s.accepts.find? ⟨seller, p, buyer⟩ with
  | none => exact .some ⟨rfl, h⟩
  | some accept =>
    have hp : ok p := haccepts (by rw [contains, haccept]; rfl)
    exact rel_bind (hmove hp _ _) fun a b hab => .some ⟨rfl, W.eraseAccept hab _⟩

theorem eraseExpiredAcceptsLoop_rel (blockNow : Nat) (l : List (AcceptKey × CMPAccept)) :
    Option.Rel (R F) (eraseExpiredAcceptsLoop blockNow l s) (eraseExpiredAcceptsLoop blockNow l s') := by
  induction l generalizing s s' with
  | nil => exact .some h
  | cons e rest ih =>
    exact rel_ite (rel_bind (W.dexAcceptDestroy_rel h _ _ _) fun a b hab => ih hab.2) (ih h)

theorem dexFinish_rel (seller buyer : Address) (p : PropertyId) :
    Option.Rel (R F) (dexFinish s seller buyer p) (dexFinish s' seller buyer p) := by
  have hdestroy := W.dexAcceptDestroy_rel h buyer seller p
  obtain ⟨_, _, _, _, _, rfl⟩ := W.exists_eq h
  exact rel_bind hdestroy fun a b hab =>
    rel_ite (rel_map (W.dexOfferDestroy_rel hab.2 _ _) fun _ _ hab => hab.2) (.some hab.2)

theorem dexPayment_rel (seller buyer : Address) (amountPaid : Int) (block : Nat)
    (payments : List (Address × Int)) :
    Option.Rel (EqualRc (R F)) (dexPayment s seller buyer amountPaid block payments)
      (dexPayment s' seller buyer amountPaid block payments) := by
  have hmove := fun p hp x =>
    W.transferIfPositive_rel h (p := p) hp x (seller, .acceptReserve) (buyer, .balance) (by simp)
  have haccepts := W.accepts h
  have hpayable : dexPayableAccept s' seller buyer = dexPayableAccept s seller buyer := by
    rw [W.same h]
    rfl
  unfold dexPayment
  rw [hpayable]
  obtain ⟨_, _, _, _, _, rfl⟩ := W.exists_eq h
  cases hpay : dexPayableAccept s seller buyer with
  | none => exact .some ⟨rfl, h⟩
  | some pa =>
    obtain ⟨p, accept⟩ := pa
    have hp : ok p := haccepts ⟨seller, p, buyer⟩ (by
      rw [contains, dexPayableAccept_find? hpay]
      rfl)
    refine rel_ite (.some ⟨rfl, h⟩) (rel_ite (.some ⟨rfl, h⟩) (rel_bind_same fun bought =>
      rel_bind (hmove p hp _) fun a b hab => rel_ite ?_ (.some ⟨rfl, W.putAccept hab hp _⟩)))
    exact rel_map (W.dexFinish_rel (W.putAccept hab hp _) _ _ _) fun _ _ hab => ⟨rfl, hab⟩

theorem handleDExPayments_rel (sender : Address) (outputs : List (Address × Int)) (block : Nat) :
    Option.Rel (R F) (handleDExPayments s sender outputs block)
      (handleDExPayments s' sender outputs block) := by
  unfold handleDExPayments
  exact rel_foldlM
    (fun a b out hab => rel_map (W.dexPayment_rel hab out.1 sender out.2 block outputs)
      fun _ _ hxy => hxy.2) h

/-! ### Orders -/

theorem replaceOrder_rel (r : OrderRef) (left : Int) (hp : ok r.order.property) :
    R F (replaceOrder s r left) (replaceOrder s' r left) := by
  have herase := W.erase r.property r.price r.pos h
  unfold replaceOrder
  split_ifs with hleft
  · exact W.put _ _ _ herase hleft hp
  · exact herase

theorem chargeFee_rel (new old : CMPMetaDEx) (got : Int) (hp : ok new.desiredProperty)
    (hfee : takesFee s new old = true → F new.desiredProperty) :
    Option.Rel (R F) (chargeFee s new old got) (chargeFee s' new old got) := by
  have hadd := fun hF x => W.addFee_rel h hp hF new.block x
  obtain ⟨_, _, _, _, _, rfl⟩ := W.exists_eq h
  exact rel_ite_of (fun htakes => hadd (hfee htakes) _) fun _ => .some h

variable {P : CConsensusParams}

theorem executeTrade_rel {new : CMPMetaDEx} (hP : s.params = P) {r : OrderRef}
    {got paid : Int} (hfree : D new.addr new.property) (hnew : PairOk ok new)
    (hpair : r.order.property = new.desiredProperty ∧ r.order.desiredProperty = new.property)
    (hpaid : Creditable D paid) (hgot : Creditable D got)
    (hfee : takesFee s new r.order = true → F new.desiredProperty) :
    Option.Rel (TradeRel (R F) P new) (executeTrade new r got paid s) (executeTrade new r got paid s') := by
  obtain ⟨hsell, hbuy⟩ := hnew
  have hold : ok r.order.property := by rwa [hpair.1]
  have holdDesired : ok r.order.desiredProperty := by rwa [hpair.2]
  have hcharge := rel_and (W.chargeFee_rel h new r.order got hbuy hfee) fun _ => chargeFee_params
  have hrest : Creditable D (got - tradingFee s new r.order got) :=
    hgot.trans fun hg => afterFee_nonneg hg s new r.order
  obtain ⟨_, _, _, _, _, rfl⟩ := W.exists_eq h
  have hmove : ∀ {a b : State}, R F a b ∧ a.params = s.params → ∀ {who p amount tt}, ok p →
      (tt = .balance → amount < 0 → D who p) →
        Option.Rel (fun a b => R F a b ∧ a.params = s.params)
          (assertTally a who p amount tt) (assertTally b who p amount tt) := by
    intro a b hab who p amount tt hp hsafe
    exact rel_and (W.assertTally_rel hab.1 hp hsafe) fun _ hr => (assertTally_params hr).trans hab.2
  refine rel_ite .none (rel_bind hcharge fun a b hab => rel_bind (hmove hab hsell fun _ _ => hfree)
    fun a b hab => rel_bind (hmove hab holdDesired fun _ hneg => hpaid hneg _ _)
      fun a b hab => rel_bind (hmove hab hold fun hb => by simp at hb)
        fun a b hab => rel_bind (hmove hab hbuy fun _ hneg => hrest hneg _ _)
          fun a b hab => .some ⟨⟨rfl, W.replaceOrder_rel hab.1 _ _ hold⟩, ?_, rfl⟩)
  rw [← hP, ← hab.2]
  unfold replaceOrder
  split <;> rfl

theorem tradeOrder_rel {new : CMPMetaDEx} (hP : s.params = P) {r : OrderRef}
    (hfree : D new.addr new.property) (hnew : PairOk ok new) (hleft : Removable ok D r.order)
    (hfee : mayChargeFee P new.block new.property new.desiredProperty = true → F new.desiredProperty) :
    Option.Rel (TradeRel (R F) P new) (tradeOrder new r s) (tradeOrder new r s') := by
  have hstay : Option.Rel (TradeRel (R F) P new) (some (new, s)) (some (new, s')) :=
    .some ⟨⟨rfl, h⟩, hP, rfl⟩
  unfold tradeOrder
  refine rel_ite .none (rel_ite_of (fun _ => hstay) fun hmatch => rel_ite_of (fun _ => .none)
    fun hassert => rel_bind_eq fun got hgot => rel_ite hstay (rel_bind_eq fun paid hpaid => rel_ite hstay ?_))
  -- The two orders are on opposite sides of the pair.
  have hprop := (not_not.mp hassert).2.2.2.1
  refine W.executeTrade_rel h hP hfree hnew ⟨hprop, not_not.mp hmatch⟩
    (.of_nonneg (amountWouldPay_nonneg hpaid)) (hleft.1.trans (amountCouldBuy_nonneg hgot)) fun htakes => hfee ?_
  simp only [takesFee, hP, Bool.and_eq_true, decide_eq_true_eq] at htakes
  simp only [mayChargeFee, Bool.and_eq_true, decide_eq_true_eq]
  rw [not_not.mp hmatch, hprop] at htakes
  exact ⟨⟨htakes.1.1, htakes.2⟩, htakes.1.2⟩

theorem tradeLoop_rel {orders : List OrderRef} {new : CMPMetaDEx}
    (hP : s.params = P) (hfree : D new.addr new.property) (hnew : PairOk ok new)
    (hleft : ∀ r ∈ orders, Removable ok D r.order)
    (hfee : mayChargeFee P new.block new.property new.desiredProperty = true → F new.desiredProperty) :
    Option.Rel (fun x y => EqualRc (R F) x y ∧ PairOk ok x.1) (tradeLoop orders new s)
      (tradeLoop orders new s') := by
  induction orders generalizing new s s' with
  | nil => exact .some ⟨⟨rfl, h⟩, hnew⟩
  | cons r rest ih =>
    have hrest : ∀ r ∈ rest, Removable ok D r.order := fun r hr => hleft r (.tail _ hr)
    refine rel_ite (ih h hP hfree hnew hrest hfee)
      (rel_bind (W.tradeOrder_rel h hP hfree hnew (hleft r (.head _)) hfee) fun x y hxy => ?_)
    obtain ⟨new₁, s₁⟩ := x
    obtain ⟨new₂, s₂⟩ := y
    obtain ⟨⟨hnew2, hs⟩, hP1, hterms⟩ := hxy
    dsimp only at hnew2 hs hP1 hterms
    subst hnew2
    have hnew1 : PairOk ok new₁ := by
      rw [hterms]
      exact hnew
    refine rel_ite (.some ⟨⟨rfl, hs⟩, hnew1⟩) (ih hs hP1 ?_ hnew1 hrest ?_)
    · rw [hterms]
      exact hfree
    · rw [hterms]
      exact hfee

theorem pricesOrders (p : PropertyId) (prices : MdPricesMap) (hp : s.metadex.find? p = some prices) :
    ∀ r ∈ MdPricesMap.orders p prices, Removable ok D r.order :=
  fun r hr => W.orders h ((listed_pricesOrders hp).found r hr)

theorem bookOrders : ∀ r ∈ MdPropertiesMap.orders s.metadex, Removable ok D r.order :=
  fun r hr => W.orders h ((listed_bookOrders s).found r hr)

theorem metadexAdd_rel {sender : Address} {p desiredProperty : PropertyId} {block : Nat}
    (hfree : D sender p) (hp : ok p) (hdesired : ok desiredProperty)
    (hfee : mayChargeFee s.params block p desiredProperty = true → F desiredProperty)
    (amount amountDesired : Int) (txid : Hash) (idx : Nat) :
    Option.Rel (EqualRc (R F))
      (metadexAdd s sender p amount block desiredProperty amountDesired txid idx)
      (metadexAdd s' sender p amount block desiredProperty amountDesired txid idx) := by
  let new : CMPMetaDEx := ⟨sender, block, p, amount, desiredProperty, amountDesired, txid, idx, amount⟩
  have hpair : PairOk ok new := ⟨hp, hdesired⟩
  have htrade : Option.Rel (fun x y => EqualRc (R F) x y ∧ PairOk ok x.1) (xTrade new s) (xTrade new s') := by
    have hnew : D new.addr new.property := hfree
    have hloop := fun prices hp => W.tradeLoop_rel h rfl hnew hpair
      (W.pricesOrders h desiredProperty prices hp) hfee
    obtain ⟨_, _, _, _, _, rfl⟩ := W.exists_eq h
    unfold xTrade
    cases hprices : s.metadex.find? new.desiredProperty with
    | none => exact .some ⟨⟨rfl, h⟩, hpair⟩
    | some prices => exact hloop _ hprices
  refine rel_ite (.some ⟨rfl, h⟩) (rel_bind htrade fun x y hxy => ?_)
  obtain ⟨new₁, s₁⟩ := x
  obtain ⟨new₂, s₂⟩ := y
  obtain ⟨⟨rfl, hs⟩, hsell, -⟩ : (new₁ = new₂ ∧ R F s₁ s₂) ∧ PairOk ok new₁ := hxy
  refine rel_ite_of (fun hleft => ?_) fun _ => .some ⟨rfl, hs⟩
  have hput := W.put new₁.property new₁.unitPrice (position new₁.block new₁.idx) hs hleft hsell
  have hins : EqualRc (R F) (metadexInsert s₁ new₁) (metadexInsert s₂ new₁) := by
    obtain ⟨_, _, _, _, _, rfl⟩ := W.exists_eq hs
    exact equalRc_ite ⟨rfl, hs⟩ ⟨rfl, hput⟩
  generalize metadexInsert s₁ new₁ = a at hins
  generalize metadexInsert s₂ new₁ = b at hins
  obtain ⟨done, r⟩ := a
  obtain ⟨done', r'⟩ := b
  obtain ⟨rfl, hr⟩ : done = done' ∧ R F r r' := hins
  cases done with
  | false => exact .some ⟨rfl, hr⟩
  | true =>
    exact rel_bind (W.transferTally_rel hr hp _ _ (.of_nonneg hleft.le) fun _ => hfree)
      fun _ _ hab => .some ⟨rfl, hab⟩

theorem cancelLoop_rel (sel : OrderRef → Bool) {l : List OrderRef}
    (hleft : ∀ r ∈ l, Removable ok D r.order) :
    Option.Rel (R F) (cancelLoop sel l s) (cancelLoop sel l s') := by
  induction l generalizing s s' with
  | nil => exact .some h
  | cons r rest ih =>
    have hrest : ∀ r ∈ rest, Removable ok D r.order := fun r hr => hleft r (.tail _ hr)
    obtain ⟨hcredit, hp⟩ := hleft r (.head _)
    refine rel_ite (rel_bind (W.transferTally_rel h hp _ _ hcredit fun hb => ?_)
      fun _ _ hab => ih (W.erase _ _ _ hab) hrest) (ih h hrest)
    simp at hb

theorem cancelOrders_rel (sel : OrderRef → Bool) {orders : List OrderRef} (nothing : Int)
    (hleft : ∀ r ∈ orders, Removable ok D r.order) :
    Option.Rel (EqualRc (R F)) (cancelOrders s sel orders nothing) (cancelOrders s' sel orders nothing) :=
  rel_bind (W.cancelLoop_rel h sel hleft) fun _ _ hab => .some ⟨rfl, hab⟩

theorem cancelInProperty_rel (p : PropertyId) (sel : OrderRef → Bool) (nothing : Int)
    (prices : MdPricesMap) (hp : s.metadex.find? p = some prices) :
    Option.Rel (EqualRc (R F)) (cancelOrders s sel (MdPricesMap.orders p prices) nothing)
      (cancelOrders s' sel (MdPricesMap.orders p prices) nothing) :=
  W.cancelOrders_rel h sel nothing (W.pricesOrders h p prices hp)

theorem shutdownAllpairLoop_rel {l : List OrderRef} (hleft : ∀ r ∈ l, Removable ok D r.order) :
    Option.Rel (R F) (shutdownAllpairLoop l s) (shutdownAllpairLoop l s') := by
  induction l generalizing s s' with
  | nil => exact .some h
  | cons r rest ih =>
    obtain ⟨hcredit, hp⟩ := hleft r (.head _)
    refine rel_ite (rel_bind (W.transferTally_rel h hp _ _ hcredit fun hb => ?_)
      fun _ _ hab => ih (W.erase _ _ _ hab) fun r hr => hleft r (.tail _ hr)) .none
    simp at hb

/-! ### Packets -/

theorem putSP_rel (ecosystem : Nat) (info : SPEntry) :
    EqualRc (R F) (putSP s ecosystem info) (putSP s' ecosystem info) := by
  obtain ⟨_, _, _, _, _, rfl⟩ := W.exists_eq h
  exact ⟨rfl, W.write h rfl rfl⟩

theorem addAlert_rel (sender : String) (alertType expiry : Nat) (message : String) :
    R F (addAlert s sender alertType expiry message) (addAlert s' sender alertType expiry message) :=
  related_ite h (W.alerts (fun as => as ++ [⟨sender, alertType, expiry, message⟩]) h)

theorem activateFeature_rel (hparams : FollowsParams R)
    (featureId activationBlock minClientVersion block : Nat) :
    EqualRc (R F) (activateFeature s featureId activationBlock minClientVersion block)
      (activateFeature s' featureId activationBlock minClientVersion block) := by
  have hadd : ∀ {t t'}, R F t t' → R F _ _ :=
    W.pending ⟨featureId, activationBlock, minClientVersion, getFeatureName featureId⟩
  have hset := fun f => hadd (hparams (s.params.setBlock f activationBlock) h)
  have hkeep := hadd h
  obtain ⟨_, _, _, _, _, rfl⟩ := W.exists_eq h
  refine equalRc_ite ⟨rfl, h⟩ (equalRc_ite ⟨rfl, h⟩ ?_)
  cases Feature.ofId featureId with
  | none =>
    refine ⟨rfl, ?_⟩
    dsimp only
    exact related_ite hkeep (W.addAlert_rel hkeep _ _ _ _)
  | some f =>
    refine ⟨rfl, ?_⟩
    exact related_ite (hset f) (W.addAlert_rel (hset f) _ _ _ _)

theorem deactivateFeature_rel (hparams : FollowsParams R) (featureId block : Nat) :
    EqualRc (R F) (deactivateFeature s featureId block) (deactivateFeature s' featureId block) := by
  have hset := fun f => hparams (s.params.setBlock f 999999) h
  obtain ⟨_, _, _, _, _, rfl⟩ := W.exists_eq h
  refine equalRc_ite ⟨rfl, h⟩ ?_
  cases Feature.ofId featureId with
  | none => exact ⟨rfl, h⟩
  | some f =>
    refine ⟨rfl, ?_⟩
    dsimp only
    exact W.addAlert_rel (hset f) _ _ _ _

theorem closeOrders_rel (featureId : Nat) :
    Option.Rel (R F) (closeOrders s featureId) (closeOrders s' featureId) := by
  have hloop := W.shutdownAllpairLoop_rel h (W.bookOrders h)
  have hcancel := fun sel nothing => W.cancelOrders_rel h sel nothing (W.bookOrders h)
  obtain ⟨_, _, _, _, _, rfl⟩ := W.exists_eq h
  exact rel_ite (rel_map (hcancel _ _) fun _ _ hxy => hxy.2) (rel_ite hloop (.some h))

section Handlers

variable (tx : CMPTransaction) (env : TxEnv)

theorem logicMathSimpleSend_rel (hfree : D tx.sender tx.property) :
    Option.Rel (EqualRc (R F)) (logicMathSimpleSend s tx env) (logicMathSimpleSend s' tx env) := by
  have hmove := fun hp (hx : 0 < toI64 tx.nValue) => W.transferTally_rel h hp
    (tx.sender, .balance) (tx.receiver, .balance) (.of_nonneg hx.le) fun _ => hfree
  obtain ⟨_, _, _, _, _, rfl⟩ := W.exists_eq h
  refine reject_related h _ fun hpass => ?_
  have hp := W.ne_zero (ne_zero_of_checks s tx.property hpass (pktErrorSend - 24) (by simp))
  refine rel_bind (hmove hp (toI64_pos_of_check hpass (by simp))) fun _ _ hab => ?_
  exact rel_bind (W.crowdsaleParticipation_rel hab _) fun _ _ hab => .some ⟨rfl, hab.2⟩

theorem payOwners_rel {sender : Address} (hfree : D sender p) (hp : ok p)
    {l : List (Int × Address)} (hpos : ∀ e ∈ l, 0 < e.1) :
    Option.Rel (R F) (payOwners s sender p l) (payOwners s' sender p l) := by
  induction l generalizing s s' with
  | nil => exact .some h
  | cons e rest ih =>
    obtain ⟨amount, address⟩ := e
    have ha : 0 < amount := hpos _ (.head _)
    exact rel_bind (W.transferTally_rel h hp _ _ (.of_nonneg ha.le) fun _ => hfree) fun _ _ hab =>
      ih hab fun e he => hpos e (.tail _ he)

section
variable (hfree : D tx.sender tx.property)
include hfree

theorem logicMathSendToOwners_rel :
    Option.Rel (EqualRc (R F)) (logicMathSendToOwners s tx) (logicMathSendToOwners s' tx) := by
  have hpay := fun hp l => W.payOwners_rel h hfree hp (l := l)
  obtain ⟨_, _, _, _, _, rfl⟩ := W.exists_eq h
  refine reject_related h _ fun hpass => rel_bind_eq fun receivers hr => reject_related h _ fun _ => ?_
  have hp := W.ne_zero (ne_zero_of_checks s tx.property hpass (pktErrorSto - 24) (by simp))
  refine rel_bind (hpay hp receivers (stoGetReceivers_pos hr)) fun a b hab => rel_ite .none (equalRc_zero ?_)
  exact rel_ite (W.notifyTotalTokensChanged_rel hab (W.ne_zero (by decide)) _) (.some hab)

theorem sendManyLoop_rel (hp : ok tx.property) {l : List (Nat × Nat)}
    (hmany : ManyCreditable D tx l) :
    Option.Rel (R F) (sendManyLoop tx l s) (sendManyLoop tx l s') := by
  induction l generalizing s s' with
  | nil => exact .some h
  | cons e rest ih =>
    obtain ⟨output, amount⟩ := e
    refine rel_bind_eq fun receiver hr => rel_bind (W.assertTally_rel h hp fun _ _ => hfree) fun _ _ hab =>
      rel_bind (W.assertTally_rel hab hp fun _ hneg => ?_) fun _ _ hab =>
        ih hab fun e he => hmany e (.tail _ he)
    exact hmany (output, amount) (.head _) hneg receiver hr

theorem logicMathSendToMany_rel
    (hmany : (∀ c ∈ stmChecks s tx, c.1 = false) → ManyCreditable D tx tx.outputValuesForSTM) :
    Option.Rel (EqualRc (R F)) (logicMathSendToMany s tx) (logicMathSendToMany s' tx) := by
  have hloop := fun hp hsafe => W.sendManyLoop_rel h tx hfree hp (l := tx.outputValuesForSTM) hsafe
  obtain ⟨_, _, _, _, _, rfl⟩ := W.exists_eq h
  refine reject_related h (stmChecks s tx) fun hpass => equalRc_zero (hloop ?_ (hmany hpass))
  exact W.ne_zero (ne_zero_of_checks s tx.property hpass (pktErrorSendMany - 24) (by simp [stmChecks]))

theorem logicMathTradeOffer_rel :
    Option.Rel (EqualRc (R F)) (logicMathTradeOffer s tx) (logicMathTradeOffer s' tx) := by
  have hcreate : Option.Rel (EqualRc (R F)) (createOffer s tx) (createOffer s' tx) :=
    W.dexOfferCreate_rel h hfree _ _ _ _ _ _
  have hupdate : Option.Rel (EqualRc (R F)) (updateOffer s tx) (updateOffer s' tx) :=
    W.dexOfferUpdate_rel h hfree _ _ _ _ _ _
  have hdestroy := W.dexOfferDestroy_rel h tx.sender tx.property
  obtain ⟨_, _, _, _, _, rfl⟩ := W.exists_eq h
  refine reject_related h _ fun _ => rel_ite ?_ (rel_ite ?_ (.some ⟨rfl, h⟩))
  · exact rel_ite (rel_ite hupdate hcreate) (rel_ite hdestroy (.some ⟨rfl, h⟩))
  · exact reject_related h _ fun _ =>
      rel_ite hcreate (rel_ite hupdate (rel_ite hdestroy (.some ⟨rfl, h⟩)))

end

theorem logicMathAcceptOfferRPD_rel :
    Option.Rel (EqualRc (R F)) (logicMathAcceptOfferRPD s tx) (logicMathAcceptOfferRPD s' tx) := by
  have haccept := W.dexAcceptCreate_rel h tx.sender tx.receiver tx.property (toI64 tx.nValue) tx.block
    (toI64 tx.txFeePaid)
  obtain ⟨_, _, _, _, _, rfl⟩ := W.exists_eq h
  exact reject_related h _ fun _ => haccept

theorem logicMathMetaDExTrade_rel (hfree : D tx.sender tx.property)
    (hfee : mayChargeFee s.params tx.block tx.property tx.desiredProperty = true → F tx.desiredProperty) :
    Option.Rel (EqualRc (R F)) (logicMathMetaDExTrade s tx) (logicMathMetaDExTrade s' tx) := by
  have hadd := fun hp hdesired =>
    W.metadexAdd_rel h hfree hp hdesired hfee (toI64 tx.nNewValue) (toI64 tx.desiredValue) tx.txid tx.txIdx
  obtain ⟨_, _, _, _, _, rfl⟩ := W.exists_eq h
  refine reject_related h _ fun hpass => hadd ?_ ?_
  · exact W.ne_zero (ne_zero_of_checks s tx.property hpass (pktErrorMetadex - 31) (by simp [pairChecks]))
  · exact W.ne_zero (ne_zero_of_checks s tx.desiredProperty hpass (pktErrorMetadex - 32) (by simp [pairChecks]))

theorem logicMathMetaDExCancelPrice_rel :
    Option.Rel (EqualRc (R F)) (logicMathMetaDExCancelPrice s tx) (logicMathMetaDExCancelPrice s' tx) := by
  have hcancel := W.cancelInProperty_rel h tx.property
  obtain ⟨_, _, _, _, _, rfl⟩ := W.exists_eq h
  refine reject_related h _ fun _ => ?_
  unfold metadexCancelAtPrice
  cases hp : s.metadex.find? tx.property with
  | none => exact .some ⟨rfl, h⟩
  | some prices => exact hcancel _ _ _ hp

theorem logicMathMetaDExCancelPair_rel :
    Option.Rel (EqualRc (R F)) (logicMathMetaDExCancelPair s tx) (logicMathMetaDExCancelPair s' tx) := by
  have hcancel := W.cancelInProperty_rel h tx.property
  obtain ⟨_, _, _, _, _, rfl⟩ := W.exists_eq h
  refine reject_related h _ fun _ => ?_
  unfold metadexCancelAllForPair
  cases hp : s.metadex.find? tx.property with
  | none => exact .some ⟨rfl, h⟩
  | some prices => exact hcancel _ _ _ hp

theorem logicMathMetaDExCancelEcosystem_rel :
    Option.Rel (EqualRc (R F)) (logicMathMetaDExCancelEcosystem s tx)
      (logicMathMetaDExCancelEcosystem s' tx) := by
  have hcancel := fun sel nothing => W.cancelOrders_rel h sel nothing (W.bookOrders h)
  obtain ⟨_, _, _, _, _, rfl⟩ := W.exists_eq h
  exact reject_related h _ fun _ => hcancel _ _

theorem logicMathCreatePropertyFixed_rel :
    Option.Rel (EqualRc (R F)) (logicMathCreatePropertyFixed s tx env)
      (logicMathCreatePropertyFixed s' tx env) := by
  have hput := W.putSP_rel h tx.ecosystem (tx.fixedSP env)
  obtain ⟨_, _, _, _, _, rfl⟩ := W.exists_eq h
  refine reject_related h _ fun hpass => rel_ite_of (fun _ => .none) fun hp => ?_
  refine rel_bind (W.credit_rel hput.2 _ (W.ne_zero hp) _
    (.of_nonneg (toI64_pos_of_check hpass (by simp)).le)) fun a b hab => ?_
  exact equalRc_zero (W.notifyTotalTokensChanged_rel hab (W.ne_zero hp) _)

theorem logicMathCreatePropertyVariable_rel :
    Option.Rel (EqualRc (R F)) (logicMathCreatePropertyVariable s tx env)
      (logicMathCreatePropertyVariable s' tx env) := by
  have hput := (W.putSP_rel h tx.ecosystem (tx.variableSP env)).2
  obtain ⟨_, _, _, _, _, rfl⟩ := W.exists_eq h
  refine reject_related h _ fun _ => rel_ite_of (fun _ => .none) fun hp => .some ⟨rfl, ?_⟩
  dsimp only [insertNew]
  split
  · exact hput
  · exact W.putCrowd hput (W.ne_zero hp) _

theorem logicMathCreatePropertyManaged_rel :
    Option.Rel (EqualRc (R F)) (logicMathCreatePropertyManaged s tx env)
      (logicMathCreatePropertyManaged s' tx env) := by
  obtain ⟨_, _, _, _, _, rfl⟩ := W.exists_eq h
  exact reject_related h _ fun _ => rel_ite .none (.some ⟨rfl, W.write h rfl rfl⟩)

theorem logicMathCloseCrowdsale_rel :
    Option.Rel (EqualRc (R F)) (logicMathCloseCrowdsale s tx env) (logicMathCloseCrowdsale s' tx env) := by
  have hupdate := W.updateSP_rel h tx.property
  obtain ⟨_, _, _, _, _, rfl⟩ := W.exists_eq h
  refine reject_related h _ fun hpass => ?_
  have hp := W.ne_zero (ne_zero_of_checks s tx.property hpass (pktErrorSp - 24) (by simp))
  cases s.crowds.find? tx.sender with
  | none => exact .some ⟨rfl, h⟩
  | some crowd =>
    refine reject_related h _ fun _ => equalRc_zero (rel_bind_same fun sp => rel_bind_same fun missed =>
      rel_bind (hupdate _) fun a b hab => rel_bind (W.creditIfPositive_rel hab _ hp _) fun a b hab => ?_)
    exact .some (W.eraseCrowd hab _)

theorem logicMathGrantTokens_rel :
    Option.Rel (EqualRc (R F)) (logicMathGrantTokens s tx env) (logicMathGrantTokens s' tx env) := by
  have hupdate := W.updateSP_rel h tx.property
  obtain ⟨_, _, _, _, _, rfl⟩ := W.exists_eq h
  refine reject_related h _ fun hpass => ?_
  have hp := W.ne_zero (ne_zero_of_checks s tx.property hpass (pktErrorTokens - 24) (by simp))
  have hpos : 0 < toI64 tx.nValue := toI64_pos_of_check hpass (by simp)
  refine rel_bind_same fun sp => reject_related h _ fun _ => rel_bind (hupdate _) fun a b hab =>
    rel_bind (W.credit_rel hab _ hp _ (.of_nonneg hpos.le)) fun a b hab => rel_bind ?_ fun a b hab =>
      equalRc_zero (W.notifyTotalTokensChanged_rel hab hp _)
  have hcrowd := W.crowdsaleParticipation_rel hab (tx.investment env)
  obtain ⟨_, _, _, _, _, rfl⟩ := W.exists_eq hab
  exact rel_ite (.some hab) (rel_map hcrowd fun _ _ hxy => hxy.2)

theorem logicMathRevokeTokens_rel (hfree : D tx.sender tx.property) :
    Option.Rel (EqualRc (R F)) (logicMathRevokeTokens s tx env) (logicMathRevokeTokens s' tx env) := by
  have hmove (hp : ok tx.property) : Option.Rel (R F)
      (assertTally s tx.sender tx.property (-toI64 tx.nValue) .balance)
      (assertTally s' tx.sender tx.property (-toI64 tx.nValue) .balance) :=
    W.assertTally_rel h hp fun _ _ => hfree
  obtain ⟨_, _, _, _, _, rfl⟩ := W.exists_eq h
  refine reject_related h _ fun hpass => rel_bind_same fun sp => reject_related h _ fun _ => ?_
  have hp := W.ne_zero (ne_zero_of_checks s tx.property hpass (pktErrorTokens - 24) (by simp))
  exact rel_bind (hmove hp) fun a b hab => rel_bind (W.updateSP_rel hab _ _) fun a b hab =>
    equalRc_zero (W.notifyTotalTokensChanged_rel hab hp _)

theorem logicMathChangeIssuer_rel :
    Option.Rel (EqualRc (R F)) (logicMathChangeIssuer s tx env) (logicMathChangeIssuer s' tx env) := by
  have hupdate := W.updateSP_rel h tx.property
  obtain ⟨_, _, _, _, _, rfl⟩ := W.exists_eq h
  exact reject_related h _ fun _ => rel_bind_same fun sp => reject_related h _ fun _ =>
    equalRc_zero (hupdate _)

theorem logicMathRapidsPayment_rel :
    Option.Rel (EqualRc (R F)) (logicMathRapidsPayment s tx env) (logicMathRapidsPayment s' tx env) := by
  have hcrowd := W.crowdsaleParticipation_rel h
  obtain ⟨_, _, _, _, _, rfl⟩ := W.exists_eq h
  refine reject_related h _ fun _ => ?_
  cases env.linked with
  | notFound => exact .some ⟨rfl, h⟩
  | notToken => exact .some ⟨rfl, h⟩
  | token valid type version sender =>
    refine reject_related h _ fun _ => rel_ite ?_ (.some ⟨rfl, h⟩)
    unfold payCrowdsale
    cases s.crowds.find? tx.receiver with
    | none => exact .some ⟨rfl, h⟩
    | some crowd =>
      exact reject_related h _ fun _ => rel_bind (hcrowd _) fun _ _ hab => .some ⟨rfl, hab.2⟩

theorem logicMathDeactivation_rel (hparams : FollowsParams R) :
    Option.Rel (EqualRc (R F)) (logicMathDeactivation s tx) (logicMathDeactivation s' tx) := by
  have hdeact := W.deactivateFeature_rel h hparams tx.featureId tx.block
  unfold logicMathDeactivation
  generalize deactivateFeature s tx.featureId tx.block = a at hdeact
  generalize deactivateFeature s' tx.featureId tx.block = b at hdeact
  obtain ⟨done, r⟩ := a
  obtain ⟨done', r'⟩ := b
  obtain ⟨rfl, hr⟩ : done = done' ∧ R F r r' := hdeact
  obtain ⟨_, _, _, _, _, rfl⟩ := W.exists_eq h
  refine reject_related h _ fun _ => ?_
  cases done with
  | false => exact .some ⟨rfl, hr⟩
  | true => exact rel_map (W.closeOrders_rel hr _) fun _ _ hab => ⟨rfl, hab⟩

theorem logicMathActivation_rel (hparams : FollowsParams R) :
    Option.Rel (EqualRc (R F)) (logicMathActivation s tx) (logicMathActivation s' tx) := by
  have hact := W.activateFeature_rel h hparams tx.featureId tx.activationBlock tx.minClientVersion tx.block
  unfold logicMathActivation
  generalize activateFeature s tx.featureId tx.activationBlock tx.minClientVersion tx.block = a at hact
  generalize activateFeature s' tx.featureId tx.activationBlock tx.minClientVersion tx.block = b at hact
  obtain ⟨done, r⟩ := a
  obtain ⟨done', r'⟩ := b
  obtain ⟨rfl, hr⟩ : done = done' ∧ R F r r' := hact
  obtain ⟨_, _, _, _, _, rfl⟩ := W.exists_eq h
  refine reject_related h _ fun _ => ?_
  cases done with
  | false => exact .some ⟨rfl, hr⟩
  | true => exact .some ⟨rfl, hr⟩

theorem logicMathAlert_rel :
    Option.Rel (EqualRc (R F)) (logicMathAlert s tx) (logicMathAlert s' tx) := by
  have hadd := W.addAlert_rel h tx.sender tx.alertType tx.alertExpiry tx.alertText
  have hdel : R F (deleteAlerts s tx.sender) (deleteAlerts s' tx.sender) :=
    W.alerts (fun as => as.filter fun a => a.alertSender != tx.sender) h
  obtain ⟨_, _, _, _, _, rfl⟩ := W.exists_eq h
  exact reject_related h _ fun _ => .some ⟨rfl, related_ite hdel hadd⟩

/-! ### Who is frozen -/

section Frozen

variable (K : FollowsFrozen R)
include K

theorem exists_eq_frozen : ∃ θ pending completed alerts, s' = { s with
      distributionThresholds := θ
      pendingActivations := pending
      completedActivations := completed
      alerts := alerts } := by
  have hs := W.same h
  rw [K.same h] at hs
  exact ⟨_, _, _, _, hs⟩

theorem sendAllLoop_rel (hD : ∀ p, D tx.sender p) {l : List PropertyId} (hl : ∀ p ∈ l, ok p) (sent : Nat) :
    Option.Rel (EqualRc (R F)) (sendAllLoop tx l sent s) (sendAllLoop tx l sent s') := by
  induction l generalizing s s' sent with
  | nil => exact .some ⟨rfl, h⟩
  | cons p rest ih =>
    have hrest : ∀ q ∈ rest, ok q := fun q hq => hl q (.tail _ hq)
    have hmove : ∀ amount, 0 < amount → Option.Rel (R F)
        (transferTally s p amount (tx.sender, .balance) (tx.receiver, .balance))
        (transferTally s' p amount (tx.sender, .balance) (tx.receiver, .balance)) := fun _ hpos =>
      W.transferTally_rel h (hl p (.head _)) _ _ (.of_nonneg hpos.le) fun _ => hD _
    have hskip := ih h hrest sent
    obtain ⟨_, _, _, _, rfl⟩ := W.exists_eq_frozen h K
    refine rel_ite_of (fun _ => hskip) fun hgo => ?_
    exact rel_bind (hmove _ (not_le.mp (not_or.mp hgo).2)) fun _ _ hab => ih hab hrest _

theorem logicMathSendAll_rel (hD : ∀ p, D tx.sender p) :
    Option.Rel (EqualRc (R F)) (logicMathSendAll s tx) (logicMathSendAll s' tx) := by
  have hloop := fun l hl => W.sendAllLoop_rel h tx K hD (l := l) hl
  obtain ⟨_, _, _, _, rfl⟩ := W.exists_eq_frozen h K
  refine reject_related h _ fun _ => rel_bind (hloop _ ?_ _) fun a b hab => ?_
  · intro p hp
    exact W.ne_zero (by simpa using List.all_eq_true.mp List.all_takeWhile p hp)
  · obtain ⟨sent, r⟩ := a
    obtain ⟨sent', r'⟩ := b
    obtain ⟨rfl, hr⟩ : sent = sent' ∧ R F r r' := hab
    exact .some ⟨rfl, hr⟩

theorem unfreezeLoop_rel (p : PropertyId) (l : List ((Address ×ₗ PropertyId) × Unit)) :
    Option.Rel (R F) (unfreezeLoop p l s) (unfreezeLoop p l s') := by
  induction l generalizing s s' with
  | nil => exact .some h
  | cons e rest ih =>
    have hnext := K.unfreeze h (ofLex e.1).1 (ofLex e.1).2
    obtain ⟨e, u⟩ := e
    have hskip := ih h
    have hgo := ih hnext
    obtain ⟨_, _, _, _, rfl⟩ := W.exists_eq_frozen h K
    refine rel_ite ?_ hskip
    cases rest with
    | nil => exact .some hnext
    | cons next rest => exact rel_ite .none hgo

theorem disableFreezing_rel (p : PropertyId) :
    Option.Rel (R F) (disableFreezing s p) (disableFreezing s' p) := by
  have hloop set : ∀ l, Option.Rel (R F) (unfreezeLoop p l { s with freezingEnabled := set })
      (unfreezeLoop p l { s' with freezingEnabled := set }) :=
    W.unfreezeLoop_rel (W.write h rfl (by rw [W.same h])) K p
  obtain ⟨_, _, _, _, rfl⟩ := W.exists_eq_frozen h K
  refine rel_ite .none (rel_bind (hloop _ _) fun a b hab => ?_)
  obtain ⟨_, _, _, _, rfl⟩ := W.exists_eq_frozen hab K
  exact rel_ite .none (.some hab)

theorem logicMathEnableFreezing_rel :
    Option.Rel (EqualRc (R F)) (logicMathEnableFreezing s tx env) (logicMathEnableFreezing s' tx env) := by
  obtain ⟨_, _, _, _, rfl⟩ := W.exists_eq_frozen h K
  exact reject_related h _ fun _ => rel_bind_same fun sp => reject_related h _ fun _ =>
    .some ⟨rfl, W.write h rfl rfl⟩

theorem logicMathDisableFreezing_rel :
    Option.Rel (EqualRc (R F)) (logicMathDisableFreezing s tx env) (logicMathDisableFreezing s' tx env) := by
  have hdisable := W.disableFreezing_rel h K tx.property
  obtain ⟨_, _, _, _, rfl⟩ := W.exists_eq_frozen h K
  exact reject_related h _ fun _ => rel_bind_same fun sp => reject_related h _ fun _ =>
    rel_map hdisable fun _ _ hab => ⟨rfl, hab⟩

theorem logicMathFreezeTokens_rel :
    Option.Rel (EqualRc (R F)) (logicMathFreezeTokens s tx env) (logicMathFreezeTokens s' tx env) := by
  have hfreeze := fun hp => K.freeze h tx.receiver (p := tx.property) hp
  obtain ⟨_, _, _, _, rfl⟩ := W.exists_eq_frozen h K
  refine reject_related h _ fun hpass => rel_bind_same fun sp => reject_related h _ fun _ =>
    .some ⟨rfl, hfreeze ?_⟩
  exact ne_zero_of_checks s tx.property hpass (pktErrorTokens - 24) (by simp [managedChecks])

theorem logicMathUnfreezeTokens_rel :
    Option.Rel (EqualRc (R F)) (logicMathUnfreezeTokens s tx env) (logicMathUnfreezeTokens s' tx env) := by
  have hunfreeze := K.unfreeze h tx.receiver tx.property
  obtain ⟨_, _, _, _, rfl⟩ := W.exists_eq_frozen h K
  exact reject_related h _ fun _ => rel_bind_same fun sp => reject_related h _ fun _ =>
    .some ⟨rfl, hunfreeze⟩

end Frozen

/-- **One handler.** The handlers about freezing and the one that sends everything
read who is frozen, those for features change the parameters. -/
theorem logicMath_rel {txType : TxType} (hfree : D tx.sender tx.property)
    (hmany : txType = .sendToMany → (∀ c ∈ stmChecks s tx, c.1 = false) →
      ManyCreditable D tx tx.outputValuesForSTM)
    (hfee : txType = .metadexTrade →
      mayChargeFee s.params tx.block tx.property tx.desiredProperty = true → F tx.desiredProperty)
    (hparams : txType = .activation ∨ txType = .deactivation → FollowsParams R)
    (hfrozen : txType.isFreezing = true ∨ txType = .sendAll → FollowsFrozen R ∧ ∀ p, D tx.sender p) :
    Option.Rel (EqualRc (R F)) (logicMath s tx env txType) (logicMath s' tx env txType) := by
  cases txType with
  | simpleSend => exact W.logicMathSimpleSend_rel h tx env hfree
  | sendToMany => exact W.logicMathSendToMany_rel h tx hfree (hmany rfl)
  | sendToOwners => exact W.logicMathSendToOwners_rel h tx hfree
  | sendAll =>
    obtain ⟨hfr, hD⟩ := hfrozen (.inr rfl)
    exact W.logicMathSendAll_rel h tx hfr hD
  | tradeOffer => exact W.logicMathTradeOffer_rel h tx hfree
  | acceptOfferRPD => exact W.logicMathAcceptOfferRPD_rel h tx
  | metadexTrade => exact W.logicMathMetaDExTrade_rel h tx hfree (hfee rfl)
  | metadexCancelPrice => exact W.logicMathMetaDExCancelPrice_rel h tx
  | metadexCancelPair => exact W.logicMathMetaDExCancelPair_rel h tx
  | metadexCancelEcosystem => exact W.logicMathMetaDExCancelEcosystem_rel h tx
  | createPropertyFixed => exact W.logicMathCreatePropertyFixed_rel h tx env
  | createPropertyVariable => exact W.logicMathCreatePropertyVariable_rel h tx env
  | createPropertyManual => exact W.logicMathCreatePropertyManaged_rel h tx env
  | closeCrowdsale => exact W.logicMathCloseCrowdsale_rel h tx env
  | grantPropertyTokens => exact W.logicMathGrantTokens_rel h tx env
  | revokePropertyTokens => exact W.logicMathRevokeTokens_rel h tx env hfree
  | changeIssuerAddress => exact W.logicMathChangeIssuer_rel h tx env
  | rapidsPayment => exact W.logicMathRapidsPayment_rel h tx env
  | enableFreezing => exact W.logicMathEnableFreezing_rel h tx env (hfrozen (.inl rfl)).1
  | disableFreezing => exact W.logicMathDisableFreezing_rel h tx env (hfrozen (.inl rfl)).1
  | freezePropertyTokens => exact W.logicMathFreezeTokens_rel h tx env (hfrozen (.inl rfl)).1
  | unfreezePropertyTokens => exact W.logicMathUnfreezeTokens_rel h tx env (hfrozen (.inl rfl)).1
  | deactivation => exact W.logicMathDeactivation_rel h tx (hparams (.inr rfl))
  | activation => exact W.logicMathActivation_rel h tx (hparams (.inl rfl))
  | alert => exact W.logicMathAlert_rel h tx
  | offerAcceptABet => exact .some ⟨rfl, h⟩

end Handlers

/-! ### Blocks -/

theorem handlerBlockBegin_rel (height time : Nat) (hash : Hash) :
    Option.Rel (R F) (handlerBlockBegin s height time hash) (handlerBlockBegin s' height time hash) := by
  have hlive := W.live height h
  have hcrowds : (checkLiveActivations s' height).crowds = (checkLiveActivations s height).crowds := by
    rw [W.same hlive]
  unfold handlerBlockBegin eraseExpiredCrowdsale
  rw [hcrowds]
  exact W.eraseExpiredLoop_rel hlive _ _ fun e he => W.crowds hlive e.1 e.2 (mem_entries_iff.mp he)

theorem creditVested_rel (devmsc : Int) :
    Option.Rel (R F) (creditVested s devmsc) (creditVested s' devmsc) := by
  have hup : ∀ x : Int, 0 < x →
      Option.Rel (EqualRc (R F)) (updateTallyMap s s.cfg.exodusAddress propertyMSC x .balance)
        (updateTallyMap s' s.cfg.exodusAddress propertyMSC x .balance) :=
    fun x hx => W.update h (W.ne_zero (by decide)) fun _ hneg => absurd hneg (not_lt.mpr hx.le)
  obtain ⟨_, _, _, _, _, rfl⟩ := W.exists_eq h
  refine rel_ite_of (fun hpos => rel_map (hup _ hpos) fun x y hxy => ?_) fun _ => .some h
  obtain ⟨done, r⟩ := x
  obtain ⟨done', r'⟩ := y
  have hr : R F r r' := hxy.2
  obtain ⟨_, _, _, _, _, rfl⟩ := W.exists_eq hr
  exact W.write hr rfl rfl

theorem calculateAndUpdateDevmsc_rel (time block : Nat) :
    Option.Rel (R F) (calculateAndUpdateDevmsc s time block) (calculateAndUpdateDevmsc s' time block) := by
  have hvested := W.creditVested_rel h
  obtain ⟨_, _, _, _, _, rfl⟩ := W.exists_eq h
  exact rel_ite (.some h) (rel_ite (.some h) (rel_ite (.some h)
    (rel_bind (hvested _) fun _ _ hab => W.notifyTotalTokensChanged_rel hab (W.ne_zero (by decide)) _)))

theorem handlerBlockEnd_rel (height time : Nat) :
    Option.Rel (R F) (handlerBlockEnd s height time) (handlerBlockEnd s' height time) := by
  have haccepts := W.eraseExpiredAcceptsLoop_rel h height
  obtain ⟨_, _, _, _, _, rfl⟩ := W.exists_eq h
  exact rel_bind (haccepts _) fun a b hab => rel_bind (W.calculateAndUpdateDevmsc_rel hab time height)
    fun a b hab => .some (W.alerts (fun as => as.filter fun a => !a.isExpired height time) hab)

end Walk

end Rapids.Token
