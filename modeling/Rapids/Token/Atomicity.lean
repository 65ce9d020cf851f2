import Rapids.Token.Reserves

/-!
# Rapids.Token.Atomicity

**Error atomicity** of packets: does a negative code mean that nothing
happened?

All handlers check before they act, with one exception. `DEx_offerUpdate`
destroys the open offer first, and where the new one is then refused the offer
is gone although the transaction is recorded as invalid. `losesOffer` is exactly
that case, as a test on the state and the packet.
-/

namespace Rapids.Token

open Rapids.Lib OrdMap

variable {s : State} {tx : CMPTransaction}

/-- Balances, both books of the traditional exchange, crowdsales, the order
book, the freeze sets and the property database are the same. -/
structure SameState (s s' : State) : Prop where
  balances : ∀ a p t, getTokenBalance s' a p t = getTokenBalance s a p t
  offers : s'.offers = s.offers
  accepts : s'.accepts = s.accepts
  crowds : s'.crowds = s.crowds
  metadex : s'.metadex = s.metadex
  freezingEnabled : s'.freezingEnabled = s.freezingEnabled
  frozen : s'.frozen = s.frozen
  sp : s'.sp = s.sp

theorem SameState.refl (s : State) : SameState s s :=
  ⟨fun _ _ _ => rfl, rfl, rfl, rfl, rfl, rfl, rfl, rfl⟩

/-! ### Replacing an offer -/

/-- Is the new offer refused, once the old one is gone? By then its tokens are
back in the balance. -/
def offerRefused (s : State) (tx : CMPTransaction) : Bool :=
  let available := getTokenBalance s tx.sender tx.property .balance +
    getTokenBalance s tx.sender tx.property .sellofferReserve
  tx.blocktimelimit == 0 || toI64 tx.amountDesired == 0 ||
    (isFeatureActivated s.params Feature.dexmath.id tx.block && decide (available < toI64 tx.nValue)) ||
    decide (available ≤ 0) || decide (toI64 tx.nValue ≤ 0)

/-- Does the packet get as far as its handler? -/
def isInterpreted (s : State) (tx : CMPTransaction) : Bool :=
  !tx.rpcOnly && tx.interpreted && !isAddressFrozen s tx.sender tx.property

/-- The packet destroys the sender's offer and cannot replace it. -/
def losesOffer (s : State) (tx : CMPTransaction) : Bool :=
  isInterpreted s tx && isOfferUpdate s tx && offerRefused s tx

theorem dexOfferDestroy_after {s₁ : State} {seller : Address} {p : PropertyId} (hs : Solvent s)
    (hsingle : SingleOffer s) (h : dexOfferDestroy s seller p = some (0, s₁)) :
    dexHasOffer s₁ seller = false ∧ s₁.offers.contains ⟨seller, p⟩ = false ∧ s₁.params = s.params ∧
      getTokenBalance s₁ seller p .balance = getTokenBalance s seller p .balance +
        getTokenBalance s seller p .sellofferReserve := by
  rcases dexOfferDestroy_cases h with ⟨hc, -⟩ | ⟨-, hex, s₂, h2, rfl⟩
  · exact absurd hc (by decide)
  have hres := hs.nonneg seller p .sellofferReserve (by simp)
  have mv := transferIfPositive_moved hres (by simp) (by simp) h2
  have hoff : (s₂.eraseOffer ⟨seller, p⟩).offers = s.offers.erase ⟨seller, p⟩ := by
    rw [State.eraseOffer, mv.books.1]
  refine ⟨?_, ?_, ?_, ?_⟩
  · unfold dexHasOffer
    rw [List.any_eq_false, hoff]
    intro o ho hseller
    have hfind := mem_entries_iff.mp ho
    rw [find?_erase] at hfind
    split_ifs at hfind with hkey
    -- any other offer of the seller would be a second one
    refine hkey (hsingle o.1 ⟨seller, p⟩ ?_ hex (by simpa using hseller))
    simp [contains, hfind]
  · rw [hoff, contains_erase]
    simp
  · rw [State.eraseOffer, mv.frame]
  · change getTokenBalance s₂ seller p .balance = _
    rw [mv.balance]
    simp

theorem updateOffer_refused_iff {s' : State} {rc : Int} (hs : Solvent s)
    (hsingle : SingleOffer s) (hex : dexOfferExists s tx.sender tx.property = true)
    (h : updateOffer s tx = some (rc, s')) :
    (rc < 0 ↔ offerRefused s tx = true) ∧
      (rc < 0 → s'.offers.contains ⟨tx.sender, tx.property⟩ = false) := by
  rcases dexOfferUpdate_cases h with ⟨-, -, hne⟩ | ⟨-, s₁, h1, h2⟩
  · rw [hex] at hne
    cases hne
  obtain ⟨hno, hgone, hparams, hbal⟩ := dexOfferDestroy_after hs hsingle h1
  refine ⟨?_, fun hneg => ?_⟩
  · rw [dexOfferCreate_refused_iff hno h2, hparams, hbal]
    simp [offerRefused, or_assoc]
  · rcases dexOfferCreate_cases h2 with ⟨-, rfl⟩ | ⟨hrc, -⟩
    · exact hgone
    · omega

/-! ### All packets -/

theorem interpretPacket_updates {env : TxEnv}
    (hint : isInterpreted s tx = true) (hu : isOfferUpdate s tx = true) :
    interpretPacket s tx env = updateOffer s tx := by
  simp only [isInterpreted, Bool.and_eq_true, Bool.not_eq_true'] at hint
  simp only [isOfferUpdate, Bool.and_eq_true, beq_iff_eq] at hu
  unfold interpretPacket
  rw [reject_pass, hu.1]
  · exact logicMathTradeOffer_updates hu.2
  · simp [hint.1.1, hint.1.2, hint.2]

theorem isOfferUpdate_exists (h : isOfferUpdate s tx = true) :
    dexOfferExists s tx.sender tx.property = true := by
  simp only [isOfferUpdate, updatesOffer, Bool.and_eq_true] at h
  exact h.2.1.2

theorem interpretPacket_unread {s' : State} {env : TxEnv} {rc : Int}
    (hint : isInterpreted s tx = false) (h : interpretPacket s tx env = some (rc, s')) :
    s' = s := by
  rcases reject_cases (by simp [allErrors, pktError]) h with ⟨-, hs⟩ | ⟨hok, -⟩
  · exact hs
  · simp only [List.forall_mem_cons, Bool.not_eq_false'] at hok
    simp [isInterpreted, hok.1, hok.2.1, hok.2.2.1] at hint

/-- In every reachable state and for every packet: a negative code means that
nothing happened, if and only if the packet does not lose an offer. -/
theorem packet_atomic_iff {cfg : Config} {es : List Event} {n : Node} {tx : CMPTransaction} {env : TxEnv}
    {rc : Int} {s' : State} (hrun : run step (Node.initial cfg) es = some n)
    (hnext : (Event.packet tx env).isNext n.clock = true)
    (h : interpretPacket n.state tx env = some (rc, s')) :
    (rc < 0 → SameState n.state s') ↔ losesOffer n.state tx = false := by
  have hi := run_inv hrun
  have hc := hi.core.mono (Event.isNext_block hnext)
  have hbook : BookBefore n.state (position tx.block tx.txIdx) := fun p price x hx =>
    (hi.book p price x hx).trans_le (of_decide_eq_true hnext)
  cases hint : isInterpreted n.state tx with
  | false =>
    rw [interpretPacket_unread hint h]
    simp [losesOffer, hint, SameState.refl]
  | true =>
    cases hu : isOfferUpdate n.state tx with
    | true =>
      have hex := isOfferUpdate_exists hu
      rw [interpretPacket_updates hint hu] at h
      obtain ⟨hrc, hgone⟩ := updateOffer_refused_iff hc.solvent hc.single hex h
      simp only [losesOffer, hint, hu, Bool.true_and]
      constructor
      · intro hsame
        by_contra hlost
        have hneg := hrc.mpr (by simpa using hlost)
        have hoff := hgone hneg
        rw [(hsame hneg).offers] at hoff
        unfold dexOfferExists at hex
        rw [hex] at hoff
        cases hoff
      · intro hok hneg
        rw [hrc.mp hneg] at hok
        cases hok
    | false =>
      refine iff_of_true (fun hneg => ?_) (by simp [losesOffer, hu])
      cases interpretPacket_step hc.solvent hc.feesUpTo h with
      | rejected _ => exact SameState.refl _
      | settled _ _ _ => exact absurd hneg (by decide)
      | created _ _ _ => exact absurd hneg (by decide)
      | exchanged _ _ hupd =>
        rw [hupd hneg] at hu
        cases hu
      | traded _ _ _ _ hatomic =>
        rw [hatomic hbook hneg]
        exact SameState.refl _

/-! ### A rejected send and a rejected update -/

/-- The seller's offer is open. -/
def offeredRun : List Event :=
  [.blockBegin 1 1500000000 1, .packet dexIssue issuanceEnv, .packet dexSell issuanceEnv]

/-- A send of tokens the sender does not have. -/
def brokeSend : CMPTransaction :=
  { dexTx "buyer" 0 4 with receiver := "seller", property := 3, nValue := 5 }

/-- An update without a payment window. -/
def windowless : CMPTransaction := { dexReprice with blocktimelimit := 0 }

theorem packet_atomic_brokeSend :
    ∃ n s', run step (Node.initial exchangeCfg) offeredRun = some n ∧
      interpretPacket n.state brokeSend issuanceEnv = some (pktErrorSend - 25, s') ∧
      SameState n.state s' := by
  have hrun : (run step (Node.initial exchangeCfg) offeredRun).bind (fun n =>
      (interpretPacket n.state brokeSend issuanceEnv).map fun r =>
        (r.1, (Event.packet brokeSend issuanceEnv).isNext n.clock, losesOffer n.state brokeSend)) =
      some (pktErrorSend - 25, true, false) := by decide +kernel
  simp only [Option.bind_eq_some_iff, Option.map_eq_some_iff, Prod.mk.injEq] at hrun
  obtain ⟨n, hn, ⟨rc, s'⟩, h, rfl, hnext, hkeeps⟩ := hrun
  exact ⟨n, s', hn, h, (packet_atomic_iff hn hnext h).mpr hkeeps (by decide)⟩

/-- The update is recorded as invalid, and the seller's offer is gone. -/
theorem packet_not_atomic_windowless :
    ¬ ∀ (cfg : Config) (es : List Event) (n : Node) (tx : CMPTransaction) (env : TxEnv) (rc : Int)
      (s' : State), run step (Node.initial cfg) es = some n →
      (Event.packet tx env).isNext n.clock = true →
      interpretPacket n.state tx env = some (rc, s') → rc < 0 → SameState n.state s' := by
  intro h
  have hrun : (run step (Node.initial exchangeCfg) offeredRun).bind (fun n =>
      (interpretPacket n.state windowless issuanceEnv).map fun r =>
        (r.1, (Event.packet windowless issuanceEnv).isNext n.clock,
          dexOfferExists n.state "seller" 3, dexOfferExists r.2 "seller" 3)) =
      some (dexErrorSelloffer - 101, true, true, false) := by decide +kernel
  simp only [Option.bind_eq_some_iff, Option.map_eq_some_iff, Prod.mk.injEq] at hrun
  obtain ⟨n, hn, ⟨rc, s'⟩, hp, hrc, hnext, hbefore, hafter⟩ := hrun
  dsimp only at hrc hafter
  have hsame := h exchangeCfg offeredRun n windowless issuanceEnv rc s' hn hnext hp (by
    rw [hrc]
    decide)
  unfold dexOfferExists at hbefore hafter
  rw [hsame.offers, hbefore] at hafter
  cases hafter

end Rapids.Token
