import Rapids.Token.Invariant

/-!
# Rapids.Token.Numbered

**Nothing has the identifier 0.** A tally is read property by property, and the traversal
ends at the identifier 0. So it matters that no address ever gets a record under it.

Records come into being with the first update, whether it succeeds or not. An update is
about a property that is not 0, or one that an offer, an accept, an order or a crowdsale
names; that these name no other is part of what is kept (`Numbered`).
-/

namespace Rapids.Token

open Rapids.Lib OrdMap

/-- No record, offer, accept, order or crowdsale has the identifier 0. -/
structure Numbered (s : State) : Prop where
  tally : ∀ a, ((s.tally.find? a).bind fun t => t.find? 0) = none
  offers : ∀ k, s.offers.contains k = true → k.property ≠ 0
  accepts : ∀ k, s.accepts.contains k = true → k.property ≠ 0
  orders : ∀ p price pos o, s.orderAt p price pos = some o → o.property ≠ 0
  crowds : ∀ a c, s.crowds.find? a = some c → c.propertyId ≠ 0

section
variable {s s' : State}

theorem Numbered.of_eq (h : Numbered s) (htally : s'.tally = s.tally) (hoffers : s'.offers = s.offers)
    (haccepts : s'.accepts = s.accepts) (hbook : s'.metadex = s.metadex) (hcrowds : s'.crowds = s.crowds) :
    Numbered s' := by
  refine ⟨?_, ?_, ?_, fun p price pos o ho => h.orders p price pos o ?_, ?_⟩
  · rw [htally]
    exact h.tally
  · rw [hoffers]
    exact h.offers
  · rw [haccepts]
    exact h.accepts
  · rwa [State.orderAt, State.level, hbook] at ho
  · rw [hcrowds]
    exact h.crowds

theorem updateMoney_find? (t : CMPTally) {p q : PropertyId} (amount : Int) (tt : TallyType) (hq : q ≠ p) :
    (CMPTally.updateMoney t p amount tt).2.find? q = t.find? q := by
  unfold CMPTally.updateMoney
  dsimp only
  split_ifs
  · rfl
  · exact find?_insert_ne t _ hq
  · exact find?_insert_ne t _ hq
  · exact find?_insert_ne t _ hq

section
variable (h : Numbered s)
include h

/-- **The rule for an update.** -/
theorem updateTallyMap_numbered (who : Address) {p : PropertyId} (hp : p ≠ 0) (amount : Int)
    (tt : TallyType) : Every (Out Numbered) (updateTallyMap s who p amount tt) := by
  refine every_ite (fun _ => every_some h) fun _ => every_ite (fun _ => every_none) fun _ => every_some ?_
  refine ⟨fun a => ?_, h.offers, h.accepts, h.orders, h.crowds⟩
  rw [find?_insert]
  by_cases ha : a = who
  · rw [if_pos ha, Option.bind_some, updateMoney_find? _ _ _ hp.symm, ← ha]
    have hold := h.tally a
    cases hfind : s.tally.find? a with
    | none => rfl
    | some t =>
      rw [hfind] at hold
      exact hold
  · rw [if_neg ha]
    exact h.tally a

theorem Numbered.putCrowd (a : Address) {c : CMPCrowd} (hc : c.propertyId ≠ 0) :
    Numbered { s with crowds := s.crowds.insert a c } := by
  refine ⟨h.tally, h.offers, h.accepts, h.orders, fun b c' hb => ?_⟩
  rw [find?_insert] at hb
  split_ifs at hb
  · rw [← Option.some.inj hb]
    exact hc
  · exact h.crowds b c' hb

theorem Numbered.eraseCrowd (a : Address) : Numbered { s with crowds := s.crowds.erase a } := by
  refine ⟨h.tally, h.offers, h.accepts, h.orders, fun b c hb => ?_⟩
  rw [find?_erase] at hb
  split_ifs at hb
  exact h.crowds b c hb

theorem Numbered.balance (a : Address) (tt : TallyType) : getTokenBalance s a 0 tt = 0 := by
  have hnone := h.tally a
  rw [getTokenBalance_eq]
  cases hfind : s.tally.find? a with
  | none => simp
  | some t =>
    rw [hfind, Option.bind_some] at hnone
    rw [Option.getD_some, CMPTally.getMoney, hnone, Option.getD_none, BalanceRecord.get_default]

theorem Numbered.putOffer {k : OfferKey} (hk : k.property ≠ 0) (o : CMPOffer) :
    Numbered (s.putOffer k o) := by
  refine ⟨h.tally, fun k' hk' => ?_, h.accepts, h.orders, h.crowds⟩
  by_cases heq : k' = k
  · rw [heq]
    exact hk
  · rw [State.putOffer, contains_insert] at hk'
    exact h.offers k' (by simpa [heq] using hk')

theorem Numbered.eraseOffer (k : OfferKey) : Numbered (s.eraseOffer k) := by
  refine ⟨h.tally, fun k' hk' => ?_, h.accepts, h.orders, h.crowds⟩
  rw [State.eraseOffer, contains_erase, Bool.and_eq_true] at hk'
  exact h.offers k' hk'.2

theorem Numbered.putAccept {k : AcceptKey} (hk : k.property ≠ 0) (a : CMPAccept) :
    Numbered (s.putAccept k a) := by
  refine ⟨h.tally, h.offers, fun k' hk' => ?_, h.orders, h.crowds⟩
  by_cases heq : k' = k
  · rw [heq]
    exact hk
  · rw [State.putAccept, contains_insert] at hk'
    exact h.accepts k' (by simpa [heq] using hk')

theorem Numbered.eraseAccept (k : AcceptKey) : Numbered (s.eraseAccept k) := by
  refine ⟨h.tally, h.offers, fun k' hk' => ?_, h.orders, h.crowds⟩
  rw [State.eraseAccept, contains_erase, Bool.and_eq_true] at hk'
  exact h.accepts k' hk'.2

theorem Numbered.putOrder (p : PropertyId) (price : ℚ) (pos : Position) {o : CMPMetaDEx}
    (ho : o.property ≠ 0) : Numbered (s.putOrder p price pos o) := by
  refine ⟨h.tally, h.offers, h.accepts, fun q price' pos' o' ho' => ?_, h.crowds⟩
  rw [State.orderAt_putOrder] at ho'
  split_ifs at ho'
  · rw [← Option.some.inj ho']
    exact ho
  · exact h.orders q price' pos' o' ho'

theorem Numbered.eraseOrder (p : PropertyId) (price : ℚ) (pos : Position) :
    Numbered (s.eraseOrder p price pos) := by
  refine ⟨h.tally, h.offers, h.accepts, fun q price' pos' o' ho' => ?_, h.crowds⟩
  rw [State.orderAt_eraseOrder] at ho'
  split_ifs at ho'
  exact h.orders q price' pos' o' ho'

end

theorem numbered_invariant : Invariant (· ≠ 0) Numbered where
  ne_zero hp := hp
  balance := by
    rintro s a p tt h hpos rfl
    rw [h.balance] at hpos
    exact absurd hpos (lt_irrefl 0)
  offers := Numbered.offers
  accepts := Numbered.accepts
  orders := Numbered.orders
  crowds := Numbered.crowds
  write := fun h hs => by
    refine h.of_eq ?_ ?_ ?_ ?_ ?_ <;> rw [hs]
  update := fun h who _ hp => updateTallyMap_numbered h who hp
  putOffer := fun h _ hk => h.putOffer hk
  eraseOffer := Numbered.eraseOffer
  putAccept := fun h _ hk => h.putAccept hk
  eraseAccept := Numbered.eraseAccept
  putOrder := fun h p price pos _ ho => h.putOrder p price pos ho
  eraseOrder := Numbered.eraseOrder
  putCrowd := fun h a _ hc => h.putCrowd a hc
  eraseCrowd := Numbered.eraseCrowd
  freeze := fun h _ _ _ => h.of_eq rfl rfl rfl rfl rfl
  unfreeze := fun h _ _ => h.of_eq rfl rfl rfl rfl rfl

/-! ### Runs -/

theorem handle_numbered (h : Numbered s) (e : Event) : Every Numbered (handle s e) := by
  refine numbered_invariant.handle_inv h e fun tx env _ => reject_out h fun _ => ?_
  cases TxType.ofId tx.type with
  | none => exact every_some h
  | some txType =>
    refine numbered_invariant.logicMath_inv tx env h fun _ => ?_
    rintro _ s s' P ⟨rfl, h⟩
    exact ⟨rfl, h.of_eq rfl rfl rfl rfl rfl⟩

/-- **In no run is there anything with the identifier 0.** -/
theorem run_numbered {cfg : Config} {es : List Event} {n : Node}
    (hrun : run step (Node.initial cfg) es = some n) : Numbered n.state := by
  refine run_invariant (I := fun n : Node => Numbered n.state) ?_ ?_ hrun
  · intro n e n' hn hstep
    obtain ⟨-, hhandle, -⟩ := step_eq_some.mp hstep
    exact handle_numbered hn e _ hhandle
  · refine ⟨fun a => rfl, fun k hk => ?_, fun k hk => ?_, fun p price pos o ho => ?_, fun a c hc => ?_⟩
    · cases hk
    · cases hk
    · cases ho
    · cases hc

end

end Rapids.Token
