import Rapids.Token.Lockstep

/-!
# Rapids.Token.Invariant

**What every call keeps.** The token layer writes its state through a few primitive steps:
an update of the tally, an offer, an accept, an order or a crowdsale that is put or erased,
an address that is frozen or released. An invariant that survives these, and does not look
at the rest of the state (`Invariant`), survives every call but the packets for features: a
run is followed beside itself (`Invariant.walk`).

Updates are about a property that the invariant allows (`ok`). The packet has passed the
test on identifiers, the property has just been created, or an offer, an accept, an order or
a crowdsale names it. One handler has no such test, the one for offers; but whoever offers
tokens has some.
-/

namespace Rapids.Token

open Rapids.Lib

variable {p : PropertyId} {l : List OrderRef}

/-- An invariant that the primitive steps keep. -/
structure Invariant (ok : PropertyId → Prop) (I : State → Prop) : Prop where
  ne_zero : ∀ {p}, p ≠ 0 → ok p
  balance : ∀ {s a p tt}, I s → 0 < getTokenBalance s a p tt → ok p
  offers : ∀ {s}, I s → ∀ k, s.offers.contains k = true → ok k.property
  accepts : ∀ {s}, I s → ∀ k, s.accepts.contains k = true → ok k.property
  orders : ∀ {s}, I s → ∀ p price pos o, s.orderAt p price pos = some o → ok o.property
  crowds : ∀ {s}, I s → ∀ a c, s.crowds.find? a = some c → ok c.propertyId
  write : ∀ {s s'}, I s → s' = { s' with
    cfg := s.cfg
    params := s.params
    tally := s.tally
    offers := s.offers
    accepts := s.accepts
    crowds := s.crowds
    metadex := s.metadex
    frozen := s.frozen } → I s'
  update : ∀ {s}, I s → ∀ who {p}, ok p → ∀ amount tt,
    Every (fun r : Bool × State => I r.2) (updateTallyMap s who p amount tt)
  putOffer : ∀ {s}, I s → ∀ {k}, ok k.property → ∀ o, I (s.putOffer k o)
  eraseOffer : ∀ {s}, I s → ∀ k, I (s.eraseOffer k)
  putAccept : ∀ {s}, I s → ∀ {k}, ok k.property → ∀ a, I (s.putAccept k a)
  eraseAccept : ∀ {s}, I s → ∀ k, I (s.eraseAccept k)
  putOrder : ∀ {s}, I s → ∀ p price pos {o}, ok o.property → I (s.putOrder p price pos o)
  eraseOrder : ∀ {s}, I s → ∀ p price pos, I (s.eraseOrder p price pos)
  putCrowd : ∀ {s}, I s → ∀ a {c}, ok c.propertyId → I { s with crowds := s.crowds.insert a c }
  eraseCrowd : ∀ {s}, I s → ∀ a, I { s with crowds := s.crowds.erase a }
  freeze : ∀ {s}, I s → ∀ a {p}, p ≠ 0 → I (freezeAddress s a p)
  unfreeze : ∀ {s}, I s → ∀ a p, I (unfreezeAddress s a p)

/-- The same for the outcome of a handler. -/
def Out (I : State → Prop) {α : Type} (r : α × State) : Prop := I r.2

theorem reject_out {I : State → Prop} {s : State} {checks : List (Bool × Int)} {go : Option (Int × State)}
    (h : I s) (hgo : (∀ c ∈ checks, c.1 = false) → Every (Out I) go) : Every (Out I) (reject s checks go) :=
  every_reject (fun _ => h) hgo

/-- One state twice, with the invariant. -/
def Beside (I : State → Prop) (_ : PropertyId → Prop) (s s' : State) : Prop := s' = s ∧ I s

theorem every_of_rel {I : State → Prop} {F : PropertyId → Prop} {x : Option State}
    (h : Option.Rel (Beside I F) x x) : Every I x := by
  cases h with
  | none => exact every_none
  | some hab => exact every_some hab.2

theorem out_of_rel {I : State → Prop} {F : PropertyId → Prop} {x : Option (Int × State)}
    (h : Option.Rel (EqualRc (Beside I F)) x x) : Every (Out I) x := by
  cases h with
  | none => exact every_none
  | some hab => exact every_some hab.2.2

namespace Invariant

variable {ok : PropertyId → Prop} {I : State → Prop} (C : Invariant ok I) {s : State}
include C

/-- **A run beside itself.** Every balance may be debited, and thresholds do not matter. -/
theorem walk : Walk ok (fun _ _ => True) (Beside I) where
  ne_zero := C.ne_zero
  balance h := C.balance h.2
  offers h := C.offers h.2
  accepts h := C.accepts h.2
  crowds h := C.crowds h.2
  orders h ho := ⟨fun _ _ _ => trivial, C.orders h.2 _ _ _ _ ho⟩
  same := by
    rintro F s s' ⟨rfl, -⟩
    rfl
  write := by
    rintro F s s' r r' ⟨rfl, h⟩ hr hr'
    have hsame : r' = r := by rw [hr', hr]
    refine ⟨hsame, C.write h ?_⟩
    rw [hr]
  update := by
    rintro F s s' who p amount tt ⟨rfl, h⟩ hp -
    have hall := C.update h who hp amount tt
    generalize updateTallyMap s' who p amount tt = x at hall ⊢
    cases x with
    | none => exact .none
    | some r => exact .some ⟨rfl, rfl, hall r rfl⟩
  putOffer := by
    rintro F s s' k ⟨rfl, h⟩ hk o
    exact ⟨rfl, C.putOffer h hk o⟩
  eraseOffer := by
    rintro F s s' ⟨rfl, h⟩ k
    exact ⟨rfl, C.eraseOffer h k⟩
  putAccept := by
    rintro F s s' k ⟨rfl, h⟩ hk a
    exact ⟨rfl, C.putAccept h hk a⟩
  eraseAccept := by
    rintro F s s' ⟨rfl, h⟩ k
    exact ⟨rfl, C.eraseAccept h k⟩
  putCrowd := by
    rintro F s s' c ⟨rfl, h⟩ hc a
    exact ⟨rfl, C.putCrowd h a hc⟩
  eraseCrowd := by
    rintro F s s' ⟨rfl, h⟩ a
    exact ⟨rfl, C.eraseCrowd h a⟩
  erase := by
    rintro F s s' p price pos ⟨rfl, h⟩
    exact ⟨rfl, C.eraseOrder h p price pos⟩
  put := by
    rintro F s s' o p price pos ⟨rfl, h⟩ - ho
    exact ⟨rfl, C.putOrder h p price pos ho⟩
  threshold := by
    rintro F s s' p ⟨rfl, -⟩ -
    rfl
  setThreshold := by
    rintro F s s' p ⟨rfl, h⟩
    exact ⟨rfl, C.write h rfl⟩
  mono _ h := h
  live := by
    rintro F s s' height ⟨rfl, h⟩
    refine ⟨rfl, ?_⟩
    rw [checkLiveActivations_frame]
    exact C.write h rfl
  pending := by
    rintro F s s' a ⟨rfl, h⟩
    exact ⟨rfl, C.write h rfl⟩
  alerts := by
    rintro F s s' f ⟨rfl, h⟩
    exact ⟨rfl, C.write h rfl⟩

theorem followsFrozen : FollowsFrozen (Beside I) where
  same h := by rw [h.1]
  freeze := by
    rintro F s s' ⟨rfl, h⟩ a p hp
    exact ⟨rfl, C.freeze h a hp⟩
  unfreeze := by
    rintro F s s' ⟨rfl, h⟩ a p
    exact ⟨rfl, C.unfreeze h a p⟩

omit C in
theorem beside (h : I s) : Beside I (fun _ => True) s s := ⟨rfl, h⟩

/-- **One packet**, where the parameters do not matter or it is not for features. -/
theorem logicMath_inv (tx : CMPTransaction) (env : TxEnv) (h : I s) {txType : TxType}
    (hparams : txType = .activation ∨ txType = .deactivation → FollowsParams (Beside I)) :
    Every (Out I) (logicMath s tx env txType) :=
  out_of_rel (C.walk.logicMath_rel (beside h) tx env trivial (fun _ _ _ _ _ _ _ => trivial)
    (fun _ _ => trivial) hparams fun _ => ⟨C.followsFrozen, fun _ => trivial⟩)

theorem closeOrders_inv (h : I s) (featureId : Nat) : Every I (closeOrders s featureId) :=
  every_of_rel (C.walk.closeOrders_rel (beside h) featureId)

/-- **One event**, if it keeps the invariant as a packet. -/
theorem handle_inv (h : I s) (e : Event)
    (hpacket : ∀ tx env, e = .packet tx env → Every (Out I) (interpretPacket s tx env)) :
    Every I (handle s e) := by
  cases e with
  | blockBegin height time hash => exact every_of_rel (C.walk.handlerBlockBegin_rel (beside h) height time hash)
  | payment block sender outputs =>
    exact every_of_rel (C.walk.handleDExPayments_rel (beside h) sender outputs block)
  | packet tx env => exact every_map (hpacket tx env rfl) fun _ h1 => h1
  | blockEnd height time => exact every_of_rel (C.walk.handlerBlockEnd_rel (beside h) height time)

end Invariant

end Rapids.Token
