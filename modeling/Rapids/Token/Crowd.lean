import Rapids.Token.Ledger

/-!
# Rapids.Token.Crowd

**Crowdsales** (`sp.cpp`, and the passive participation of `tx.cpp`).

A crowdsale is keyed by its issuer. A transfer to the issuer in the desired
property creates tokens for the sender and a bonus for the issuer; closing the
sale credits the part of the bonus that rounding withheld. All of it is
256-bit arithmetic with a cap at the largest 64-bit total, so the facts that
matter are the two bounds `calculateFundraiser_spec` and
`getMissedIssuerBonus_spec`.
-/

namespace Rapids.Token

open Rapids.Lib OrdMap

variable {s s' : State} {crowd : CMPCrowd} {block : Nat} {blockTime user issuer : Int} {tx : Investment}
  {close : Bool} {address : Address} {blockHash : Hash}

/-! ### 256-bit words -/

/-- `arith_uint256` keeps the low 256 bits. -/
def w256 (x : Nat) : Nat := x % 2 ^ 256

/-- `arith_uint256` subtraction. -/
def sub256 (a b : Nat) : Nat := (a + 2 ^ 256 - b) % 2 ^ 256

theorem w256_of_lt {x : Nat} (h : x < 2 ^ 256) : w256 x = x := Nat.mod_eq_of_lt h

theorem sub256_of_le {a b : Nat} (h : b ≤ a) (ha : a < 2 ^ 256) : sub256 a b = a - b := by
  unfold sub256
  omega

/-! ### Amounts -/

/-- Precision of percentages, and of divisible amounts. -/
def precision : Nat := 1000000000000
def satoshiPrecision : Nat := 100000000

/-- Seconds left until the deadline. -/
def bonusSeconds (fundraiserSecs currentSecs : Int) : Option Nat :=
  if currentSecs < fundraiserSecs then do
    let deadline ← convertTo256 fundraiserSecs
    let now ← convertTo256 currentSecs
    return sub256 deadline now
  else some 0

/-- What a transfer creates before any cap: for the user and for the issuer. -/
def createdTokens (inflateAmount : Bool) (amtTransfer : Int) (bonusPerc : Nat)
    (fundraiserSecs currentSecs numProps : Int) (issuerPerc : Nat) : Option (Nat × Nat) := do
  let seconds ← bonusSeconds fundraiserSecs currentSecs
  let weeks := w256 (w256 (seconds / 604800 * precision) +
    w256 (seconds % 604800 * precision) / 604800)
  let ebPercentage := w256 (weeks * bonusPerc)
  let bonusPercentage := w256 (w256 (precision * 100) + ebPercentage) / 100
  let issuerPercentage := w256 (issuerPerc * precision) / 100
  let transferred ← convertTo256 amtTransfer
  let props ← convertTo256 numProps
  let inflated := if inflateAmount then w256 (transferred * satoshiPrecision) else transferred
  let created := w256 (w256 (inflated * props) * bonusPercentage)
  let issuer :=
    w256 (w256 (created / satoshiPrecision / precision * (issuerPercentage / 100)) * precision)
  return (created / precision / satoshiPrecision, issuer / precision / satoshiPrecision / 100)

/-- Cap what is created so that the total stays within 64 bits. A division by
zero throws, and the issuer's part is asserted to fit. -/
def capFundraiser (createdInt issuerInt : Nat) (totalTokens : Int) : Option (Int × Int × Bool) := do
  let total ← convertTo256 totalTokens
  if maxInt8Bytes < w256 (w256 (total + createdInt) + issuerInt) then
    let maxCreatable := sub256 maxInt8Bytes total
    let created := w256 (createdInt + issuerInt)
    let ratio := w256 (w256 (created * precision) * satoshiPrecision) / maxCreatable
    let issuer := w256 (w256 (issuerInt * precision) * satoshiPrecision) / ratio
    if maxCreatable = 0 ∨ ratio = 0 ∨ maxCreatable < issuer then none
    else
      let user64 ← convertTo64 (sub256 maxCreatable issuer)
      let issuer64 ← convertTo64 issuer
      return (user64, issuer64, true)
  else
    let user64 ← convertTo64 createdInt
    let issuer64 ← convertTo64 issuerInt
    return (user64, issuer64, false)

/-- The tokens a participation creates: for the user, for the issuer, and
whether the maximum was reached. -/
def calculateFundraiser (inflateAmount : Bool) (amtTransfer : Int) (bonusPerc : Nat)
    (fundraiserSecs currentSecs numProps : Int) (issuerPerc : Nat) (totalTokens : Int) :
    Option (Int × Int × Bool) := do
  let (createdInt, issuerInt) ←
    createdTokens inflateAmount amtTransfer bonusPerc fundraiserSecs currentSecs numProps issuerPerc
  capFundraiser createdInt issuerInt totalTokens

/-- The issuer's bonus that rounding withheld. The total must be what the
crowdsale created. -/
def getMissedIssuerBonus (s : State) (sp : SPEntry) (crowd : CMPCrowd) : Option Int :=
  if getTotalTokens s crowd.propertyId ≠ crowd.iCreated + crowd.uCreated then none
  else do
    let amountIssuer ← convertTo256 crowd.iCreated
    let amountUsers ← convertTo256 crowd.uCreated
    let amountTotal := w256 (amountUsers + amountIssuer)
    let exactBonus := w256 (amountUsers * sp.percentage.toNat) / 100
    let amountMissing := exactBonus - amountIssuer
    if exactBonus < amountIssuer then some 0
    else if maxInt8Bytes < w256 (amountTotal + amountMissing) then
      convertTo64 (sub256 maxInt8Bytes amountTotal)
    else convertTo64 amountMissing

/-! ### Participating and closing -/

/-- Close a crowdsale that reached the maximum. -/
def eraseMaxedCrowdsale (s : State) (address : Address) (blockTime : Int) (blockHash : Option Hash) :
    Option State :=
  match s.crowds.find? address with
  | none => some s
  | some crowd => do
    let sp ← getSP s crowd.propertyId
    let hash ← blockHash
    let s ← updateSP s crowd.propertyId { sp with
      historicalData := crowd.txFundraiserData
      closeEarly := true
      maxTokens := true
      timeclosed := blockTime
      updateBlock := hash }
    return { s with crowds := s.crowds.erase address }

/-- Credit an amount unless it is zero. -/
def creditIfPositive (s : State) (who : Address) (p : PropertyId) (amount : Int) : Option State :=
  if 0 < amount then assertTally s who p amount .balance else some s

/-- Close one crowdsale if its deadline is over. -/
def eraseExpiredOne (s : State) (blockTime : Int) (blockHash : Hash) (address : Address)
    (crowd : CMPCrowd) : Option State :=
  if crowd.deadline < blockTime then do
    let sp ← getSP s crowd.propertyId
    let missedTokens ← getMissedIssuerBonus s sp crowd
    let s ← updateSP s crowd.propertyId { sp with
      historicalData := crowd.txFundraiserData
      missedTokens := missedTokens
      updateBlock := blockHash }
    let s ← creditIfPositive s sp.issuer crowd.propertyId missedTokens
    return { s with crowds := s.crowds.erase address }
  else some s

/-- The loop over the active crowdsales. -/
def eraseExpiredLoop (blockTime : Int) (blockHash : Hash) :
    List (Address × CMPCrowd) → State → Option State
  | [], s => some s
  | (address, crowd) :: rest, s => do
    let s ← eraseExpiredOne s blockTime blockHash address crowd
    eraseExpiredLoop blockTime blockHash rest s

/-- `eraseExpiredCrowdsale`, run at the beginning of every block. -/
def eraseExpiredCrowdsale (s : State) (blockTime : Int) (blockHash : Hash) : Option State :=
  eraseExpiredLoop blockTime blockHash s.crowds.entries s

/-- What a participation reads of its transaction. -/
structure Investment where
  sender : Address
  receiver : Address
  property : PropertyId
  nValue : Nat
  txid : Hash
  block : Nat
  blockTime : Int
  blockHash : Option Hash

/-- `PKT_ERROR_CROWD` -/
def pktErrorCrowd : Int := -45000

/-- The crowdsale after a participation. -/
def CMPCrowd.participate (crowd : CMPCrowd) (tx : Investment) (user issuer : Int) : CMPCrowd :=
  { crowd with
    uCreated := crowd.uCreated + user
    iCreated := crowd.iCreated + issuer
    txFundraiserData :=
      crowd.txFundraiserData.insertNew tx.txid [toI64 tx.nValue, tx.blockTime, user, issuer] }

/-- The tokens a transfer buys in a crowdsale. -/
def fundraiserTokens (s : State) (sp : SPEntry) (crowd : CMPCrowd) (tx : Investment) :
    Option (Int × Int × Bool) :=
  calculateFundraiser (!isPropertyDivisible s tx.property) (toI64 tx.nValue) sp.earlyBird.toNat
    sp.deadline tx.blockTime sp.numTokens sp.percentage.toNat (getTotalTokens s crowd.propertyId)

/-- Close the receiver's crowdsale if the maximum was reached. -/
def closeIfMaxed (s : State) (tx : Investment) (close : Bool) : Option State :=
  if close then eraseMaxedCrowdsale s tx.receiver tx.blockTime tx.blockHash else some s

/-- `logicHelper_CrowdsaleParticipation`: the passive effect of a transfer. -/
def crowdsaleParticipation (s : State) (tx : Investment) : Option (Int × State) :=
  match s.crowds.find? tx.receiver with
  | none => some (pktErrorCrowd - 1, s)
  | some crowd =>
    if crowd.propertyDesired ≠ tx.property then some (pktErrorCrowd - 2, s)
    else do
      let sp ← getSP s crowd.propertyId
      let (user, issuer, close) ← fundraiserTokens s sp crowd tx
      let s := { s with crowds := s.crowds.insert tx.receiver (crowd.participate tx user issuer) }
      let s ← creditIfPositive s tx.sender crowd.propertyId user
      let s ← creditIfPositive s tx.receiver crowd.propertyId issuer
      let s ← notifyTotalTokensChanged s crowd.propertyId tx.block
      let s ← closeIfMaxed s tx close
      return (if user = 0 ∧ issuer = 0 then pktErrorCrowd - 3 else 0, s)

/-! ### Bounds -/

theorem convertTo256_toNat {x : Int} {y : Nat} (h : convertTo256 x = some y) :
    0 ≤ x ∧ y = x.toNat := by
  unfold convertTo256 at h
  split_ifs at h with hx
  exact ⟨not_lt.mp hx, by simpa using h.symm⟩

theorem convertTo64_nonneg {x : Nat} {y : Int} (h : convertTo64 x = some y) : 0 ≤ y := by
  rw [(convertTo64_spec h).1]
  exact Int.natCast_nonneg x

variable {total rc : Int} {sp : SPEntry} {p : PropertyId}

theorem capFundraiser_spec {c i : Nat}
    (ht : total ≤ i64Max) (h : capFundraiser c i total = some (user, issuer, close)) :
    total + user + issuer ≤ i64Max := by
  simp only [capFundraiser, Option.bind_eq_bind, Option.bind_eq_some_iff] at h
  obtain ⟨t, htot, h⟩ := h
  obtain ⟨h0, rfl⟩ := convertTo256_toNat htot
  have hmax : maxInt8Bytes = 9223372036854775807 := rfl
  unfold i64Max at ht ⊢
  split_ifs at h with hcap hbad
  · -- the cap: user and issuer share what can still be created
    simp only [Option.bind_eq_some_iff, Option.pure_def, Option.some.injEq, Prod.mk.injEq] at h
    obtain ⟨u, hu, v, hv, rfl, rfl, -⟩ := h
    obtain ⟨rfl, -⟩ := convertTo64_spec hu
    obtain ⟨rfl, -⟩ := convertTo64_spec hv
    simp only [not_or, not_lt] at hbad
    obtain ⟨-, -, hle⟩ := hbad
    have hm : sub256 maxInt8Bytes total.toNat = maxInt8Bytes - total.toNat :=
      sub256_of_le (by omega) (by omega)
    rw [hm] at hle ⊢
    generalize w256 (w256 (i * precision) * satoshiPrecision) /
      (w256 (w256 (w256 (c + i) * precision) * satoshiPrecision) / (maxInt8Bytes - total.toNat)) = x
      at hle ⊢
    rw [sub256_of_le hle (by omega)]
    omega
  · simp only [Option.bind_eq_some_iff, Option.pure_def, Option.some.injEq, Prod.mk.injEq] at h
    obtain ⟨u, hu, v, hv, rfl, rfl, -⟩ := h
    obtain ⟨rfl, hc⟩ := convertTo64_spec hu
    obtain ⟨rfl, hi⟩ := convertTo64_spec hv
    rw [w256_of_lt (x := total.toNat + c) (by omega), w256_of_lt (by omega)] at hcap
    omega

theorem capFundraiser_nonneg {c i : Nat}
    (h : capFundraiser c i total = some (user, issuer, close)) : 0 ≤ user ∧ 0 ≤ issuer := by
  simp only [capFundraiser, Option.bind_eq_bind, Option.bind_eq_some_iff] at h
  obtain ⟨t, -, h⟩ := h
  split_ifs at h
  · simp only [Option.bind_eq_some_iff, Option.pure_def, Option.some.injEq, Prod.mk.injEq] at h
    obtain ⟨u, hu, v, hv, rfl, rfl, -⟩ := h
    exact ⟨convertTo64_nonneg hu, convertTo64_nonneg hv⟩
  · simp only [Option.bind_eq_some_iff, Option.pure_def, Option.some.injEq, Prod.mk.injEq] at h
    obtain ⟨u, hu, v, hv, rfl, rfl, -⟩ := h
    exact ⟨convertTo64_nonneg hu, convertTo64_nonneg hv⟩

theorem calculateFundraiser_spec {inflate : Bool} {amt : Int} {bonusPerc : Nat}
    {secs now num : Int} {issuerPerc : Nat}
    (ht : total ≤ i64Max)
    (h : calculateFundraiser inflate amt bonusPerc secs now num issuerPerc total =
      some (user, issuer, close)) :
    total + user + issuer ≤ i64Max := by
  simp only [calculateFundraiser, do_eq_some] at h
  obtain ⟨⟨c, i⟩, -, h⟩ := h
  exact capFundraiser_spec ht h

theorem fundraiserTokens_nonneg
    (h : fundraiserTokens s sp crowd tx = some (user, issuer, close)) : 0 ≤ user ∧ 0 ≤ issuer := by
  simp only [fundraiserTokens, calculateFundraiser, do_eq_some] at h
  obtain ⟨⟨c, i⟩, -, h⟩ := h
  exact capFundraiser_nonneg h

theorem getMissedIssuerBonus_nonneg {missed : Int}
    (h : getMissedIssuerBonus s sp crowd = some missed) : 0 ≤ missed := by
  unfold getMissedIssuerBonus at h
  split_ifs at h
  simp only [do_eq_some] at h
  obtain ⟨i, -, u, -, h⟩ := h
  split_ifs at h
  · simp only [Option.some.injEq] at h
    exact h.le
  · exact convertTo64_nonneg h
  · exact convertTo64_nonneg h

theorem getMissedIssuerBonus_spec {missed : Int}
    (ht : getTotalTokens s crowd.propertyId ≤ i64Max)
    (h : getMissedIssuerBonus s sp crowd = some missed) :
    getTotalTokens s crowd.propertyId + missed ≤ i64Max := by
  unfold getMissedIssuerBonus at h
  split_ifs at h with htot
  simp only [do_eq_some] at h
  obtain ⟨i, hi, u, hu, h⟩ := h
  obtain ⟨hi0, rfl⟩ := convertTo256_toNat hi
  obtain ⟨hu0, rfl⟩ := convertTo256_toNat hu
  rw [not_not.mp htot] at ht ⊢
  have hmax : maxInt8Bytes = 9223372036854775807 := rfl
  unfold i64Max at ht ⊢
  rw [w256_of_lt (x := crowd.uCreated.toNat + crowd.iCreated.toNat) (by omega)] at h
  split_ifs at h with hneg hcap
  · simp only [Option.some.injEq] at h
    omega
  · obtain ⟨rfl, -⟩ := convertTo64_spec h
    rw [sub256_of_le (by omega) (by omega)]
    omega
  · obtain ⟨rfl, hm⟩ := convertTo64_spec h
    rw [w256_of_lt (by omega)] at hcap
    omega

/-! ### What participating and closing do -/

theorem creditIfPositive_step {who : Address} {amount : Int}
    (block : Nat) (ha : 0 ≤ amount) (h : creditIfPositive s who p amount = some s') :
    FeeStep s s' block fun q => if q = p then amount else 0 := by
  unfold creditIfPositive at h
  split_ifs at h with hpos
  · exact (assertTally_spec h).feeStep block
  · simp only [Option.some.injEq] at h
    subst h
    have hz : amount = 0 := le_antisymm (not_lt.mp hpos) ha
    simpa [hz] using FeeStep.refl s block

theorem updateSP_effect {info : SPEntry}
    (hf : FeesUpTo s block) (h : updateSP s p info = some s') :
    Effect s s' block fun _ => 0 := by
  obtain ⟨-, -, -, -, -, hfr⟩ := updateSP_spec h
  apply Effect.of_eq hf <;> rw [hfr]

theorem eraseCrowd_effect (a : Address) (hf : FeesUpTo s block) :
    Effect s { s with crowds := s.crowds.erase a } block fun _ => 0 :=
  Effect.of_eq hf rfl rfl rfl rfl rfl rfl

theorem eraseCrowd_spFrame (s : State) (a : Address) :
    SpFrame s { s with crowds := s.crowds.erase a } := by
  refine ⟨fun _ => rfl, fun b c hc => ⟨c, ?_, rfl⟩, rfl⟩
  rw [find?_erase] at hc
  split_ifs at hc
  exact hc

theorem eraseMaxedCrowdsale_effect {blockHash : Option Hash} (hf : FeesUpTo s block)
    (h : eraseMaxedCrowdsale s address blockTime blockHash = some s') :
    Effect s s' block (fun _ => 0) ∧ SpFrame s s' := by
  unfold eraseMaxedCrowdsale at h
  split at h
  · simp only [Option.some.injEq] at h
    subst h
    exact ⟨Effect.refl hf, SpFrame.of_eq rfl rfl rfl⟩
  · simp only [do_eq_some, pure_eq_some] at h
    obtain ⟨sp, hsp, hash, -, s₁, h1, rfl⟩ := h
    have he := updateSP_effect hf h1
    exact ⟨he.trans (eraseCrowd_effect address he.feesUpTo) fun _ => by simp,
      (updateSP_spFrame h1 hsp rfl).trans (eraseCrowd_spFrame s₁ address)⟩

theorem getTotalTokens_congr (hsp : getSP s' p = getSP s p)
    (hsup : supply s' p = supply s p) : getTotalTokens s' p = getTotalTokens s p := by
  unfold supply at hsup
  unfold getTotalTokens
  rw [hsp]
  cases getSP s p with
  | none => rfl
  | some e => simp [hsup]

theorem LedgerInv.crowd_entry (hi : LedgerInv s) {a : Address} {c : CMPCrowd}
    (hc : s.crowds.find? a = some c) :
    getTotalTokens s c.propertyId = supply s c.propertyId ∧ hasSP s c.propertyId = true ∧
      c.propertyId ≠ propertyMSC := by
  obtain ⟨h1, h2, e, he, hfix, -⟩ := hi.crowd a c hc
  have hget : getSP s c.propertyId = some e := by simp [getSP, h1, h2, he]
  exact ⟨getTotalTokens_eq_supply hget hfix, by simp [hasSP, hget], h1⟩

/-- What a transfer creates in the receiver's crowdsale. -/
def participationMint (s : State) (tx : Investment) (q : PropertyId) : Int :=
  match s.crowds.find? tx.receiver with
  | none => 0
  | some crowd =>
    if crowd.propertyDesired = tx.property ∧ q = crowd.propertyId then
      match (getSP s crowd.propertyId).bind fun sp => fundraiserTokens s sp crowd tx with
      | none => 0
      | some (user, issuer, _) => user + issuer
    else 0

theorem crowdsaleParticipation_cases
    (h : crowdsaleParticipation s tx = some (rc, s')) :
    (s' = s ∧ ∀ q, participationMint s tx q = 0) ∨
    ∃ crowd sp user issuer close s₁ s₂ s₃,
      s.crowds.find? tx.receiver = some crowd ∧ getSP s crowd.propertyId = some sp ∧
      fundraiserTokens s sp crowd tx = some (user, issuer, close) ∧
      creditIfPositive
          { s with crowds := s.crowds.insert tx.receiver (crowd.participate tx user issuer) }
          tx.sender crowd.propertyId user = some s₁ ∧
      creditIfPositive s₁ tx.receiver crowd.propertyId issuer = some s₂ ∧
      notifyTotalTokensChanged s₂ crowd.propertyId tx.block = some s₃ ∧
      closeIfMaxed s₃ tx close = some s' ∧
      participationMint s tx = fun q => if q = crowd.propertyId then user + issuer else 0 := by
  unfold crowdsaleParticipation at h
  cases hc : s.crowds.find? tx.receiver with
  | none =>
    simp only [hc, Option.some.injEq, Prod.mk.injEq] at h
    exact .inl ⟨h.2.symm, fun q => by simp [participationMint, hc]⟩
  | some crowd =>
    simp only [hc] at h
    split_ifs at h with hdes
    · simp only [Option.some.injEq, Prod.mk.injEq] at h
      exact .inl ⟨h.2.symm, fun q => by simp [participationMint, hc, hdes]⟩
    · simp only [do_eq_some, pure_eq_some, Prod.mk.injEq, Prod.exists] at h
      obtain ⟨sp, hsp, user, issuer, close, hfund, s₁, h1, s₂, h2, s₃, h3, s₄, h4, -, rfl⟩ := h
      refine .inr ⟨crowd, sp, user, issuer, close, s₁, s₂, s₃, rfl, hsp, hfund, h1, h2, h3, h4, ?_⟩
      funext q
      simp only [not_not] at hdes
      by_cases hq : q = crowd.propertyId <;> simp [participationMint, hc, hdes, hq, hsp, hfund]

/-- A participation creates the user's and the issuer's tokens, and nothing
else. -/
theorem crowdsaleParticipation_effect
    (hf : FeesUpTo s tx.block) (h : crowdsaleParticipation s tx = some (rc, s')) :
    Effect s s' tx.block (participationMint s tx) ∧ SpFrame s s' := by
  rcases crowdsaleParticipation_cases h with
    ⟨rfl, hz⟩ | ⟨crowd, sp, user, issuer, close, s₁, s₂, s₃, hc, hsp, hfund, h1, h2, h3, h4, hmint⟩
  · rw [funext hz]
    exact ⟨Effect.refl hf, SpFrame.of_eq rfl rfl rfl⟩
  obtain ⟨hu, hiss⟩ := fundraiserTokens_nonneg hfund
  rw [hmint]
  -- the crowdsale object is written first
  set s₀ : State := { s with
    crowds := s.crowds.insert tx.receiver (crowd.participate tx user issuer) } with hs0
  have e₀ : Effect s s₀ tx.block fun _ => 0 := Effect.of_eq hf rfl rfl rfl rfl rfl rfl
  have f₀ : SpFrame s s₀ := by
    refine ⟨fun _ => rfl, fun a c' hc' => ?_, rfl⟩
    rw [hs0, find?_insert] at hc'
    split_ifs at hc' with ha
    · subst ha
      simp only [Option.some.injEq] at hc'
      subst hc'
      exact ⟨crowd, hc, rfl⟩
    · exact ⟨c', hc', rfl⟩
  have st₁ := creditIfPositive_step tx.block hu h1
  have st₂ := creditIfPositive_step tx.block hiss h2
  have st₃ := notifyTotalTokensChanged_feeStep h3
  have hf1 := st₁.feesUpTo e₀.feesUpTo
  have hf2 := st₂.feesUpTo hf1
  have hf3 := st₃.feesUpTo hf2
  have st₄ : Effect s₃ s' tx.block (fun _ => 0) ∧ SpFrame s₃ s' := by
    unfold closeIfMaxed at h4
    split_ifs at h4
    · exact eraseMaxedCrowdsale_effect hf3 h4
    · simp only [Option.some.injEq] at h4
      subst h4
      exact ⟨Effect.refl hf3, SpFrame.of_eq rfl rfl rfl⟩
  refine ⟨?_, (((f₀.trans st₁.spFrame).trans st₂.spFrame).trans st₃.spFrame).trans st₄.2⟩
  have e₁ := e₀.trans (st₁.effect e₀.feesUpTo) fun q => (zero_add _).symm
  have e₁₂ := e₁.trans (st₂.effect hf1) fun q => rfl
  have e₃₄ := (st₃.effect hf2).trans st₄.1 fun q => rfl
  refine e₁₂.trans e₃₄ fun q => ?_
  by_cases hq : q = crowd.propertyId <;> simp [hq]

theorem participationMint_mintable (hi : LedgerInv s)
    (h : crowdsaleParticipation s tx = some (rc, s')) : Mintable s (participationMint s tx) := by
  rcases crowdsaleParticipation_cases h with
    ⟨rfl, hz⟩ | ⟨crowd, sp, user, issuer, close, s₁, s₂, s₃, hc, hsp, hfund, -, -, -, -, hmint⟩
  · rw [funext hz]
    exact hi.mintable_zero
  obtain ⟨htot, hhas, hne⟩ := hi.crowd_entry hc
  have hb := calculateFundraiser_spec (by rw [htot]; exact hi.bounded _) hfund
  rw [htot] at hb
  rw [hmint]
  exact hi.mintable_single hhas hne (by omega)

/-- What a participation creates depends on the receiver's crowdsale, its
property and the divisibility of the property sent. -/
theorem participationMint_congr (hcrowd : s'.crowds.find? tx.receiver = s.crowds.find? tx.receiver)
    (hsp : ∀ c, s.crowds.find? tx.receiver = some c → getSP s' c.propertyId = getSP s c.propertyId ∧
      supply s' c.propertyId = supply s c.propertyId)
    (hdiv : isPropertyDivisible s' tx.property = isPropertyDivisible s tx.property) :
    participationMint s' tx = participationMint s tx := by
  funext q
  unfold participationMint
  rw [hcrowd]
  cases hc : s.crowds.find? tx.receiver with
  | none => rfl
  | some crowd =>
    obtain ⟨h1, h2⟩ := hsp crowd hc
    simp [h1, fundraiserTokens, hdiv, getTotalTokens_congr h1 h2]

/-! ### Expired crowdsales -/

/-- The bonus that closing a crowdsale now would credit. -/
def missedBonus (s : State) (crowd : CMPCrowd) : Int :=
  ((getSP s crowd.propertyId).bind fun sp => getMissedIssuerBonus s sp crowd).getD 0

/-- What closing one crowdsale mints, if its deadline is over. -/
def expiredOneMint (s : State) (blockTime : Int) (q : PropertyId) (_ : Address) (crowd : CMPCrowd) :
    Int :=
  if crowd.deadline < blockTime ∧ q = crowd.propertyId then missedBonus s crowd else 0

/-- What closing all expired crowdsales mints. -/
def expiredMint (s : State) (blockTime : Int) (q : PropertyId) : Int :=
  s.crowds.sumBy (expiredOneMint s blockTime q)

theorem missedBonus_congr (hsp : getSP s' crowd.propertyId = getSP s crowd.propertyId)
    (hsup : supply s' crowd.propertyId = supply s crowd.propertyId) :
    missedBonus s' crowd = missedBonus s crowd := by
  simp [missedBonus, hsp, getMissedIssuerBonus, getTotalTokens_congr hsp hsup]

theorem eraseExpiredOne_effect (hf : FeesUpTo s block)
    (h : eraseExpiredOne s blockTime blockHash address crowd = some s') :
    Effect s s' block (fun q => expiredOneMint s blockTime q address crowd) ∧ SpFrame s s' ∧
      (∀ b, b ≠ address → s'.crowds.find? b = s.crowds.find? b) ∧
      (∀ q, q ≠ crowd.propertyId → getSP s' q = getSP s q) := by
  unfold eraseExpiredOne at h
  split_ifs at h with hexp
  · simp only [do_eq_some, pure_eq_some] at h
    obtain ⟨sp, hsp, missed, hmiss, s₁, h1, s₂, h2, rfl⟩ := h
    have hmint : (fun q => expiredOneMint s blockTime q address crowd) =
        fun q => if q = crowd.propertyId then missed else 0 := by
      funext q
      simp [expiredOneMint, hexp, missedBonus, hsp, hmiss]
    have e₁ := updateSP_effect hf h1
    have st₂ := creditIfPositive_step block (getMissedIssuerBonus_nonneg hmiss) h2
    have e₃ := eraseCrowd_effect address (st₂.feesUpTo e₁.feesUpTo)
    rw [hmint]
    refine ⟨(e₁.trans (st₂.effect e₁.feesUpTo) fun q => (zero_add _).symm).trans e₃ fun q => by simp,
      ((updateSP_spFrame h1 hsp rfl).trans st₂.spFrame).trans (eraseCrowd_spFrame s₂ address),
      fun b hb => ?_, fun q hq => ?_⟩
    · obtain ⟨-, -, -, -, -, hfr⟩ := updateSP_spec h1
      rw [find?_erase_ne _ hb, st₂.frame, hfr]
    · obtain ⟨-, -, hent, -, -, hfr⟩ := updateSP_spec h1
      have hcfg : s₂.cfg = s.cfg := by rw [st₂.frame, hfr]
      have hents : s₂.sp.entries = s₁.sp.entries := by rw [st₂.frame]
      simp [getSP, hcfg, hents, hent, find?_insert_ne _ _ hq]
  · simp only [Option.some.injEq] at h
    subst h
    have hz : (fun q => expiredOneMint s blockTime q address crowd) = fun _ => 0 := by
      funext q
      simp [expiredOneMint, hexp]
    rw [hz]
    exact ⟨Effect.refl hf, SpFrame.of_eq rfl rfl rfl, fun _ _ => rfl, fun _ _ => rfl⟩

theorem missedBonus_mintable (hi : LedgerInv s)
    (hc : s.crowds.find? address = some crowd) :
    Mintable s fun q => if q = crowd.propertyId then missedBonus s crowd else 0 := by
  obtain ⟨htot, hhas, hne⟩ := hi.crowd_entry hc
  refine hi.mintable_single hhas hne ?_
  have hbound := hi.bounded crowd.propertyId
  unfold missedBonus
  cases hm : (getSP s crowd.propertyId).bind fun sp => getMissedIssuerBonus s sp crowd with
  | none => simpa using hbound
  | some missed =>
    obtain ⟨sp, -, hmiss⟩ := Option.bind_eq_some_iff.mp hm
    have := getMissedIssuerBonus_spec (by rw [htot]; exact hbound) hmiss
    rw [htot] at this
    simpa using this

theorem expiredOneMint_mintable (hi : LedgerInv s) (hc : s.crowds.find? address = some crowd) :
    Mintable s fun q => expiredOneMint s blockTime q address crowd := by
  by_cases hexp : crowd.deadline < blockTime
  · simpa [expiredOneMint, hexp] using missedBonus_mintable hi hc
  · simpa [expiredOneMint, hexp] using hi.mintable_zero

theorem eraseExpiredLoop_effect {l : List (Address × CMPCrowd)} (hf : FeesUpTo s block)
    (h : eraseExpiredLoop blockTime blockHash l s = some s') : ∃ minted, Effect s s' block minted := by
  induction l generalizing s with
  | nil =>
    simp only [eraseExpiredLoop, Option.some.injEq] at h
    subst h
    exact ⟨_, Effect.refl hf⟩
  | cons e rest ih =>
    simp only [eraseExpiredLoop, do_eq_some] at h
    obtain ⟨s₁, h1, h2⟩ := h
    have e₁ := (eraseExpiredOne_effect hf h1).1
    obtain ⟨minted, e₂⟩ := ih e₁.feesUpTo h2
    exact ⟨_, e₁.trans e₂ fun _ => rfl⟩

theorem eraseExpiredLoop_step {l : List (Address × CMPCrowd)} (hl : SortedKeys l)
    (hmem : ∀ e ∈ l, s.crowds.find? e.1 = some e.2) (hi : LedgerInv s) (hf : FeesUpTo s block)
    (h : eraseExpiredLoop blockTime blockHash l s = some s') :
    LedgerStep s s' block fun q => sumEntries (expiredOneMint s blockTime q) l := by
  induction l generalizing s with
  | nil =>
    simp only [eraseExpiredLoop, Option.some.injEq] at h
    subst h
    exact LedgerStep.refl hi hf
  | cons e rest ih =>
    obtain ⟨address, crowd⟩ := e
    obtain ⟨hhd, htl⟩ := List.pairwise_cons.mp hl
    simp only [eraseExpiredLoop, do_eq_some] at h
    obtain ⟨s₁, h1, h2⟩ := h
    have hc : s.crowds.find? address = some crowd := hmem _ (.head _)
    obtain ⟨heff, hfr, hcrowds, hsp⟩ := eraseExpiredOne_effect hf h1
    have st : LedgerStep s s₁ block _ := ⟨heff, hfr, expiredOneMint_mintable hi hc⟩
    have hmem1 : ∀ e ∈ rest, s₁.crowds.find? e.1 = some e.2 := fun e he => by
      rw [hcrowds e.1 (hhd e he).ne']
      exact hmem e (.tail _ he)
    -- the other crowdsales sell other properties
    have hne : ∀ e ∈ rest, e.2.propertyId ≠ crowd.propertyId := fun e he heq =>
      (hhd e he).ne' (hi.crowd_inj _ _ _ _ (hmem e (.tail _ he)) hc heq)
    have hsum : ∀ q, sumEntries (expiredOneMint s₁ blockTime q) rest =
        sumEntries (expiredOneMint s blockTime q) rest := fun q => by
      unfold sumEntries
      congr 1
      refine List.map_congr_left fun e he => ?_
      have hq := hne e he
      unfold expiredOneMint
      rw [missedBonus_congr (hsp _ hq) (by simp [st.effect.supply, expiredOneMint, hq])]
    refine st.trans (ih htl hmem1 (st.inv hi) st.effect.feesUpTo h2) fun q => ?_
    rw [hsum]
    simp

theorem eraseExpiredCrowdsale_step (hi : LedgerInv s) (hf : FeesUpTo s block)
    (h : eraseExpiredCrowdsale s blockTime blockHash = some s') :
    LedgerStep s s' block (expiredMint s blockTime) :=
  eraseExpiredLoop_step s.crowds.sorted (fun _ he => OrdMap.mem_entries_iff.mp he) hi hf h

end Rapids.Token
