import Rapids.Token.CrowdAccounts
import Rapids.Token.Fundraiser
import Rapids.Token.SaleTerms

/-!
# Rapids.Token.FundraiserSound

**Crowdsale arithmetic in runs.** What a participation reads of a crowdsale is in range in
every run: the tokens for a unit and the deadline as they were when the crowdsale was opened
(`run_offered`), the percentages as the bytes they are. So the only number that can be in the
way is the total so far.

An investment that is worth less than a whole token creates nothing, and then it does not
matter that nothing more can be created.
-/

namespace Rapids.Token

open Rapids.Lib

/-- The tokens a transfer buys, with the fault that stops the computation. -/
def Checked.fundraiserTokens (s : State) (sp : SPEntry) (crowd : CMPCrowd) (tx : Investment) :
    Except Fault (Int × Int × Bool) :=
  Checked.calculateFundraiser (!isPropertyDivisible s tx.property) (toI64 tx.nValue) sp.earlyBird.toNat
    sp.deadline tx.blockTime sp.numTokens sp.percentage.toNat (getTotalTokens s crowd.propertyId)

/-- What an investment is worth, with twenty digits more than whole tokens have. -/
def Investment.worth (s : State) (sp : SPEntry) (tx : Investment) : Nat :=
  Token.worth (!isPropertyDivisible s tx.property) (toI64 tx.nValue) sp.earlyBird.toNat sp.deadline
    tx.blockTime sp.numTokens

/-- A whole token, with as many digits. -/
def oneToken : Nat := precision * satoshiPrecision

/-- An investment has a result: the computation has no fault, and gives out what there is room for. -/
def Computed (s : State) (sp : SPEntry) (crowd : CMPCrowd) (tx : Investment) : Prop :=
  ∃ r, Checked.fundraiserTokens s sp crowd tx = .ok r ∧ fundraiserTokens s sp crowd tx = some r ∧
    SharesOut (getTotalTokens s crowd.propertyId) r

section Runs

variable {s : State} {sp : SPEntry} {crowd : CMPCrowd} {tx : Investment}

theorem Offered.computed_iff (h : Offered s) (hsp : getSP s crowd.propertyId = some sp)
    (hvalue : isOutOfRange tx.nValue = false) (htime : 0 ≤ tx.blockTime)
    (htotal : 0 ≤ getTotalTokens s crowd.propertyId ∧ getTotalTokens s crowd.propertyId ≤ i64Max) :
    Computed s sp crowd tx ↔ getTotalTokens s crowd.propertyId < i64Max ∨ tx.worth s sp < oneToken := by
  obtain ⟨hpos, -, hamount⟩ := isOutOfRange_eq_false hvalue
  obtain ⟨hnum, hdeadline⟩ := h.inRange_of_getSP hsp
  have hbonus : sp.earlyBird.toNat < 2 ^ 8 := sp.earlyBird.toNat_lt
  have hissuer : sp.percentage.toNat < 2 ^ 8 := sp.percentage.toNat_lt
  have hamt : 0 ≤ toI64 tx.nValue := by omega
  exact calculateFundraiser_ok_iff hamt (inI64_toI64 _).2 hnum.1 hnum.2 hdeadline htime (by omega) (by omega)
    htotal.1 htotal.2

/-- **Crowdsale arithmetic.** In every state of every run, the tokens for an investment are
computed without a fault and within their bounds if and only if the total is below the
maximum or the investment is worth less than one token. -/
theorem fundraiserTokens_sound_iff {cfg : Config} {es : List Event} {n : Node} {crowd : CMPCrowd} {sp : SPEntry}
    {tx : Investment} (hrun : run step (Node.initial cfg) es = some n)
    (hsp : getSP n.state crowd.propertyId = some sp) (hvalue : isOutOfRange tx.nValue = false)
    (htime : 0 ≤ tx.blockTime)
    (htotal : 0 ≤ getTotalTokens n.state crowd.propertyId ∧ getTotalTokens n.state crowd.propertyId ≤ i64Max) :
    Computed n.state sp crowd tx ↔
      getTotalTokens n.state crowd.propertyId < i64Max ∨ tx.worth n.state sp < oneToken :=
  (run_offered hrun).computed_iff hsp hvalue htime htotal

/-- Five units for the first tokens of a crowdsale. -/
theorem fundraiserTokens_sound_iff_first :
    ∃ n crowd sp, run step (Node.initial regtestCfg)
        [.blockBegin 1 serialTime 1, .packet (hoardTx "first" "FIRST" 2 1) issuanceEnv,
          .packet (saleTx testEcoProperty1 2 2) issuanceEnv] = some n ∧
      n.state.crowds.find? "issuer" = some crowd ∧ getSP n.state crowd.propertyId = some sp ∧
      Computed n.state sp crowd (investTx.investment issuanceEnv) := by
  have hrun : ((run step (Node.initial regtestCfg)
      [.blockBegin 1 serialTime 1, .packet (hoardTx "first" "FIRST" 2 1) issuanceEnv,
        .packet (saleTx testEcoProperty1 2 2) issuanceEnv]).map fun n =>
      (n.state.crowds.find? "issuer").map fun crowd =>
        ((getSP n.state crowd.propertyId).isSome, getTotalTokens n.state crowd.propertyId)) =
      some (some (true, 0)) := by decide +kernel
  obtain ⟨n, hn, hcrowds⟩ := Option.map_eq_some_iff.mp hrun
  obtain ⟨crowd, hcrowd, hentry⟩ := Option.map_eq_some_iff.mp hcrowds
  obtain ⟨hsome, htotal⟩ := Prod.mk.inj hentry
  obtain ⟨sp, hsp⟩ := Option.isSome_iff_exists.mp hsome
  have hroom : (0 : Int) < i64Max := by decide
  refine ⟨n, crowd, sp, hn, hcrowd, hsp, (fundraiserTokens_sound_iff hn hsp rfl (by decide) ?_).mpr (.inl ?_)⟩
  · rw [htotal]
    exact ⟨le_rfl, hroom.le⟩
  · rw [htotal]
    exact hroom

end Runs

/-! ### A crowdsale that is sold out, and open -/

/-- As many tokens for a unit as there can be. -/
def wholeSaleTx : CMPTransaction :=
  { saleTx testEcoProperty1 2 2 with nValue := maxInt8Bytes, percentage := 0 }

/-- One unit. -/
def unitTx (idx : Nat) : CMPTransaction :=
  { investTx with nValue := 1, txIdx := idx }

/-- The crowdsale and one investment. -/
def soldOutRun : List Event :=
  [.blockBegin 1 serialTime 1, .packet (hoardTx "first" "FIRST" 2 1) issuanceEnv,
    .packet wholeSaleTx issuanceEnv, .packet (unitTx 3) issuanceEnv]

/-- **The maximum is reached exactly, nothing closes the crowdsale, and the next unit divides by
zero.** -/
theorem fundraiserTokens_unsound :
    ¬ ∀ (cfg : Config) (es : List Event) (n : Node) (a : Address) (crowd : CMPCrowd) (sp : SPEntry) (tx : Investment),
      run freshStep (Node.initial cfg) es = some n → n.state.crowds.find? a = some crowd →
        getSP n.state crowd.propertyId = some sp → isOutOfRange tx.nValue = false → 0 ≤ tx.blockTime →
          Computed n.state sp crowd tx := by
  intro hall
  have hrun : ((run freshStep (Node.initial regtestCfg) soldOutRun).map fun n =>
      (n.state.crowds.find? "issuer").map fun crowd =>
        (getSP n.state crowd.propertyId).map fun sp =>
          decide (getTotalTokens n.state crowd.propertyId = i64Max ∧
            oneToken ≤ ((unitTx 4).investment issuanceEnv).worth n.state sp)) =
      some (some (some true)) := by decide +kernel
  obtain ⟨n, hn, hcrowds⟩ := Option.map_eq_some_iff.mp hrun
  obtain ⟨crowd, hcrowd, hentry⟩ := Option.map_eq_some_iff.mp hcrowds
  obtain ⟨sp, hsp, hfull⟩ := Option.map_eq_some_iff.mp hentry
  obtain ⟨htotal, hworth⟩ := of_decide_eq_true hfull
  have hcomputed := hall _ _ n _ crowd sp ((unitTx 4).investment issuanceEnv) hn hcrowd hsp rfl (by decide)
  have hbounds : 0 ≤ getTotalTokens n.state crowd.propertyId ∧ getTotalTokens n.state crowd.propertyId ≤ i64Max := by
    rw [htotal]
    decide
  rcases ((run_offered (run_of_guarded hn)).computed_iff hsp rfl (by decide) hbounds).mp hcomputed with
    hroom | hsmall
  · rw [htotal] at hroom
    exact lt_irrefl _ hroom
  · exact absurd hsmall (not_lt.mpr hworth)

end Rapids.Token
