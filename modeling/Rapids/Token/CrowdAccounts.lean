import Rapids.Token.Overrun
import Rapids.Token.SpSteps

/-!
# Rapids.Token.CrowdAccounts

**Crowdsale accounting.** A crowdsale counts the tokens it creates, and closing
it asserts that the counters make up the supply of its property, which is
recomputed from all balances, reserves and cached fees.

`SpSteps` says what each call adds to the counters and `RunSound` what it adds to
the supplies, so what is left is that for the property of an open crowdsale the
two are the same (`packetMint_eq_created`): only participations create its
tokens, since grants and revocations are for managed properties, and closing
another crowdsale creates tokens of another property.

Like the ledger itself this needs every new property to find its identifier free.
-/

namespace Rapids.Token

open Rapids.Lib OrdMap

/-! ### The invariant -/

/-- An open crowdsale: its counters are the supply of its property, and its
address is the only issuer the property has had. -/
structure CrowdOk (s : State) (a : Address) (c : CMPCrowd) : Prop where
  users : 0 ≤ c.uCreated
  issuer : 0 ≤ c.iCreated
  total : supply s c.propertyId = c.created
  owner : ∃ e, s.sp.entries.find? c.propertyId = some e ∧ e.issuer = a ∧
    ∀ block, e.getIssuer block = a

def CrowdInv (s : State) : Prop := ∀ a c, s.crowds.find? a = some c → CrowdOk s a c

section
variable {s s' : State} {tx : CMPTransaction} {env : TxEnv} {rc : Int} {a : Address} {c : CMPCrowd}

/-- A step that creates no property keeps the invariant, if it creates of each
property what its crowdsale counts. -/
theorem CrowdInv.of_spStep {f : Address → Int} (hi : CrowdInv s) (h : SpStep s s' f)
    (hsup : ∀ a c, s.crowds.find? a = some c → (s'.crowds.find? a).isSome →
      supply s' c.propertyId = supply s c.propertyId + f a) : CrowdInv s' := by
  intro a c' hc'
  obtain ⟨c, hc, hp, hcreated, hu, hiss⟩ := h.crowds a c' hc'
  have hok := hi a c hc
  obtain ⟨e, he, hissuer, hget⟩ := hok.owner
  refine ⟨hok.users.trans hu, hok.issuer.trans hiss, ?_, ?_⟩
  · rw [hp, hcreated, ← hok.total]
    exact hsup a c hc (by rw [hc']; rfl)
  · rw [hp]
    rcases h.issuers c.propertyId with heq | ⟨e₁, block, he1, hnone⟩
    · rw [he, Option.map_some] at heq
      obtain ⟨e', he', heq'⟩ := Option.map_eq_some_iff.mp heq
      refine ⟨e', he', ?_, fun block => ?_⟩
      · rw [← hissuer]
        exact (Prod.ext_iff.mp heq').1
      · rw [getIssuer_congr heq', hget]
    · -- the issuer could only have changed had its crowdsale been closed
      rw [he, Option.some.injEq] at he1
      rw [← he1, hget, hc'] at hnone
      exact absurd hnone (Option.some_ne_none c')

theorem LedgerInv.crowd_ne (hl : LedgerInv s) (hc : s.crowds.find? a = some c) {p : PropertyId}
    (hfree : hasSP s p = false) : c.propertyId ≠ p := by
  rintro rfl
  rw [(hl.crowd_entry hc).2.1] at hfree
  exact absurd hfree.symm Bool.false_ne_true

theorem CrowdInv.of_registers (hi : CrowdInv s) (hl : LedgerInv s) (h : SpRegisters s s' tx)
    (hfree : hasSP s (peekNextSPID s tx.ecosystem) = false)
    (hsup : ∀ q, q ≠ peekNextSPID s tx.ecosystem → supply s' q = supply s q) : CrowdInv s' := by
  intro a c hc
  obtain ⟨info, -, ⟨hissuer, hget⟩, hsp⟩ := h.sp
  have hentries : s'.sp.entries = s.sp.entries.insert (peekNextSPID s tx.ecosystem) info := by
    rw [hsp, putSP_entries]
  rcases h.crowds a c hc with hold | ⟨rfl, hp, hu, hiss, hsame⟩
  · have hok := hi a c hold
    have hne := hl.crowd_ne hold hfree
    refine ⟨hok.users, hok.issuer, by rw [hsup _ hne, hok.total], ?_⟩
    rw [hentries, find?_insert_ne _ _ hne]
    exact hok.owner
  · refine ⟨hu.ge, hiss.ge, ?_, info, ?_, hissuer, hget⟩
    · -- no tokens of a property that is not known
      have hzero : supply s (peekNextSPID s tx.ecosystem) = 0 := by
        by_contra hne
        rw [hl.known _ hne] at hfree
        exact absurd hfree.symm Bool.false_ne_true
      rw [hsame, hp, hzero, CMPCrowd.created, hu, hiss]
      rfl
    · rw [hentries, hp, find?_insert_self]

/-! ### What crowdsales count is what is created -/

theorem participationMint_eq_created {inv : Investment} (hc : s.crowds.find? a = some c)
    (hinj : ∀ b d, s.crowds.find? b = some d → c.propertyId = d.propertyId → a = b) :
    participationMint s inv c.propertyId = participationCreated s inv a := by
  unfold participationCreated
  split_ifs with ha
  · rw [hc, Option.map_some, Option.getD_some]
  · unfold participationMint
    cases hr : s.crowds.find? inv.receiver with
    | none => rfl
    | some crowd =>
      refine if_neg fun hq => ha ?_
      exact hinj _ _ hr hq.2

theorem LedgerInv.crowd_ne_managed (hl : LedgerInv s) (hc : s.crowds.find? a = some c) {p : PropertyId}
    {sp : SPEntry} (hsp : getSP s p = some sp) (hm : sp.manual = true) : c.propertyId ≠ p := by
  rintro rfl
  obtain ⟨h1, h2, e, he, -, hman⟩ := hl.crowd a c hc
  rw [getSP, if_neg (by simp [h1, h2]), he, Option.some.injEq] at hsp
  rw [hsp, hm] at hman
  exact absurd hman.symm Bool.false_ne_true

theorem grantMint_eq_created (hl : LedgerInv s) (hrc : ¬ rc < 0)
    (h : logicMathGrantTokens s tx env = some (rc, s')) (hc : s.crowds.find? a = some c) :
    grantMint s tx env c.propertyId = grantCreated s tx env a := by
  rcases logicMathGrantTokens_cases h with ⟨hneg, -⟩ | ⟨sp, s₁, s₂, s₃, -, -, -, hsp, hm, -, h1, h2, hg, -⟩
  · exact absurd hneg hrc
  rw [grantMint, if_neg (hl.crowd_ne_managed hc hsp hm), zero_add, grantEffectsMint, grantCreated, hg,
    Option.map_some, Option.map_some]
  have hcrowds : s₂.crowds = s.crowds := by
    obtain ⟨-, -, -, -, -, hfr⟩ := updateSP_spec h1
    rw [(assertTally_spec h2).frame, hfr]
  split_ifs
  · rfl
  · refine participationMint_eq_created (by rw [hcrowds]; exact hc) fun b d hd => ?_
    rw [hcrowds] at hd
    exact hl.crowd_inj _ _ _ _ hc hd

theorem rapidsMint_eq_created (hl : LedgerInv s) (hc : s.crowds.find? a = some c) :
    rapidsMint s tx env c.propertyId = rapidsCreated s tx env a := by
  unfold rapidsMint rapidsCreated
  cases rapidsInvestment tx env with
  | none => rfl
  | some inv => exact participationMint_eq_created hc fun b d hd => hl.crowd_inj _ _ _ _ hc hd

theorem logicMathCloseCrowdsale_cases (h : logicMathCloseCrowdsale s tx env = some (rc, s')) :
    (rc < 0 ∧ s' = s) ∨ ∃ crowd, s.crowds.find? tx.sender = some crowd ∧
      tx.property = crowd.propertyId ∧ closeCrowdsale s tx env crowd = some s' ∧ rc = 0 := by
  rcases reject_cases (by simp [allErrors, pktErrorSp]) h with hr | ⟨-, h⟩
  · exact .inl hr
  cases hc : s.crowds.find? tx.sender with
  | none =>
    rw [hc] at h
    exact .inl (rejected (by decide) h)
  | some crowd =>
    simp only [hc] at h
    rcases reject_cases (by simp [allErrors, pktErrorSp]) h with hr | ⟨hid, h⟩
    · exact .inl hr
    have hprop : tx.property = crowd.propertyId := by simpa using hid
    simp only [do_eq_some, pure_eq_some, Prod.mk.injEq] at h
    obtain ⟨s₁, h1, rfl, rfl⟩ := h
    exact .inr ⟨crowd, rfl, hprop, h1, rfl⟩

theorem closeCrowdsale_erases {crowd : CMPCrowd} (h : closeCrowdsale s tx env crowd = some s') :
    s'.crowds.find? tx.sender = none := by
  simp only [closeCrowdsale, do_eq_some, pure_eq_some] at h
  obtain ⟨sp, -, missed, -, s₁, -, s₂, -, rfl⟩ := h
  exact find?_erase_self _ _

theorem closeMint_eq_zero (hl : LedgerInv s) (hrc : ¬ rc < 0)
    (h : logicMathCloseCrowdsale s tx env = some (rc, s')) (hc : s.crowds.find? a = some c)
    (hopen : (s'.crowds.find? a).isSome) : closeMint s tx c.propertyId = 0 := by
  rcases logicMathCloseCrowdsale_cases h with ⟨hneg, -⟩ | ⟨crowd, hcrowd, -, hclose, -⟩
  · exact absurd hneg hrc
  · rw [closeMint, hcrowd]
    refine if_neg fun hp => ?_
    rw [hl.crowd_inj _ _ _ _ hc hcrowd hp, closeCrowdsale_erases hclose] at hopen
    cases hopen

theorem logicMathRevokeTokens_managed (hrc : ¬ rc < 0)
    (h : logicMathRevokeTokens s tx env = some (rc, s')) :
    ∃ sp, getSP s tx.property = some sp ∧ sp.manual = true := by
  rcases reject_cases (by simp [allErrors, pktErrorTokens]) h with ⟨hneg, -⟩ | ⟨-, h⟩
  · exact absurd hneg hrc
  simp only [do_eq_some] at h
  obtain ⟨sp, hsp, h⟩ := h
  rcases reject_cases (by simp [allErrors, pktErrorTokens]) h with ⟨hneg, -⟩ | ⟨hok, -⟩
  · exact absurd hneg hrc
  · have hm : (!sp.manual) = false := hok (!sp.manual, pktErrorTokens - 42) (by simp)
    exact ⟨sp, hsp, by simpa using hm⟩

/-- **What a successful packet creates of a property with an open crowdsale is what
the crowdsale counts.** -/
theorem logicMath_mint_eq_created {txType : TxType} (ht : TxType.ofId tx.type = some txType)
    (hl : LedgerInv s) (hfresh : freshId s tx = true) (hrc : ¬ rc < 0)
    (h : logicMath s tx env txType = some (rc, s')) (hc : s.crowds.find? a = some c)
    (hopen : (s'.crowds.find? a).isSome) :
    packetMint s tx env c.propertyId = packetCreated s tx env a := by
  rw [packetMint, packetCreated, ht, Option.map_some, Option.getD_some]
  cases txType with
  | simpleSend => exact participationMint_eq_created hc fun b d hd => hl.crowd_inj _ _ _ _ hc hd
  | createPropertyFixed =>
    refine if_neg (hl.crowd_ne hc ?_)
    simpa [freshId, createsProperty, ht] using hfresh
  | closeCrowdsale => exact closeMint_eq_zero hl hrc h hc hopen
  | grantPropertyTokens => exact grantMint_eq_created hl hrc h hc
  | revokePropertyTokens =>
    obtain ⟨sp, hsp, hm⟩ := logicMathRevokeTokens_managed hrc h
    exact if_neg (hl.crowd_ne_managed hc hsp hm)
  | rapidsPayment => exact rapidsMint_eq_created hl hc
  | _ => rfl

/-! ### Closing a crowdsale -/

/-- What the issuer has in the end: the share of the users' tokens, or what was
credited already if that is more, as far as it fits into 64 bits. -/
def CMPCrowd.issuerShare (c : CMPCrowd) (percentage : UInt8) : Int :=
  min (max c.iCreated (c.uCreated * percentage.toNat / 100)) (i64Max - c.uCreated)

theorem issuerShare_spec {c : CMPCrowd} (percentage : UInt8) (hle : c.created ≤ i64Max) :
    0 ≤ c.issuerShare percentage - c.iCreated ∧
      c.created + (c.issuerShare percentage - c.iCreated) ≤ i64Max := by
  unfold CMPCrowd.issuerShare
  unfold CMPCrowd.created at *
  omega

theorem missedBonus_words {u i x : Nat} (hle : u + i ≤ maxInt8Bytes) (hx : x < 2 ^ 128) :
    (if x < i then some 0
      else if maxInt8Bytes < w256 (w256 (u + i) + (x - i)) then
        convertTo64 (sub256 maxInt8Bytes (w256 (u + i)))
      else convertTo64 (x - i)) =
      some (min (max (i : Int) x) (i64Max - u) - i) := by
  have hmax : maxInt8Bytes = 9223372036854775807 := rfl
  unfold i64Max
  rw [w256_of_lt (x := u + i) (by omega), w256_of_lt (by omega), sub256_of_le hle (by omega)]
  unfold convertTo64
  split_ifs with h1 h2 h3 h4
  · exact congrArg some (by omega)
  · omega
  · exact congrArg some (by omega)
  · omega
  · exact congrArg some (by omega)

section
variable (hok : CrowdOk s a c) (hl : LedgerInv s) (hc : s.crowds.find? a = some c)
include hok hl hc

theorem CrowdOk.getMissedIssuerBonus_eq
    (sp : SPEntry) :
    getMissedIssuerBonus s sp c = some (c.issuerShare sp.percentage - c.iCreated) := by
  have hle : c.uCreated + c.iCreated ≤ i64Max := by
    have hb := hl.bounded c.propertyId
    rwa [hok.total] at hb
  have htot : getTotalTokens s c.propertyId = c.iCreated + c.uCreated := by
    rw [(hl.crowd_entry hc).1, hok.total, CMPCrowd.created, add_comm]
  have hperc : sp.percentage.toNat < 256 := sp.percentage.toNat_lt
  obtain ⟨u, hu⟩ := Int.eq_ofNat_of_zero_le hok.users
  obtain ⟨i, hi⟩ := Int.eq_ofNat_of_zero_le hok.issuer
  rw [hu, hi] at hle
  have hle' : u + i ≤ maxInt8Bytes := by
    unfold i64Max at hle
    unfold maxInt8Bytes
    omega
  have hmul : u * sp.percentage.toNat < 2 ^ 128 := by
    have hu64 : u < 2 ^ 64 := by
      unfold maxInt8Bytes at hle'
      omega
    calc u * sp.percentage.toNat < 2 ^ 64 * 256 := Nat.mul_lt_mul_of_lt_of_lt hu64 hperc
      _ ≤ 2 ^ 128 := by decide
  have hconv : ∀ n : Nat, convertTo256 (n : Int) = some n := by
    intro n
    rw [convertTo256, if_neg (by omega), Int.toNat_natCast]
  unfold getMissedIssuerBonus
  rw [if_neg (not_not.mpr htot), CMPCrowd.issuerShare, hu, hi, hconv, hconv]
  simp only [Option.bind_eq_bind, Option.bind_some]
  rw [w256_of_lt (hmul.trans (by decide)), missedBonus_words hle' (by omega)]
  push_cast
  rfl

/-- A crowdsale is closed: it is gone, its issuer has the missed bonus, and no
other balance of the property moves. -/
structure CrowdClosed (s s' : State) (a : Address) (c : CMPCrowd) : Prop where
  erased : s'.crowds.find? a = none
  credited : ∃ sp, getSP s c.propertyId = some sp ∧ sp.issuer = a ∧
    ∀ b, getTokenBalance s' b c.propertyId .balance = getTokenBalance s b c.propertyId .balance +
      if b = a then c.issuerShare sp.percentage - c.iCreated else 0

theorem CrowdOk.getSP_eq :
    ∃ sp, getSP s c.propertyId = some sp ∧ sp.issuer = a := by
  obtain ⟨h1, h2, -⟩ := hl.crowd a c hc
  obtain ⟨e, he, hissuer, -⟩ := hok.owner
  refine ⟨e, ?_, hissuer⟩
  rw [getSP, if_neg (by simp [h1, h2]), he]

theorem CrowdOk.close
    (percentage : UInt8) (info : SPEntry) :
    ∃ s₁ s₂, updateSP s c.propertyId info = some s₁ ∧
      creditIfPositive s₁ a c.propertyId (c.issuerShare percentage - c.iCreated) = some s₂ ∧
      ∀ b q, getTokenBalance s₂ b q .balance = getTokenBalance s b q .balance +
        if b = a ∧ q = c.propertyId then c.issuerShare percentage - c.iCreated else 0 := by
  obtain ⟨h1, h2, -⟩ := hl.crowd a c hc
  have hle : c.created ≤ i64Max := hok.total ▸ hl.bounded c.propertyId
  obtain ⟨hpos, hfit⟩ := issuerShare_spec percentage hle
  have hupdate : ∃ s₁, updateSP s c.propertyId info = some s₁ := by
    rw [updateSP, if_neg (by simp [h1, h2])]
    exact ⟨_, rfl⟩
  obtain ⟨s₁, hs1⟩ := hupdate
  obtain ⟨-, -, -, -, -, hfr⟩ := updateSP_spec hs1
  have hbal : ∀ b q t, getTokenBalance s₁ b q t = getTokenBalance s b q t := by
    intro b q t
    rw [hfr]
    rfl
  by_cases hzero : 0 < c.issuerShare percentage - c.iCreated
  · have hown := hl.solvent.balance_le_supply a c.propertyId
    have hnonneg := hl.solvent.nonneg a c.propertyId .balance (by simp)
    rw [hok.total] at hown
    obtain ⟨s₂, hs2⟩ := @assertTally_isSome s₁ a c.propertyId _ .balance
      (ne_of_gt hzero) (fun _ => by rw [hbal]; omega) (fun hc => by omega) (fun _ => by rw [hbal]; omega)
      (fun _ hc => by omega)
    refine ⟨s₁, s₂, hs1, by rw [creditIfPositive, if_pos hzero, hs2], fun b q => ?_⟩
    rw [(assertTally_spec hs2).balance, hbal]
    simp
  · refine ⟨s₁, s₁, hs1, by rw [creditIfPositive, if_neg hzero], fun b q => ?_⟩
    have hz : c.issuerShare percentage - c.iCreated = 0 := le_antisymm (not_lt.mp hzero) hpos
    rw [hbal, hz, ite_self, add_zero]

end

section
variable (hi : CrowdInv s) (hl : LedgerInv s)
include hi hl

theorem CrowdInv.closeCrowdsale
    (hc : s.crowds.find? tx.sender = some c) (hp : tx.property = c.propertyId) (env : TxEnv) :
    ∃ s', Token.closeCrowdsale s tx env c = some s' ∧ CrowdClosed s s' tx.sender c := by
  have hok := hi _ _ hc
  obtain ⟨sp, hsp, hissuer⟩ := hok.getSP_eq hl hc
  obtain ⟨s₁, s₂, h1, h2, hbal⟩ := hok.close hl hc sp.percentage { sp with
    historicalData := c.txFundraiserData
    updateBlock := env.blockHash.getD 0
    closeEarly := true
    timeclosed := tx.blockTime
    txidClose := tx.txid
    missedTokens := c.issuerShare sp.percentage - c.iCreated }
  refine ⟨{ s₂ with crowds := s₂.crowds.erase tx.sender }, ?_, find?_erase_self _ _, sp, hsp,
    hissuer, fun b => ?_⟩
  · rw [← hissuer] at h2
    simp [Token.closeCrowdsale, hp, hsp, hok.getMissedIssuerBonus_eq hl hc sp, h1, h2]
  · have h := hbal b c.propertyId
    simp only [and_true] at h
    exact h

theorem CrowdInv.eraseExpiredOne (hc : s.crowds.find? a = some c)
    (blockTime : Int) (blockHash : Hash) :
    ∃ s', Token.eraseExpiredOne s blockTime blockHash a c = some s' ∧
      (c.deadline < blockTime → CrowdClosed s s' a c) ∧
      ∀ b q, q ≠ c.propertyId → getTokenBalance s' b q .balance = getTokenBalance s b q .balance := by
  by_cases hexp : c.deadline < blockTime
  · have hok := hi _ _ hc
    obtain ⟨sp, hsp, hissuer⟩ := hok.getSP_eq hl hc
    obtain ⟨s₁, s₂, h1, h2, hbal⟩ := hok.close hl hc sp.percentage { sp with
      historicalData := c.txFundraiserData
      missedTokens := c.issuerShare sp.percentage - c.iCreated
      updateBlock := blockHash }
    refine ⟨{ s₂ with crowds := s₂.crowds.erase a }, ?_,
      fun _ => ⟨find?_erase_self _ _, sp, hsp, hissuer, fun b => ?_⟩, fun b q hq => ?_⟩
    · rw [← hissuer] at h2
      simp [Token.eraseExpiredOne, if_pos hexp, hsp, hok.getMissedIssuerBonus_eq hl hc sp, h1, h2]
    · have h := hbal b c.propertyId
      simp only [and_true] at h
      exact h
    · have h := hbal b q
      rw [if_neg (fun hbq => hq hbq.2), add_zero] at h
      exact h
  · exact ⟨s, if_neg hexp, fun h => absurd h hexp, fun _ _ _ => rfl⟩

/-! ### Expired crowdsales -/

theorem CrowdInv.of_eraseExpiredOne {blockTime : Int} {blockHash : Hash}
    (hc : s.crowds.find? a = some c) {block : Nat} (hf : FeesUpTo s block)
    (h : Token.eraseExpiredOne s blockTime blockHash a c = some s') : CrowdInv s' := by
  have heff := (eraseExpiredOne_effect hf h).1
  refine hi.of_spStep (eraseExpiredOne_spQuiet s _ _ _ _ _ h) fun b d hd hopen => ?_
  rw [heff.supply, expiredOneMint, if_neg]
  rintro ⟨hexp, hp⟩
  -- the closed crowdsale is the only one of its property
  have hba : b = a := hl.crowd_inj _ _ _ _ hd hc hp
  subst hba
  obtain ⟨s₁, h1, hclosed, -⟩ := hi.eraseExpiredOne hl hc blockTime blockHash
  rw [h, Option.some.injEq] at h1
  rw [h1, (hclosed hexp).erased] at hopen
  cases hopen

end

theorem CrowdInv.eraseExpiredLoop (blockTime : Int) (blockHash : Hash) {block : Nat}
    {l : List (Address × CMPCrowd)} (hsorted : SortedKeys l)
    (hmem : ∀ e ∈ l, s.crowds.find? e.1 = some e.2) (hi : CrowdInv s) (hl : LedgerInv s)
    (hf : FeesUpTo s block) :
    ∃ s', Token.eraseExpiredLoop blockTime blockHash l s = some s' ∧
      (∀ e ∈ l, e.2.deadline < blockTime → CrowdClosed s s' e.1 e.2) ∧
      ∀ b q, (∀ e ∈ l, e.2.propertyId ≠ q) →
        getTokenBalance s' b q .balance = getTokenBalance s b q .balance := by
  induction l generalizing s with
  | nil => exact ⟨s, rfl, fun e he => absurd he List.not_mem_nil, fun _ _ _ => rfl⟩
  | cons e rest ih =>
    obtain ⟨address, crowd⟩ := e
    obtain ⟨hhd, htl⟩ := List.pairwise_cons.mp hsorted
    have hc : s.crowds.find? address = some crowd := hmem _ (.head _)
    obtain ⟨s₁, h1, hclosed, hother⟩ := hi.eraseExpiredOne hl hc blockTime blockHash
    obtain ⟨heff, hfr, hcrowds, hsp⟩ := eraseExpiredOne_effect hf h1
    have st : LedgerStep s s₁ block _ := ⟨heff, hfr, expiredOneMint_mintable hl hc⟩
    have hmem1 : ∀ e ∈ rest, s₁.crowds.find? e.1 = some e.2 := by
      intro e he
      rw [hcrowds e.1 (hhd e he).ne']
      exact hmem e (.tail _ he)
    have hne : ∀ e ∈ rest, e.2.propertyId ≠ crowd.propertyId := fun e he heq =>
      (hhd e he).ne' (hl.crowd_inj _ _ _ _ (hmem e (.tail _ he)) hc heq)
    obtain ⟨s', h', hclosed', hother'⟩ := ih htl hmem1 (hi.of_eraseExpiredOne hl hc hf h1) (st.inv hl)
      heff.feesUpTo
    have hquiet := eraseExpiredLoop_spQuiet blockTime blockHash rest s₁ s' h'
    refine ⟨s', by rw [Token.eraseExpiredLoop, h1, Option.bind_eq_bind, Option.bind_some, h'],
      fun e he hexp => ?_, fun b q hq => ?_⟩
    · rcases List.mem_cons.mp he with rfl | he
      · -- the first crowdsale is closed now and not touched again
        obtain ⟨hgone, sp, hsp', hissuer, hbal⟩ := hclosed hexp
        exact ⟨hquiet.closed hgone, sp, hsp', hissuer, fun b =>
          (hother' b _ hne).trans (hbal b)⟩
      · obtain ⟨hgone, sp, hsp', hissuer, hbal⟩ := hclosed' e he hexp
        refine ⟨hgone, sp, by rw [← hsp _ (hne e he)]; exact hsp', hissuer, fun b => ?_⟩
        rw [hbal, hother b _ (hne e he)]
    · rw [hother' b q fun e he => hq e (List.mem_cons_of_mem _ he)]
      exact hother b q (hq _ (.head _)).symm

theorem CrowdInv.checkLiveActivations (hi : CrowdInv s) (height : Nat) :
    CrowdInv (Token.checkLiveActivations s height) := by
  have hfr := checkLiveActivations_frame s height
  have hquiet : SpQuiet s (Token.checkLiveActivations s height) := by
    apply SpStep.of_eq <;> rw [hfr]
  refine hi.of_spStep hquiet fun a c _ _ => ?_
  rw [hfr, add_zero]
  rfl

theorem CrowdInv.blockBegin (hi : CrowdInv s) (hl : LedgerInv s) {height : Nat}
    (hf : FeesUpTo s height) (time : Nat) (hash : Hash) :
    ∃ s', handle s (.blockBegin height time hash) = some s' ∧
      ∀ a c, s.crowds.find? a = some c → c.deadline < time → CrowdClosed s s' a c := by
  have hfr := checkLiveActivations_frame s height
  obtain ⟨e₀, f₀⟩ := @checkLiveActivations_effect s height _ hf
  have hl0 := LedgerStep.inv ⟨e₀, f₀, hl.mintable_zero⟩ hl
  obtain ⟨s', h', hclosed, -⟩ := (hi.checkLiveActivations height).eraseExpiredLoop time hash
    (sorted _) (fun _ he => mem_entries_iff.mp he) hl0 e₀.feesUpTo
  refine ⟨s', h', fun a c hc hexp => ?_⟩
  have hc0 : (Token.checkLiveActivations s height).crowds.find? a = some c := by
    rw [hfr]
    exact hc
  have h := hclosed (a, c) (mem_entries_iff.mpr hc0) hexp
  rw [hfr] at h
  exact ⟨h.erased, h.credited⟩

theorem expiredMint_of_open (hl : LedgerInv s) (hc : s.crowds.find? a = some c) {blockTime : Int}
    (hopen : ¬ c.deadline < blockTime) : expiredMint s blockTime c.propertyId = 0 := by
  have hzero : ∀ e ∈ s.crowds.entries, expiredOneMint s blockTime c.propertyId e.1 e.2 = 0 := by
    intro e he
    refine if_neg fun hexp => ?_
    have hd := mem_entries_iff.mp he
    have ha : a = e.1 := hl.crowd_inj _ _ _ _ hc hd hexp.2
    rw [← ha, hc, Option.some.injEq] at hd
    exact hopen (hd ▸ hexp.1)
  rw [expiredMint, sumBy, sumEntries, List.map_congr_left hzero]
  simp

/-! ### Events -/

theorem packetMint_of_creates (hc : createsProperty tx = true) {q : PropertyId}
    (hq : q ≠ peekNextSPID s tx.ecosystem) : packetMint s tx env q = 0 := by
  unfold createsProperty at hc
  unfold packetMint
  cases ht : TxType.ofId tx.type with
  | none => rfl
  | some txType =>
    rw [ht] at hc
    cases txType with
    | createPropertyFixed => exact if_neg hq
    | createPropertyVariable => rfl
    | createPropertyManual => rfl
    | _ => exact absurd hc (by decide)

theorem interpretPacket_crowdInv (hi : CrowdInv s) (hl : LedgerInv s) (hf : FeesUpTo s tx.block)
    (hfresh : freshId s tx = true) (h : interpretPacket s tx env = some (rc, s')) : CrowdInv s' := by
  have hsup := (interpretPacket_step hl.solvent hf h).supply_eq
  rcases interpretPacket_packetSp s tx env _ h with hstep | ⟨hrc, hcreates, hreg⟩
  · refine hi.of_spStep hstep fun a c hc hopen => ?_
    rw [hsup]
    split_ifs with hrc
    · rfl
    · -- a packet that is not rejected went to its handler
      rcases reject_cases (by simp [allErrors, pktError]) h with ⟨hneg, -⟩ | ⟨-, hh⟩
      · exact absurd hneg hrc
      · cases ht : TxType.ofId tx.type with
        | none =>
          rw [ht, Option.some.injEq, Prod.mk.injEq] at hh
          exact absurd (by rw [← hh.1]; decide) hrc
        | some txType =>
          rw [ht] at hh
          rw [logicMath_mint_eq_created ht hl hfresh hrc hh hc hopen]
  · have hfree : hasSP s (peekNextSPID s tx.ecosystem) = false := by
      simpa [freshId, hcreates] using hfresh
    refine hi.of_registers hl hreg hfree fun q hq => ?_
    rw [hsup, packetMint_of_creates hcreates hq, ite_self, add_zero]

/-- **One event.** -/
theorem handle_crowdInv {e : Event} (hi : CrowdInv s) (hl : LedgerInv s) (hc : Core s e.block)
    (hfresh : freshEvent s e = true) (h : handle s e = some s') : CrowdInv s' := by
  have hsup := (handle_ledger hc hfresh h hl).1
  cases e with
  | blockBegin height time hash =>
    obtain ⟨s₁, h1, hclosed⟩ := hi.blockBegin hl (show FeesUpTo s height from hc.feesUpTo) time hash
    rw [h, Option.some.injEq] at h1
    subst h1
    refine hi.of_spStep (handle_spQuiet (by simp) h) fun a c hcrowd hopen => ?_
    rw [hsup, eventMint, expiredMint_of_open hl hcrowd fun hexp => ?_]
    rw [(hclosed a c hcrowd hexp).erased] at hopen
    cases hopen
  | payment block sender outputs =>
    refine hi.of_spStep (handle_spQuiet (by simp) h) fun a c _ _ => ?_
    rw [hsup, eventMint]
  | packet tx env =>
    obtain ⟨rc, h⟩ := handle_packet h
    exact interpretPacket_crowdInv hi hl hc.feesUpTo hfresh h
  | blockEnd height time =>
    refine hi.of_spStep (handle_spQuiet (by simp) h) fun a c hcrowd _ => ?_
    rw [hsup, eventMint, vestedMint, if_neg fun hv => (hl.crowd a c hcrowd).1 hv.1]

end

/-! ### Runs -/

/-- What crowdsale accounting promises of a state. -/
structure CrowdAccounts (n : Node) : Prop where
  /-- The counters of an open crowdsale make up the total of its property. -/
  total : ∀ a c, n.state.crowds.find? a = some c →
    getTotalTokens n.state c.propertyId = c.uCreated + c.iCreated
  /-- The next block closes the expired crowdsales, and no assertion fails. -/
  expiry : ∀ height time hash, (Event.blockBegin height time hash).isNext n.clock = true →
    ∃ s', handle n.state (.blockBegin height time hash) = some s' ∧
      ∀ a c, n.state.crowds.find? a = some c → c.deadline < time → CrowdClosed n.state s' a c
  /-- A packet that closes its sender's crowdsale does so or is rejected, and no
  assertion fails. -/
  manual : ∀ tx env, TxType.ofId tx.type = some .closeCrowdsale →
    ∃ rc s', interpretPacket n.state tx env = some (rc, s') ∧
      ((rc < 0 ∧ s' = n.state) ∨ ∃ c, n.state.crowds.find? tx.sender = some c ∧
        tx.property = c.propertyId ∧ CrowdClosed n.state s' tx.sender c)

section
variable {n n' : Node} {es : List Event} {cfg : Config}

theorem run_crowdInv (hrun : run freshStep (Node.initial cfg) es = some n) :
    NodeInv n ∧ LedgerInv n.state ∧ CrowdInv n.state := by
  refine run_invariant (I := fun n => NodeInv n ∧ LedgerInv n.state ∧ CrowdInv n.state)
    (fun n e n' hi hs => ?_) ⟨initial_inv cfg, initial_ledgerInv cfg, ?_⟩ hrun
  · obtain ⟨hfresh, hstep⟩ := guarded_eq_some.mp hs
    obtain ⟨hnext, hh, -⟩ := step_eq_some.mp hstep
    have hcore := hi.1.core.mono (e.isNext_block hnext)
    exact ⟨step_inv hi.1 hstep, (freshStep_ledger hi.1 hi.2.1 hs).2,
      handle_crowdInv hi.2.2 hi.2.1 hcore hfresh hh⟩
  · intro a c hc
    exact absurd hc.symm (Option.some_ne_none c)

theorem reject_outcome {s : State} {checks : List (Bool × Int)} {go : Option (Int × State)}
    {P : State → Prop} (hneg : allErrors checks)
    (hgo : ∃ rc s', go = some (rc, s') ∧ ((rc < 0 ∧ s' = s) ∨ P s')) :
    ∃ rc s', reject s checks go = some (rc, s') ∧ ((rc < 0 ∧ s' = s) ∨ P s') := by
  rcases reject_eq checks with ⟨check, hmem, hholds, heq⟩ | ⟨-, heq⟩
  · exact ⟨check.2, s, heq s go, .inl ⟨hneg check hmem hholds, rfl⟩⟩
  · rw [heq]
    exact hgo

theorem CrowdInv.manual {s : State} (hi : CrowdInv s) (hl : LedgerInv s) (tx : CMPTransaction)
    (env : TxEnv) (ht : TxType.ofId tx.type = some .closeCrowdsale) :
    ∃ rc s', interpretPacket s tx env = some (rc, s') ∧
      ((rc < 0 ∧ s' = s) ∨ ∃ c, s.crowds.find? tx.sender = some c ∧
        tx.property = c.propertyId ∧ CrowdClosed s s' tx.sender c) := by
  refine reject_outcome (by simp [allErrors, pktError]) ?_
  rw [ht]
  refine reject_outcome (by simp [allErrors, pktErrorSp]) ?_
  cases hc : s.crowds.find? tx.sender with
  | none => exact ⟨_, s, rfl, .inl ⟨by decide, rfl⟩⟩
  | some crowd =>
    by_cases hp : tx.property = crowd.propertyId
    · obtain ⟨s', h', hclosed⟩ := hi.closeCrowdsale hl hc hp env
      refine ⟨0, s', ?_, .inr ⟨crowd, rfl, hp, hclosed⟩⟩
      dsimp only
      rw [reject_pass (by simp [hp]), h']
      rfl
    · refine ⟨pktErrorSp - 41, s, ?_, .inl ⟨by decide, rfl⟩⟩
      simp [reject, hp]

/-- **Crowdsale accounting.** In every state of every run in which new properties
find their identifiers free, the counters of each open crowdsale make up the
total of its property, and closing it credits the issuer what is missing. -/
theorem crowdsale_accounts (hrun : run freshStep (Node.initial cfg) es = some n) : CrowdAccounts n := by
  obtain ⟨hnode, hl, hi⟩ := run_crowdInv hrun
  refine ⟨fun a c hc => ?_, fun height time hash hnext => ?_, fun tx env ht => hi.manual hl tx env ht⟩
  · rw [(hl.crowd_entry hc).1, (hi a c hc).total, CMPCrowd.created]
  · exact hi.blockBegin hl (hnode.core.mono (Event.isNext_block hnext)).feesUpTo time hash

end

/-- A crowdsale of the test ecosystem, opened in the first block. -/
def saleTx (desired : PropertyId) (idx : Nat) (txid : Hash) : CMPTransaction where
  txid := txid
  block := 1
  blockTime := serialTime
  txIdx := idx
  sender := "issuer"
  type := 51
  property := desired
  nValue := 100
  ecosystem := 2
  propType := 1
  name := "Sale"
  ticker := "SALE"
  deadline := 3000000000
  percentage := 7

/-- Five tokens of the first test property for the issuer. -/
def investTx : CMPTransaction where
  txid := 3
  block := 1
  blockTime := serialTime
  txIdx := 3
  sender := "first"
  receiver := "issuer"
  type := 0
  property := testEcoProperty1
  nValue := 5

/-- One investment: 500 tokens for the user and 35 for the issuer. -/
theorem crowdsale_accounts_invested :
    ∃ n, run freshStep (Node.initial regtestCfg)
        [.blockBegin 1 serialTime 1, .packet (hoardTx "first" "FIRST" 2 1) issuanceEnv,
          .packet (saleTx testEcoProperty1 2 2) issuanceEnv, .packet investTx issuanceEnv] = some n ∧
      (n.state.crowds.find? "issuer").map (fun c => (c.uCreated, c.iCreated)) = some (500, 35) ∧
      CrowdAccounts n := by
  have hrun : (run freshStep (Node.initial regtestCfg)
      [.blockBegin 1 serialTime 1, .packet (hoardTx "first" "FIRST" 2 1) issuanceEnv,
        .packet (saleTx testEcoProperty1 2 2) issuanceEnv, .packet investTx issuanceEnv]).map
      (fun n => (n.state.crowds.find? "issuer").map fun c => (c.uCreated, c.iCreated)) =
      some (some (500, 35)) := by decide +kernel
  obtain ⟨n, hn, hc⟩ := Option.map_eq_some_iff.mp hrun
  exact ⟨n, hn, hc, crowdsale_accounts hn⟩

/-! ### Running into the test ecosystem -/

/-- A crowdsale of a test property, all identifiers of the main ecosystem, and
one more property. -/
def oversoldRun : List Event :=
  [.blockBegin 1 serialTime 1, .packet (saleTx 2 1 1) issuanceEnv, .blockEnd 1 serialTime] ++
    ((serialBlocks (2 ^ 30) ++ [.blockBegin (2 ^ 30 + 2) serialTime 1]) ++
      [.packet (hoardTx "second" "LAST" 1 (2 ^ 30 + 2)) issuanceEnv])

/-- The crowdsale. -/
def saleCrowd : CMPCrowd :=
  ⟨testEcoProperty1, toI64 100, 2, toI64 3000000000, 0, 7, 0, 0, ∅⟩

/-- The state with the open crowdsale. -/
def saleState : State :=
  { (putSP (State.initial regtestCfg) 2 ((saleTx 2 1 1).variableSP issuanceEnv)).2 with
    crowds := (State.initial regtestCfg).crowds.insertNew "issuer" saleCrowd }

theorem sale_handled :
    handle (State.initial regtestCfg) (.packet (saleTx 2 1 1) issuanceEnv) = some saleState := by
  have hsale : logicMathCreatePropertyVariable (State.initial regtestCfg) (saleTx 2 1 1) issuanceEnv =
      some (0, saleState) := by
    unfold logicMathCreatePropertyVariable
    rw [reject_pass (by decide +kernel)]
    dsimp only
    rw [if_neg (by decide)]
    rfl
  rw [handle, interpretPacket_pass rfl rfl rfl rfl, logicMath, hsale]
  rfl

theorem idle_saleState : Idle saleState := by
  refine ⟨rfl, rfl, rfl, rfl, rfl, rfl, rfl, rfl, fun e he => ?_⟩
  rw [List.mem_singleton.mp he]
  decide

theorem run_sale :
    run step (Node.initial regtestCfg)
        [.blockBegin 1 serialTime 1, .packet (saleTx 2 1 1) issuanceEnv, .blockEnd 1 serialTime] =
      some ⟨updateDistributionThresholds saleState propertyMSC, position 1 2⟩ := by
  have r₁ := run_concat (run_nil step (Node.initial regtestCfg)) (by decide) (idle_initial.blockBegin 1 1)
  have r₂ := run_concat r₁ (by decide) sale_handled
  exact run_concat r₂ (by decide) (idle_saleState.blockEnd 1)

theorem getTotalTokens_fixed {s : State} {p : PropertyId} {e : SPEntry} (h : getSP s p = some e)
    (hf : e.fixed = true) : getTotalTokens s p = e.numTokens := by
  rw [getTotalTokens, h]
  exact if_pos hf

theorem hoard_numTokens (sender : Address) (ticker : String) (ecosystem block : Nat) :
    ((hoardTx sender ticker ecosystem block).fixedSP issuanceEnv).numTokens = i64Max := by
  have hcast : toI64 maxInt8Bytes = i64Max := by decide
  simp [CMPTransaction.fixedSP, hoardTx, hcast]

/-- **The last property takes over the crowdsale.** It has the identifier of the
property on sale and as many tokens as fit; the crowdsale has counted none. -/
theorem oversoldRun_total :
    ∃ n, run step (Node.initial regtestCfg) oversoldRun = some n ∧
      n.state.crowds.find? "issuer" = some saleCrowd ∧
      getTotalTokens n.state testEcoProperty1 = i64Max := by
  have hshort : ∀ t : String, t.toList.length ≠ 8 → ∀ m, t ≠ serialTicker m := by
    rintro t ht m rfl
    exact ht (by simp [serialTicker])
  set s₀ := updateDistributionThresholds saleState propertyMSC with hs0
  have hidle : Idle s₀ := ⟨rfl, rfl, rfl, rfl, rfl, rfl, rfl, rfl, idle_saleState.crowds⟩
  have hunused : ∀ m < 2 ^ 31, s₀.sp.tickerIndex.find? (serialTicker m) = none :=
    fun m _ => find?_insert_ne _ _ (hshort "SALE" (by decide) m).symm
  obtain ⟨s, hrun, hf⟩ := overrun ⟨s₀, position 1 2⟩ hidle rfl rfl hunused
  have hpeek : peekNextSPID s 1 = testEcoProperty1 := hf.next
  have hlast : s.sp.tickerIndex.find? "LAST" = none :=
    hf.tickers "LAST" fun m _ => hshort "LAST" (by decide) m
  have hi := hf.idle hidle
  have hbal : getTokenBalance s "second" testEcoProperty1 .balance = 0 := by
    rw [hf.frame]
    rfl
  obtain ⟨s₁, h1, h2⟩ := hoard_handled (2 ^ 30 + 2) hi.params hi.frozen hi.feeCache (.inl rfl)
    (.inr rfl) hlast hpeek hbal
  have r := run_concat hrun (packet_isNext rfl (Nat.zero_le _)) h2
  refine ⟨_, run_trans run_sale r, ?_, ?_⟩
  · show s₁.crowds.find? "issuer" = some saleCrowd
    rw [(assertTally_spec h1).frame, putSP_frame, hf.frame]
    rfl
  · show getTotalTokens s₁ testEcoProperty1 = i64Max
    have hentry : getSP s₁ testEcoProperty1 =
        some ((hoardTx "second" "LAST" 1 (2 ^ 30 + 2)).fixedSP issuanceEnv) := by
      rw [(assertTally_spec h1).frame, getSP, if_neg (by decide), putSP_entries, hpeek,
        find?_insert, if_pos rfl]
    rw [getTotalTokens_fixed hentry rfl, hoard_numTokens]

/-- The accounts are wrong in that run. -/
theorem crowdsale_accounts_overrun :
    ¬ ∀ (cfg : Config) (es : List Event) (n : Node),
      run step (Node.initial cfg) es = some n → CrowdAccounts n := by
  intro h
  obtain ⟨n, hrun, hc, htotal⟩ := oversoldRun_total
  have hsum := (h regtestCfg oversoldRun n hrun).total "issuer" saleCrowd hc
  rw [show saleCrowd.propertyId = testEcoProperty1 from rfl, htotal] at hsum
  exact absurd hsum (by decide)

end Rapids.Token
