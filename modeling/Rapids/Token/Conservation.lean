import Rapids.Token.RunSound

/-!
# Rapids.Token.Conservation

**Token conservation** over whole runs: the supply of a property changes by what
the events mint and by nothing else, and stays within 64 bits.

The one way out is `putSP`: it writes under the next identifier of the
ecosystem even if that identifier is in use, which its sanity check reports as
an error and lets pass. The counter of the main ecosystem reaches the
identifiers of the test ecosystem after `2 ^ 31` properties, and a property
created there adds its tokens to those of the property it replaces.
-/

namespace Rapids.Token

open Rapids.Lib OrdMap

variable {s : State} {n : Nat}

/-- A step whose new property, if any, gets a free identifier. -/
def freshStep : Node → Event → Option Node := guarded (fun n e => freshEvent n.state e) step

theorem freshStep_ledger {n n' : Node} {e : Event} (hi : NodeInv n) (hl : LedgerInv n.state)
    (h : freshStep n e = some n') :
    (∀ q, supply n'.state q = supply n.state q + eventMint n.state e q) ∧ LedgerInv n'.state := by
  obtain ⟨hfresh, hs⟩ := guarded_eq_some.mp h
  obtain ⟨hnext, hh, -⟩ := step_eq_some.mp hs
  exact handle_ledger (hi.core.mono (e.isNext_block hnext)) hfresh hh hl

theorem run_ledgerInv {cfg : Config} {es : List Event} {n : Node}
    (h : run freshStep (Node.initial cfg) es = some n) : NodeInv n ∧ LedgerInv n.state := by
  refine run_invariant (I := fun n => NodeInv n ∧ LedgerInv n.state) (fun n e n' hi hs => ?_)
    ⟨initial_inv cfg, initial_ledgerInv cfg⟩ h
  exact ⟨step_inv hi.1 (guarded_eq_some.mp hs).2, (freshStep_ledger hi.1 hi.2 hs).2⟩

/-- In every state a run reaches, supplies are 64-bit amounts, and the next step
changes them by exactly what it mints. -/
theorem supply_conserved {cfg : Config} {es : List Event} {n : Node}
    (hrun : run freshStep (Node.initial cfg) es = some n) :
    (∀ q, 0 ≤ supply n.state q ∧ supply n.state q ≤ i64Max) ∧
      ∀ e n', freshStep n e = some n' →
        ∀ q, supply n'.state q = supply n.state q + eventMint n.state e q := by
  obtain ⟨hi, hl⟩ := run_ledgerInv hrun
  exact ⟨fun q => ⟨hl.supply_nonneg q, hl.bounded q⟩, fun e n' hs => (freshStep_ledger hi hl hs).1⟩

/-! ### Running into the other ecosystem

The failing run: a first account creates all `2 ^ 63 - 1` tokens of the first
test property; `2 ^ 31` properties without tokens follow in the main ecosystem;
the next property of the main ecosystem has the test property's identifier, and
a second account gets all its tokens. -/

def hexDigit (d : Nat) : Char := if d < 10 then Char.ofNat (48 + d) else Char.ofNat (55 + d)

/-- Eight hexadecimal digits, the lowest first. -/
def serialTicker (n : Nat) : String :=
  String.ofList ((List.range 8).map fun i => hexDigit (n / 16 ^ i % 16))

/-- The `n`-th property of the main ecosystem: managed, so without tokens. Two of
them are created in each block. -/
def serialTx (n : Nat) : CMPTransaction where
  txid := n + 10
  block := n / 2 + 2
  blockTime := 1500000000
  txIdx := n % 2 + 1
  sender := "issuer"
  type := 54
  ecosystem := 1
  propType := 1
  name := "Serial"
  ticker := serialTicker n

/-- A property with as many tokens as fit. -/
def hoardTx (sender : Address) (ticker : String) (ecosystem block : Nat) : CMPTransaction where
  txid := block
  block := block
  blockTime := 1500000000
  txIdx := 1
  sender := sender
  type := 50
  nValue := maxInt8Bytes
  ecosystem := ecosystem
  propType := 1
  name := "Hoard"
  ticker := ticker

/-- The node's answers to these packets. -/
def issuanceEnv : TxEnv where
  blockHash := some 1

theorem hexDigit_isTickerChar : ∀ d < 16, isTickerChar (hexDigit d) = true := by decide

theorem hexDigit_ne : ∀ d < 16, hexDigit d ≠ 'r' := by decide

theorem hexDigit_inj : ∀ d < 16, ∀ e < 16, hexDigit d = hexDigit e → d = e := by decide

theorem serialTicker_valid (n : Nat) : isTokenTickerValid (serialTicker n) = true := by
  have hlen : (serialTicker n).toList.length = 8 := by simp [serialTicker]
  have hword : isTickerWord (serialTicker n).toList = true := by
    have hne := hexDigit_ne (n / 16 ^ 0 % 16) (Nat.mod_lt _ (by decide))
    have hall : ∀ i, isTickerChar (hexDigit (n / 16 ^ i % 16)) = true := fun i =>
      hexDigit_isTickerChar _ (Nat.mod_lt _ (by decide))
    have heq : (serialTicker n).toList = hexDigit (n / 16 ^ 0 % 16) ::
        (List.range 7).map fun i => hexDigit (n / 16 ^ (i + 1) % 16) := by
      simp [serialTicker, List.range_succ]
    rw [heq]
    unfold isTickerWord
    split
    · rename_i h
      exact absurd (List.cons.inj h).1 hne
    · simpa [isShortWord, hall] using hall 0
  have hother : ∀ w : String, w.toList.length ≠ 8 → serialTicker n ≠ w := fun w hw heq =>
    hw (by rw [← heq]; exact hlen)
  simp [isTokenTickerValid, hword, hother "RPD" (by decide), hother "RAPIDS" (by decide),
    hother "RAPIDSNETWORK" (by decide)]

theorem serialTicker_inj {m : Nat} (hm : m < 2 ^ 31) (hn : n < 2 ^ 31)
    (h : serialTicker m = serialTicker n) : m = n := by
  have hlist := congrArg String.toList h
  simp only [serialTicker, String.toList_ofList] at hlist
  have hd : ∀ i < 8, m / 16 ^ i % 16 = n / 16 ^ i % 16 := fun i hi => by
    refine hexDigit_inj _ (Nat.mod_lt _ (by decide)) _ (Nat.mod_lt _ (by decide)) ?_
    exact List.map_inj_left.mp hlist i (List.mem_range.mpr hi)
  have h0 := hd 0 (by decide)
  have h1 := hd 1 (by decide)
  have h2 := hd 2 (by decide)
  have h3 := hd 3 (by decide)
  have h4 := hd 4 (by decide)
  have h5 := hd 5 (by decide)
  have h6 := hd 6 (by decide)
  have h7 := hd 7 (by decide)
  omega

theorem reject_pass {checks : List (Bool × Int)} {go : Option (Int × State)}
    (h : ∀ c ∈ checks, c.1 = false) : reject s checks go = go := by
  have hnone : checks.find? Prod.fst = none :=
    List.find?_eq_none.mpr fun c hc => by simp [h c hc]
  rw [reject, hnone]

theorem notifyTotalTokensChanged_of_zero {p : PropertyId} {block : Nat}
    (h : getCachedAmount s p = 0) :
    notifyTotalTokensChanged s p block = some (updateDistributionThresholds s p) := by
  have hc : getCachedAmount (updateDistributionThresholds s p) p = 0 := h
  have hpos : ¬ ((updateDistributionThresholds s p).distributionThresholds.find? p).getD 0 ≤ 0 := by
    simp only [updateDistributionThresholds, find?_insert_self, Option.getD_some]
    split_ifs <;> omega
  rw [notifyTotalTokensChanged, evalCache, hc, if_neg hpos]

theorem interpretPacket_pass {tx : CMPTransaction} {env : TxEnv} {txType : TxType}
    (hrpc : tx.rpcOnly = false) (hint : tx.interpreted = true) (hfrozen : s.frozen = ∅)
    (ht : TxType.ofId tx.type = some txType) :
    interpretPacket s tx env = logicMath s tx env txType := by
  unfold interpretPacket
  rw [reject_pass, ht]
  simp [hrpc, hint, isAddressFrozen, hfrozen]

theorem hoard_handled {s : State} {sender : Address} {ticker : String} {ecosystem : Nat} (block : Nat)
    (hparams : s.params = regTestConsensusParams) (hfrozen : s.frozen = ∅) (hfees : s.feeCache = ∅)
    (heco : ecosystem = 1 ∨ ecosystem = 2) (hname : ticker = "FIRST" ∨ ticker = "LAST")
    (hticker : s.sp.tickerIndex.find? ticker = none)
    (hp : peekNextSPID s ecosystem = testEcoProperty1)
    (hbal : getTokenBalance s sender testEcoProperty1 .balance = 0) :
    ∃ s₁, assertTally (putSP s ecosystem ((hoardTx sender ticker ecosystem block).fixedSP issuanceEnv)).2
        sender testEcoProperty1 i64Max .balance = some s₁ ∧
      handle s (.packet (hoardTx sender ticker ecosystem block) issuanceEnv) =
        some (updateDistributionThresholds s₁ testEcoProperty1) := by
  set s₀ := (putSP s ecosystem ((hoardTx sender ticker ecosystem block).fixedSP issuanceEnv)).2 with hs0
  have hbal0 : getTokenBalance s₀ sender testEcoProperty1 .balance = 0 := hbal
  have hsome : ∃ s₁, assertTally s₀ sender testEcoProperty1 i64Max .balance = some s₁ :=
    assertTally_isSome (by decide) (fun _ => by rw [hbal0]; decide) (fun hc => absurd hc (by decide))
      (fun _ => by rw [hbal0]; decide) (fun _ hc => absurd hc (by decide))
  obtain ⟨s₁, h1⟩ := hsome
  have hcached : getCachedAmount s₁ testEcoProperty1 = 0 := by
    rw [(assertTally_spec h1).getCachedAmount_eq]
    simp only [getCachedAmount, getCacheHistory, hs0, putSP, hfees]
    rfl
  have hcast : toI64 maxInt8Bytes = i64Max := by decide
  have hallowed : notAllowed s (hoardTx sender ticker ecosystem block) ecosystem .createPropertyFixed =
      false := by
    rw [notAllowed, hparams]
    rcases heco with rfl | rfl <;>
      simp [hoardTx, isTransactionTypeAllowed, getRestrictions, regTestConsensusParams,
        baseConsensusParams, propertyRPD, intMax]
  have hvalid : isTokenTickerValid ticker = true ∧ isUsernameValid ticker = false ∧
      isSubTickerValid ticker = false ∧ ticker ≠ "" := by
    rcases hname with rfl | rfl <;> decide
  refine ⟨s₁, h1, ?_⟩
  rw [handle, interpretPacket_pass rfl rfl hfrozen rfl, logicMath, logicMathCreatePropertyFixed,
    reject_pass]
  · dsimp only
    have heq : (hoardTx sender ticker ecosystem block).ecosystem = ecosystem := rfl
    have hsend : (hoardTx sender ticker ecosystem block).sender = sender := rfl
    have hval : (hoardTx sender ticker ecosystem block).nValue = maxInt8Bytes := rfl
    rw [putSP_fst, heq, hsend, hval, hp, hcast, if_neg (by decide), h1, Option.bind_eq_bind,
      Option.bind_some, notifyTotalTokensChanged_of_zero hcached]
    rfl
  · have hfind : findSPByTicker s ticker = 0 := by
      rw [findSPByTicker, hticker]
      rfl
    have hno : isNoEcosystem ecosystem = false := by
      rcases heco with rfl | rfl <;> rfl
    obtain ⟨hv1, hv2, hv3, hv4⟩ := hvalid
    simp [hoardTx, royaltiesChecks, issuanceEnv, hfind, hno, hv1, hv2, hv3, hv4, isNoPropertyType,
      propertyTypeIndivisible, isOutOfRange, maxInt8Bytes, CMPTransaction.isNFT, fixedCost,
      isTokenIPFSValid]
    exact hallowed

/-! ### The run -/

def regtestCfg : Config where
  network := .regtest
  activationAllowSender := []
  activationIgnoreSender := []
  alertAllowSender := []
  alertIgnoreSender := []
  debugFees := false
  exodusAddress := "exodus"
  isValidDestination := fun _ => false
  devmsc := fun _ => 0

/-- The first block with the test property, and `k` blocks with two properties
each. -/
def crowdingBlocks : Nat → List Event
  | 0 => [.blockBegin 1 1500000000 1, .packet (hoardTx "first" "FIRST" 2 1) issuanceEnv,
      .blockEnd 1 1500000000]
  | k + 1 => crowdingBlocks k ++
      [.blockBegin (k + 2) 1500000000 1, .packet (serialTx (2 * k)) issuanceEnv,
        .packet (serialTx (2 * k + 1)) issuanceEnv, .blockEnd (k + 2) 1500000000]

theorem packet_isNext {tx : CMPTransaction} {env : TxEnv} {block idx : Nat} (hb : tx.block = block)
    (hi : idx ≤ tx.txIdx) : (Event.packet tx env).isNext (position block idx) = true := by
  subst hb
  exact decide_eq_true (Prod.Lex.le_iff.mpr (.inr ⟨rfl, hi⟩))

/-- While the identifiers are free, all is well: after the first two blocks there
are the tokens of the test property and no others. -/
theorem supply_conserved_crowding :
    ∃ n, run freshStep (Node.initial regtestCfg) (crowdingBlocks 1) = some n ∧
      supply n.state testEcoProperty1 = i64Max ∧
      ∀ q, 0 ≤ supply n.state q ∧ supply n.state q ≤ i64Max := by
  have hrun : (run freshStep (Node.initial regtestCfg) (crowdingBlocks 1)).map
      (fun n => supply n.state testEcoProperty1) = some i64Max := by decide +kernel
  obtain ⟨n, hn, hsup⟩ := Option.map_eq_some_iff.mp hrun
  exact ⟨n, hn, hsup, (supply_conserved hn).1⟩

end Rapids.Token
