import Mathlib.Algebra.Group.Action.Defs
import Rapids.Chain.StakingSound

/-!
# Rapids.Chain.StakeOutputs

**What a coinstake looks like** (`CWallet::CreateCoinStake`, `wallet/wallet.cpp`). It should
have one input, the marker and the dev subsidy in front, and then outputs that carry the
value of the input and the reward, each of them some of it (`WellFormedStake`).

Two things go wrong. The number of outputs is compared with the index of the first one, which
is 2: of two outputs the first stays empty-handed. And the flag that a kernel was found is all
that is asked at the end: if the last coin that was tried is a kernel whose outputs could not
be created, the wallet hands out a transaction without inputs. `wellFormedStake_iff` says that
nothing else does.
-/

namespace Rapids.Chain

open Rapids.Lib

section
variable {P : ChainParams} {M : Payments} {W : Wallet} {onlyP2PK : Bool} {nHeight : Nat}
  {coins : List (COutput × Attempt)} {s : Script} {nCredit : Int}

/-! ### Splitting the credit -/

/-- A share of a credit that is large enough is positive, and leaves one more for the last. -/
theorem share_bounds {n : Nat} (hn : n < 48) (hlow : 48 ≤ nCredit) :
    0 < nCredit.tdiv (n + 1) ∧ nCredit.tdiv (n + 1) ≤ nCredit - nCredit.tdiv (n + 1) * n := by
  have hpos : (0 : Int) < n + 1 := by omega
  rw [Int.tdiv_eq_ediv_of_nonneg (by omega)]
  have hone : 1 ≤ nCredit / ((n : Int) + 1) := Int.le_ediv_of_mul_le hpos (by omega)
  have hall := Int.ediv_mul_le nCredit (Int.ne_of_gt hpos)
  rw [Int.mul_add, Int.mul_one] at hall
  exact ⟨by omega, by omega⟩

/-- Every output gets some of such a credit and all of it is paid out, unless there are two. -/
theorem setAmounts_wellFormed {n : Nat} (hn : n < 48) (hone : n ≠ 1) (hlow : 48 ≤ nCredit)
    (hhigh : nCredit ≤ i64Max) :
    (∀ o ∈ setAmounts nCredit (List.replicate (n + 1) ⟨0, s⟩), 0 < o.nValue) ∧
      totalOut (setAmounts nCredit (List.replicate (n + 1) ⟨0, s⟩)) = nCredit := by
  have hmin : i64Min ≤ 0 := by decide
  rw [setAmounts_eq, totalOut_append, totalOut_replicate, totalOut_cons, totalOut_nil]
  by_cases hmany : 1 < n
  · obtain ⟨hshare, hlast⟩ := share_bounds hn hlow
    have hprod : 0 ≤ nCredit.tdiv (n + 1) * n := Int.mul_nonneg (Int.le_of_lt hshare) (Int.natCast_nonneg n)
    simp only [if_pos hmany]
    rw [toI64_of_inI64 ⟨by omega, by omega⟩]
    constructor
    · intro o ho
      rcases List.mem_append.mp ho with ho | ho
      · rw [List.eq_of_mem_replicate ho]
        exact hshare
      · rw [List.mem_singleton.mp ho]
        exact Int.lt_of_lt_of_le hshare hlast
    · rw [Int.mul_comm]
      omega
  · obtain rfl : n = 0 := by omega
    simp only [if_neg hmany]
    rw [toI64_of_inI64 ⟨by omega, hhigh⟩]
    simp
    omega

/-- Of two outputs the first has nothing; of a credit that has wrapped none has anything. -/
theorem setAmounts_empty {n : Nat} (hbad : n = 1 ∨ nCredit < 0) (hin : InI64 nCredit) :
    ¬ ∀ o ∈ setAmounts nCredit (List.replicate (n + 1) ⟨0, s⟩), 0 < o.nValue := by
  intro hall
  rw [setAmounts_eq] at hall
  cases n with
  | zero =>
    have hlast := hall _ (List.mem_append_right _ (List.mem_singleton_self _))
    simp only [Nat.not_lt_zero, if_false, toI64_of_inI64 hin] at hlast
    omega
  | succ n =>
    have hfirst := hall _ (List.mem_append_left _ (List.mem_replicate.mpr ⟨by omega, rfl⟩))
    dsimp only at hfirst
    split_ifs at hfirst with hmany
    · have hneg : nCredit < 0 := by omega
      have hshare := Int.tdiv_nonpos_of_nonneg_of_nonpos (a := -nCredit) (b := -(((n + 1 : Nat) : Int) + 1))
        (by omega) (by omega)
      rw [Int.neg_tdiv_neg] at hshare
      omega
    · omega

/-! ### The size of the transaction -/

/-- A script that can be staked is short. -/
theorem solver_length {kernel : Script} {type : StakeType} (h : solver kernel = some type) :
    kernel.length ≤ 67 := by
  have hpubKey : ∀ x, matchPayToPubkey kernel = some x → kernel.length ≤ 67 := by
    intro x hx
    unfold matchPayToPubkey at hx
    dsimp only at hx
    split_ifs at hx with hc
    simp only [Bool.and_eq_true, Bool.or_eq_true, decide_eq_true_eq] at hc
    omega
  have hhash : ∀ x, matchPayToPubkeyHash kernel = some x → kernel.length ≤ 67 := by
    intro x hx
    unfold matchPayToPubkeyHash at hx
    split_ifs at hx with hc
    simp only [Bool.and_eq_true, decide_eq_true_eq] at hc
    omega
  have hcold : ∀ x, matchPayToColdStaking kernel = some x → kernel.length ≤ 67 := by
    intro x hx
    unfold matchPayToColdStaking at hx
    split_ifs at hx with hc
    simp only [isPayToColdStaking, Bool.and_eq_true, decide_eq_true_eq] at hc
    omega
  unfold solver at h
  split_ifs at h
  rw [Option.or_eq_some_iff, Option.or_eq_some_iff] at h
  simp only [Option.map_eq_some_iff] at h
  rcases h with ⟨x, hx, -⟩ | ⟨-, ⟨x, hx, -⟩ | ⟨-, x, hx, -⟩⟩
  · exact hpubKey x hx
  · exact hhash x hx
  · exact hcold x hx

theorem pubKeyScript_length (k : PubKey) : (pubKeyScript k).length ≤ 67 := by
  have hvalid := k.valid
  rw [pubKeyScript, List.length_cons, List.length_append, List.length_singleton]
  cases hb : k.bytes with
  | nil => decide
  | cons header rest =>
    simp only [hb, validPubKeySize, pubKeyLen, decide_eq_true_eq] at hvalid
    split_ifs at hvalid <;> omega

/-- So is the script that a stake pays to. -/
theorem stakeScript_length {kernel : Script} (h : stakeScript W onlyP2PK kernel = some s) : s.length ≤ 67 := by
  unfold stakeScript at h
  cases hsolve : solver kernel with
  | none =>
    rw [hsolve] at h
    cases h
  | some type =>
    have hkernel := solver_length hsolve
    rw [hsolve] at h
    cases type with
    | pubKey pubkey =>
      cases h
      exact hkernel
    | pubKeyHash hash =>
      obtain ⟨k, -, rfl⟩ := Option.map_eq_some_iff.mp h
      split_ifs
      · exact pubKeyScript_length k
      · exact hkernel
    | coldStake hash =>
      obtain ⟨k, -, rfl⟩ := Option.map_eq_some_iff.mp h
      exact hkernel

theorem stakeSplit_bounds (W : Wallet) (nTotal : Int) : 1 ≤ stakeSplit W nTotal ∧ stakeSplit W nTotal ≤ 48 := by
  unfold stakeSplit
  dsimp only
  split_ifs <;> omega

/-- No coinstake is too large. -/
theorem serializeSize_stakeVout {c : COutput} {outs : List TxOut}
    (h : createTxOuts W onlyP2PK c.out.scriptPubKey (stakeCredit nHeight c) = some outs) :
    serializeSize (stakeVout P nHeight c outs) < 75000 / 5 := by
  rw [createTxOuts, Option.map_eq_some_iff] at h
  obtain ⟨s, hs, rfl⟩ := h
  have hlen := stakeScript_length hs
  obtain ⟨hone, hmost⟩ := stakeSplit_bounds W (stakeCredit nHeight c)
  obtain ⟨n, hn⟩ : ∃ n, stakeSplit W (stakeCredit nHeight c) = n + 1 := ⟨_, (Nat.sub_add_cancel hone).symm⟩
  have hcompact : ∀ k < 253, sizeOfCompactSize k = 1 := fun k hk => if_pos hk
  have hdev : (getScriptForDestination P.devFund).length ≤ 25 := by
    cases P.devFund with
    | none => decide
    | keyID hash => simp [getScriptForDestination]
    | scriptID hash => simp [getScriptForDestination]
  rw [hn, stakeVout, setAmounts_eq, serializeSize, stakeHead]
  simp only [List.length_append, List.length_cons, List.length_nil, List.length_replicate, List.map_append,
    List.map_cons, List.map_nil, List.map_replicate, List.sum_append, List.sum_cons, List.sum_nil,
    List.sum_replicate, smul_eq_mul]
  rw [hcompact _ (by omega), hcompact _ (by omega), hcompact _ (by omega), hcompact _ (by omega)]
  have hmul : n * (8 + 1 + s.length) ≤ 48 * (8 + 1 + 67) := Nat.mul_le_mul (by omega) (by omega)
  omega

/-! ### The search -/

/-- **A coinstake as it should be**: one input, which is a coin of the wallet; the marker and the dev
subsidy; stake outputs, all with a positive value, that add up to the coin and the reward; and the
payment. -/
def WellFormedStake (P : ChainParams) (M : Payments) (coins : List COutput) (nHeight : Nat)
    (tx : Transaction) : Prop :=
  ∃ c ∈ coins, ∃ outs, tx.vin.map TxIn.prevout = [⟨c.hash, c.i⟩] ∧
    tx.vout = stakeHead P nHeight ++ outs ++ (stakePayment M nHeight).toList ∧
      (∀ o ∈ outs, 0 < o.nValue) ∧ totalOut outs = c.out.nValue + getBlockStakeSubsidy nHeight

/-- Where the search ends: not behind a kernel that cannot be paid to again; and the first kernel
that can has a credit that fits and is not split in two. -/
def EndsWell (W : Wallet) (onlyP2PK : Bool) (nHeight : Nat) : Bool → List (COutput × Attempt) → Prop
  | fKernelFound, [] => fKernelFound = false
  | _, (_, .interrupted) :: _ => True
  | _, (_, .noKernel) :: rest => EndsWell W onlyP2PK nHeight false rest
  | _, (c, .kernel) :: rest =>
    if (stakeScript W onlyP2PK c.out.scriptPubKey).isNone then EndsWell W onlyP2PK nHeight true rest
    else c.out.nValue + getBlockStakeSubsidy nHeight ≤ i64Max ∧ stakeSplit W (stakeCredit nHeight c) ≠ 2

theorem stakeCredit_eq {c : COutput} (hvalue : 0 ≤ c.out.nValue)
    (hfits : c.out.nValue + getBlockStakeSubsidy nHeight ≤ i64Max) :
    stakeCredit nHeight c = c.out.nValue + getBlockStakeSubsidy nHeight ∧ 48 ≤ stakeCredit nHeight c := by
  have hreward : 48 ≤ getBlockStakeSubsidy nHeight := by
    unfold getBlockStakeSubsidy getBlockValue coin
    split_ifs <;> decide
  have hmin : i64Min ≤ 0 := by decide
  rw [stakeCredit, toI64_of_inI64 ⟨by omega, hfits⟩]
  exact ⟨rfl, by omega⟩

/-- A credit that does not fit is negative. -/
theorem stakeCredit_neg {c : COutput} (hvalue : c.out.nValue ≤ i64Max)
    (hover : i64Max < c.out.nValue + getBlockStakeSubsidy nHeight) : stakeCredit nHeight c < 0 := by
  have hreward : getBlockStakeSubsidy nHeight ≤ 1000000000000000 := by
    unfold getBlockStakeSubsidy getBlockValue coin
    split_ifs <;> decide
  simp only [i64Max] at hvalue hover
  rw [stakeCredit, toI64, Int.bmod_def]
  split_ifs <;> omega

/-- What the first kernel that can be paid to again comes to. -/
theorem firstKernel_iff {coins : List COutput} {c : COutput} {outs : List TxOut} (hc : c ∈ coins)
    (hrange : 0 ≤ c.out.nValue ∧ c.out.nValue ≤ i64Max)
    (houts : createTxOuts W onlyP2PK c.out.scriptPubKey (stakeCredit nHeight c) = some outs) :
    WellFormedStake P M coins nHeight
        ⟨0, [⟨⟨c.hash, c.i⟩, []⟩], M.fillBlockPayee nHeight true (stakeVout P nHeight c outs)⟩ ↔
      c.out.nValue + getBlockStakeSubsidy nHeight ≤ i64Max ∧ stakeSplit W (stakeCredit nHeight c) ≠ 2 := by
  rw [createTxOuts, Option.map_eq_some_iff] at houts
  obtain ⟨s, hs, rfl⟩ := houts
  obtain ⟨hone, hmost⟩ := stakeSplit_bounds W (stakeCredit nHeight c)
  obtain ⟨n, hn⟩ : ∃ n, stakeSplit W (stakeCredit nHeight c) = n + 1 := ⟨_, (Nat.sub_add_cancel hone).symm⟩
  rw [hn, fillBlockPayee_stake, stakeVout]
  constructor
  · rintro ⟨c', -, outs, -, hvout, hpos, -⟩
    obtain rfl := List.append_cancel_left (List.append_cancel_right hvout)
    by_contra hbad
    refine setAmounts_empty ?_ (inI64_toI64 _) hpos
    by_cases hfits : c.out.nValue + getBlockStakeSubsidy nHeight ≤ i64Max
    · have htwo : ¬ n + 1 ≠ 2 := fun hne => hbad ⟨hfits, hne⟩
      exact .inl (by omega)
    · exact .inr (stakeCredit_neg hrange.2 (Int.not_le.mp hfits))
  · rintro ⟨hfits, htwo⟩
    obtain ⟨hcredit, hlow⟩ := stakeCredit_eq hrange.1 hfits
    have hhigh : stakeCredit nHeight c ≤ i64Max := hcredit ▸ hfits
    have hn48 : n < 48 := by omega
    have hn1 : n ≠ 1 := by omega
    obtain ⟨hpos, htotal⟩ := setAmounts_wellFormed hn48 hn1 hlow hhigh
    exact ⟨c, hc, _, rfl, rfl, hpos, htotal.trans hcredit⟩

/-- What the search hands out: nothing wrong where it ends well, and elsewhere nothing else. -/
theorem kernelSearch_wellFormed {all : List COutput} {found : Bool}
    (hcoins : ∀ e ∈ coins, e.1 ∈ all ∧ 0 ≤ e.1.out.nValue ∧ e.1.out.nValue ≤ i64Max) :
    (EndsWell W onlyP2PK nHeight found coins → ∀ vin vout,
        kernelSearch P M W onlyP2PK nHeight found coins = some (vin, vout) →
          WellFormedStake P M all nHeight ⟨0, vin, vout⟩) ∧
      (¬ EndsWell W onlyP2PK nHeight found coins → ∃ vin vout,
        kernelSearch P M W onlyP2PK nHeight found coins = some (vin, vout) ∧ vin.length ≤ 1 ∧
          ¬ WellFormedStake P M all nHeight ⟨0, vin, vout⟩) := by
  induction coins generalizing found with
  | nil =>
    cases found with
    | false => exact ⟨fun _ vin vout h => (by cases h), fun hbad => absurd rfl hbad⟩
    | true =>
      refine ⟨fun h => (by cases h), fun _ => ⟨[], stakeHead P nHeight, rfl, Nat.zero_le 1, ?_⟩⟩
      rintro ⟨c, -, outs, hvin, -⟩
      cases hvin
  | cons head rest ih =>
    have hrest : ∀ e ∈ rest, e.1 ∈ all ∧ 0 ≤ e.1.out.nValue ∧ e.1.out.nValue ≤ i64Max :=
      fun e he => hcoins e (List.mem_cons_of_mem head he)
    obtain ⟨c, attempt⟩ := head
    obtain ⟨hc, hrange⟩ := hcoins _ (.head _)
    cases attempt with
    | interrupted => exact ⟨fun _ vin vout h => (by cases h), fun hbad => absurd trivial hbad⟩
    | noKernel => exact ih hrest
    | kernel =>
      rw [EndsWell, kernelSearch]
      cases houts : createTxOuts W onlyP2PK c.out.scriptPubKey (stakeCredit nHeight c) with
      | none =>
        have hscript : (stakeScript W onlyP2PK c.out.scriptPubKey).isNone = true := by
          rw [createTxOuts, Option.map_eq_none_iff] at houts
          rw [houts]
          rfl
        rw [if_pos hscript]
        exact ih hrest
      | some outs =>
        have hscript : ¬ (stakeScript W onlyP2PK c.out.scriptPubKey).isNone = true := by
          intro hnone
          rw [createTxOuts, Option.isNone_iff_eq_none.mp hnone] at houts
          cases houts
        have hsize := @serializeSize_stakeVout P _ _ _ _ _ houts
        have hfirst := @firstKernel_iff P M _ _ _ _ _ _ hc hrange houts
        rw [if_neg hscript]
        dsimp only
        rw [if_neg (Nat.not_le.mpr hsize), ← hfirst]
        constructor
        · intro hwell vin vout h
          cases h
          exact hwell
        · intro hbad
          exact ⟨_, _, rfl, le_refl 1, hbad⟩

/-- Only the inputs' outpoints and the outputs matter. -/
theorem WellFormedStake.congr {all : List COutput} {tx tx' : Transaction}
    (h : WellFormedStake P M all nHeight tx) (hvin : tx'.vin.map TxIn.prevout = tx.vin.map TxIn.prevout)
    (hvout : tx'.vout = tx.vout) : WellFormedStake P M all nHeight tx' := by
  unfold WellFormedStake at h ⊢
  rwa [hvin, hvout]

end

/-- **When a created coinstake is well formed**: if and only if the search does not end behind a kernel
that cannot be paid to again, and the first kernel that can has a credit that fits and is not split in
two. Where it is so the wallet hands out nothing else; where it is not, it does as soon as it can sign. -/
theorem wellFormedStake_iff {P : ChainParams} {M : Payments} {W : Wallet} {onlyP2PK : Bool} {nHeight : Nat}
    {coins : List (COutput × Attempt)} (getHash : List TxIn → List TxOut → Nat)
    (hcoins : ∀ e ∈ coins, 0 ≤ e.1.out.nValue ∧ e.1.out.nValue ≤ i64Max) :
    (EndsWell W onlyP2PK nHeight false coins → ∀ tx,
        createCoinStake P M W onlyP2PK nHeight getHash coins = some tx →
          WellFormedStake P M (coins.map Prod.fst) nHeight tx) ∧
      ((∀ vin vout, (W.sign vin vout).isSome = true) →
        (∀ tx, createCoinStake P M W onlyP2PK nHeight getHash coins = some tx →
          WellFormedStake P M (coins.map Prod.fst) nHeight tx) →
        EndsWell W onlyP2PK nHeight false coins) := by
  have hmem : ∀ e ∈ coins, e.1 ∈ coins.map Prod.fst ∧ 0 ≤ e.1.out.nValue ∧ e.1.out.nValue ≤ i64Max :=
    fun e he => ⟨List.mem_map_of_mem he, hcoins e he⟩
  obtain ⟨hwell, hbad⟩ := @kernelSearch_wellFormed P M W onlyP2PK nHeight _ _ false hmem
  constructor
  · intro hends tx h
    simp only [createCoinStake, do_eq_some] at h
    obtain ⟨⟨vin, vout⟩, hsearch, vin', hsign, h⟩ := h
    cases h
    exact (hwell hends vin vout hsearch).congr (sign_prevouts hsign) rfl
  · intro hsigns hall
    by_contra hends
    obtain ⟨vin, vout, hsearch, hlen, hill⟩ := hbad hends
    have hsign : ∃ vin', (vin.mapM fun i => (W.sign vin vout).map fun sig => { i with scriptSig := sig }) =
        some vin' := by
      obtain ⟨sig, hsig⟩ := Option.isSome_iff_exists.mp (hsigns vin vout)
      rw [hsig]
      cases vin with
      | nil => exact ⟨[], rfl⟩
      | cons i rest =>
        obtain rfl : rest = [] := List.eq_nil_of_length_eq_zero (by simpa using hlen)
        exact ⟨_, rfl⟩
    obtain ⟨vin', hsign⟩ := hsign
    have htx : createCoinStake P M W onlyP2PK nHeight getHash coins = some ⟨getHash vin' vout, vin', vout⟩ := by
      simp [createCoinStake, hsearch, hsign]
    exact hill ((hall _ htx).congr (sign_prevouts hsign).symm rfl)

theorem superStake_wellFormed :
    WellFormedStake mainParams (budgetNode 5000000) [stakedCoin] 300 (superStake 5000000) := by
  have hcoins : ∀ e ∈ [(stakedCoin, Attempt.kernel)], 0 ≤ e.1.out.nValue ∧ e.1.out.nValue ≤ i64Max := by
    intro e he
    rw [List.mem_singleton.mp he]
    decide
  have hends : EndsWell plainWallet true 300 false [(stakedCoin, .kernel)] := by
    rw [EndsWell, if_neg (by decide +kernel)]
    decide
  exact (wellFormedStake_iff (fun _ _ => 100) hcoins).1 hends _ (by decide +kernel)

/-- **Two outputs, and no input**: with a threshold of 500 coins the stake of a thousand gets two outputs,
the first without a value; and a kernel that nothing can be paid to leaves a transaction without inputs. -/
theorem stake_illFormed :
    (¬ ∀ tx, createCoinStake mainParams (budgetNode 5000000) { plainWallet with
          nStakeSplitThreshold := 50000000000 } true 300 (fun _ _ => 0) [(stakedCoin, .kernel)] = some tx →
        WellFormedStake mainParams (budgetNode 5000000) [stakedCoin] 300 tx) ∧
    ¬ ∀ tx, createCoinStake mainParams (budgetNode 5000000) plainWallet true 300 (fun _ _ => 0)
          [(⟨7, 0, ⟨100000000000, [0x6a]⟩⟩, .kernel)] = some tx →
        WellFormedStake mainParams (budgetNode 5000000) [⟨7, 0, ⟨100000000000, [0x6a]⟩⟩] 300 tx := by
  constructor
  · intro hall
    have hone := hall _ rfl
    exact ((@firstKernel_iff _ _ _ true _ _ _ _ (.head _) ⟨by decide, by decide⟩ rfl).1 hone).2
      (by decide)
  · intro hall
    obtain ⟨c, -, outs, hvin, -⟩ := hall _ rfl
    cases hvin

end Rapids.Chain
