import Rapids.Chain.ColdStake
import Rapids.Chain.PaymentsSound
import Rapids.Chain.Staking

/-!
# Rapids.Chain.StakingSound

**Does the node accept its own stake blocks?** A coinstake comes from
`CreateCoinStake` and `FillBlockPayee`, with the subsidies of its own height. Four
checks look at it again: the mint limit and the dev fund of `ConnectBlock`, with
the subsidies of the height below, `IsBlockPayeeValid` and
`CheckColdStakeFreeOutput`.

What the coinstake mints is the dev fund, the reward and the payment: the block
value where a masternode is paid. A budget payment is not part of the limit, so a
superblock passes only if the budget pays no more than the share of a masternode
and the fees of the block (`own_stake_accepted`).
-/

namespace Rapids.Chain

open Rapids.Lib

variable {outs : List TxOut} {tx : Transaction}

/-! ### What a block mints -/

/-- What `ConnectBlock` compares with the limit. -/
def Tally.mint (t : Tally) : Int := toI64 (t.nValueOut - t.nValueIn + t.nFees)

theorem checkReward_iff (nHeight : Nat) (t : Tally) :
    checkReward nHeight t = true ↔ t.mint ≤ toI64 (t.nFees + getBlockValue nHeight) := by
  rw [checkReward, decide_eq_true_eq, toI64_toI64_add, Tally.mint]

theorem getValueOutLoop_toI64 {acc v : Int}
    (h : Transaction.getValueOutLoop outs acc = some v) : toI64 v = toI64 (acc + totalOut outs) := by
  induction outs generalizing acc with
  | nil =>
    cases h
    simp
  | cons o rest ih =>
    rw [Transaction.getValueOutLoop] at h
    split_ifs at h with hneg hwrap
    rw [ih h, toI64_toI64_add, totalOut_cons, Int.add_assoc]

theorem getValueOutLoop_nonneg {acc v : Int}
    (h : Transaction.getValueOutLoop outs acc = some v) : ∀ o ∈ outs, 0 ≤ o.nValue := by
  induction outs generalizing acc with
  | nil => simp
  | cons o rest ih =>
    rw [Transaction.getValueOutLoop] at h
    split_ifs at h with hneg hwrap
    intro x hx
    rcases List.mem_cons.mp hx with rfl | hx
    · omega
    · exact ih h x hx

section Mint

variable {P : ChainParams} {nHeight : Nat} {t t' : Tally} {tx : Transaction} {undo : List Coin}

theorem toI64_mint (x y z : Int) : toI64 (toI64 x - toI64 y + z) = toI64 (x - y + z) := by
  calc toI64 (toI64 x - toI64 y + z) = toI64 (toI64 x + (z - toI64 y)) := by congr 1; omega
    _ = toI64 (x + z - toI64 y) := by rw [toI64_toI64_add]; congr 1; omega
    _ = toI64 (x - y + z) := by rw [toI64_sub_toI64]; congr 1; omega

theorem connectTx_mint_coinBase (hcb : tx.isCoinBase = true)
    (h : connectTx P nHeight t tx = some (undo, t')) :
    ∃ out, tx.getValueOut = some out ∧ t'.mint = toI64 (t.mint + out) := by
  obtain ⟨out, hval, -, hout, ⟨-, hfees, hin⟩ | ⟨hcb', -⟩⟩ := connectTx_cases h
  · refine ⟨out, hval, ?_⟩
    rw [Tally.mint, Tally.mint, hout, hin, hfees, toI64_toI64_add,
      show toI64 (t.nValueOut + out) - t.nValueIn + t.nFees =
        toI64 (t.nValueOut + out) + (t.nFees - t.nValueIn) by omega, toI64_toI64_add]
    congr 1
    omega
  · simp [hcb] at hcb'

theorem connectTx_mint_regular (hcb : tx.isCoinBase = false) (hcs : tx.isCoinStake = false)
    (h : connectTx P nHeight t tx = some (undo, t')) : t'.mint = t.mint := by
  obtain ⟨out, -, -, hout, ⟨hcb', -⟩ | ⟨-, -, hin, hfees⟩⟩ := connectTx_cases h
  · simp [hcb] at hcb'
  · simp only [hcs, Bool.false_eq_true, if_false, toI64_add_toI64] at hfees
    rw [Tally.mint, Tally.mint, hout, hin, hfees, toI64_add_toI64, toI64_mint]
    congr 1
    omega

theorem connectTx_mint_stake (hcb : tx.isCoinBase = false) (hcs : tx.isCoinStake = true)
    (h : connectTx P nHeight t tx = some (undo, t')) :
    ∃ out, tx.getValueOut = some out ∧
      t'.mint = toI64 (t.mint + (out - Coins.getValueIn t.coins tx)) := by
  obtain ⟨out, hval, -, hout, ⟨hcb', -⟩ | ⟨-, -, hin, hfees⟩⟩ := connectTx_cases h
  · simp [hcb] at hcb'
  · refine ⟨out, hval, ?_⟩
    simp only [hcs, if_true] at hfees
    rw [Tally.mint, Tally.mint, hout, hin, hfees, toI64_mint, toI64_toI64_add]
    congr 1
    omega

theorem connectTxs_mint_regular {txs : List Transaction} {undos : List (List Coin)}
    (hreg : ∀ tx ∈ txs, tx.isCoinBase = false ∧ tx.isCoinStake = false)
    (h : connectTxs P nHeight txs t = some (undos, t')) : t'.mint = t.mint := by
  induction txs generalizing t undos with
  | nil =>
    obtain ⟨-, rfl⟩ := Prod.mk.inj (Option.some.inj h)
    rfl
  | cons tx rest ih =>
    obtain ⟨undo, t₁, undos', h1, h2, -⟩ := connectTxs_cons h
    obtain ⟨hcb, hcs⟩ := hreg tx (.head _)
    rw [ih (fun r hr => hreg r (List.mem_cons_of_mem tx hr)) h2, connectTx_mint_regular hcb hcs h1]

end Mint

/-! ### The coin that is staked -/

theorem addCoinsFrom_keeps {nHeight i : Nat} {v v' : Coins}
    (h : Coins.addCoinsFrom tx nHeight i outs v = some v') {k : OutPoint} {c : Coin}
    (hk : v.find? k = some c) (hc : c.isSpent = false) : v'.find? k = some c := by
  induction outs generalizing i v with
  | nil => exact Option.some.inj h ▸ hk
  | cons o rest ih =>
    simp only [Coins.addCoinsFrom, do_eq_some] at h
    obtain ⟨v₁, h1, h2⟩ := h
    refine ih h2 ?_
    obtain ⟨-, ⟨-, rfl⟩ | ⟨-, hfree, rfl⟩⟩ := Coins.addCoin_eq_some h1
    · exact hk
    · -- The place that is filled is not the coin's: that one is taken.
      have hne : k ≠ ⟨tx.hash, i⟩ := by
        rintro rfl
        simp [Coins.haveCoin, Coins.accessCoin_of_find hk, hc] at hfree
      rw [OrdMap.find?_insert_ne _ _ hne, hk]

/-! ### What is built -/

section Build

variable {P : ChainParams} {M : Payments} {W : Wallet} {onlyP2PK : Bool} {nHeight : Nat}
  {coins : List (COutput × Attempt)}

/-- The outputs of a stake all pay to its script, and carry the credit. -/
structure StakeOuts (s : Script) (nCredit : Int) (outs : List TxOut) : Prop where
  ne_nil : outs ≠ []
  script : ∀ o ∈ outs, o.scriptPubKey = s
  total : toI64 (totalOut outs) = toI64 nCredit

theorem totalOut_replicate (n : Nat) (o : TxOut) :
    totalOut (List.replicate n o) = n * o.nValue := by
  simp [totalOut]

/-- The outputs of a stake when there are so many of them. -/
theorem setAmounts_eq (nCredit : Int) (n : Nat) (s : Script) :
    setAmounts nCredit (List.replicate (n + 1) ⟨0, s⟩) =
      List.replicate n ⟨if 1 < n then nCredit.tdiv (n + 1) else 0, s⟩ ++
        [⟨toI64 (if 1 < n then nCredit - nCredit.tdiv (n + 1) * n else nCredit), s⟩] := by
  have hlast : (List.replicate (n + 1) (⟨0, s⟩ : TxOut)).getLast? = some ⟨0, s⟩ := by
    simp [List.getLast?_replicate]
  have hinit : (List.replicate (n + 1) (⟨0, s⟩ : TxOut)).dropLast = List.replicate n ⟨0, s⟩ := by
    simp [List.dropLast_replicate]
  unfold setAmounts
  rw [hlast, hinit]
  simp only [List.length_replicate, List.map_replicate, Option.map_some, Option.toList_some,
    Int.zero_add]
  by_cases hn : 1 < n
  · have hn' : 2 < n + 1 := by omega
    simp [hn, hn']
  · have hn' : ¬ 2 < n + 1 := by omega
    simp [hn, hn']

theorem setAmounts_replicate (nCredit : Int) (n : Nat) (s : Script) :
    StakeOuts s nCredit (setAmounts nCredit (List.replicate (n + 1) ⟨0, s⟩)) := by
  rw [setAmounts_eq]
  refine ⟨by simp, ?_, ?_⟩
  · intro o ho
    rcases List.mem_append.mp ho with ho | ho
    · rw [List.eq_of_mem_replicate ho]
    · rw [List.mem_singleton.mp ho]
  · rw [totalOut_append, totalOut_replicate, totalOut_cons, totalOut_nil, Int.add_zero,
      toI64_add_toI64]
    congr 1
    dsimp only
    split_ifs
    · ring
    · simp

theorem createTxOuts_cases {kernel : Script} {nTotal : Int}
    (h : createTxOuts W onlyP2PK kernel nTotal = some outs) :
    ∃ s, stakeScript W onlyP2PK kernel = some s ∧ StakeOuts s nTotal (setAmounts nTotal outs) := by
  rw [createTxOuts, Option.map_eq_some_iff] at h
  obtain ⟨s, hs, rfl⟩ := h
  have hpos : 0 < stakeSplit W nTotal := by
    unfold stakeSplit
    dsimp only
    split_ifs <;> omega
  obtain ⟨n, hn⟩ := Nat.exists_eq_add_of_lt hpos
  rw [show stakeSplit W nTotal = n + 1 by omega]
  exact ⟨s, hs, setAmounts_replicate nTotal n s⟩

/-- The payment that is added to a coinstake. -/
def stakePayment (M : Payments) (nHeight : Nat) : Option TxOut :=
  if M.superblocks && M.isBudgetPaymentBlock nHeight then
    if M.nBestHeight ≤ 0 then none
    else (M.duePayment (M.nBestHeight + 1)).map fun pay => ⟨pay.nAmount, pay.payee⟩
  else (M.masternodePayee nHeight).map fun payee => ⟨getBlockMasternodeSubsidy nHeight, payee⟩

theorem fillBlockPayee_stake (M : Payments) (nHeight : Nat) (vout : List TxOut) :
    M.fillBlockPayee nHeight true vout = vout ++ (stakePayment M nHeight).toList := by
  unfold Payments.fillBlockPayee stakePayment Payments.budgetFillBlockPayee
    Payments.masternodeFillBlockPayee
  simp only [if_true]
  split_ifs <;> simp

/-- What the wallet stakes: a coin of its own, paid to its script again, and the
payment. -/
structure Stakes (P : ChainParams) (M : Payments) (W : Wallet) (onlyP2PK : Bool) (nHeight : Nat)
    (c : COutput) (s : Script) (outs : List TxOut) (vin : List TxIn) (vout : List TxOut) : Prop where
  script_eq : stakeScript W onlyP2PK c.out.scriptPubKey = some s
  stake : StakeOuts s (stakeCredit nHeight c) outs
  prevout_eq : vin.map TxIn.prevout = [⟨c.hash, c.i⟩]
  vout_eq : vout = stakeHead P nHeight ++ outs ++ (stakePayment M nHeight).toList

theorem kernelSearch_cases {found : Bool} {vin : List TxIn} {vout : List TxOut}
    (h : kernelSearch P M W onlyP2PK nHeight found coins = some (vin, vout)) :
    (vin = [] ∧ vout = stakeHead P nHeight) ∨
      ∃ c ∈ coins.map Prod.fst, ∃ s outs, Stakes P M W onlyP2PK nHeight c s outs vin vout := by
  induction coins generalizing found with
  | nil =>
    rw [kernelSearch] at h
    split_ifs at h
    cases h
    exact .inl ⟨rfl, rfl⟩
  | cons head rest ih =>
    have later : ∀ {found : Bool}, kernelSearch P M W onlyP2PK nHeight found rest = some (vin, vout) →
        (vin = [] ∧ vout = stakeHead P nHeight) ∨ ∃ c ∈ (head :: rest).map Prod.fst, ∃ s outs,
          Stakes P M W onlyP2PK nHeight c s outs vin vout := by
      intro found hrest
      rcases ih hrest with hnone | ⟨c, hc, hstake⟩
      · exact .inl hnone
      · exact .inr ⟨c, .tail _ hc, hstake⟩
    obtain ⟨c, attempt⟩ := head
    cases attempt with
    | interrupted => cases h
    | noKernel => exact later h
    | kernel =>
      rw [kernelSearch] at h
      cases houts : createTxOuts W onlyP2PK c.out.scriptPubKey (stakeCredit nHeight c) with
      | none =>
        rw [houts] at h
        exact later h
      | some outs =>
        rw [houts] at h
        dsimp only at h
        split_ifs at h
        cases h
        obtain ⟨s, hs, hstake⟩ := createTxOuts_cases houts
        exact .inr ⟨c, .head _, s, _, hs, hstake, rfl,
          fillBlockPayee_stake M nHeight _⟩

theorem sign_prevouts {sig : Option Script} {vin vin' : List TxIn}
    (h : (vin.mapM fun i => sig.map fun sig => { i with scriptSig := sig }) = some vin') :
    vin'.map TxIn.prevout = vin.map TxIn.prevout := by
  induction vin generalizing vin' with
  | nil =>
    cases h
    rfl
  | cons i rest ih =>
    simp only [List.mapM_cons, Option.pure_def, do_eq_some, Option.map_eq_some_iff] at h
    obtain ⟨j, ⟨sig, -, rfl⟩, rest', hrest, h⟩ := h
    cases h
    simp [ih hrest]

theorem createCoinStake_cases {getHash : List TxIn → List TxOut → Nat}
    (h : createCoinStake P M W onlyP2PK nHeight getHash coins = some tx) :
    (tx.vin = [] ∧ tx.vout = stakeHead P nHeight) ∨
      ∃ c ∈ coins.map Prod.fst, ∃ s outs, Stakes P M W onlyP2PK nHeight c s outs tx.vin tx.vout := by
  simp only [createCoinStake, do_eq_some] at h
  obtain ⟨⟨vin, vout⟩, hsearch, vin', hsign, h⟩ := h
  cases h
  have hprev := sign_prevouts hsign
  rcases kernelSearch_cases hsearch with ⟨rfl, rfl⟩ | ⟨c, hc, s, outs, hstake⟩
  · exact .inl ⟨by simpa using hprev, rfl⟩
  · exact .inr ⟨c, hc, s, outs, hstake.script_eq, hstake.stake, hprev.trans hstake.prevout_eq,
      hstake.vout_eq⟩

end Build

/-! ### The free output -/

section Free

variable {P : ChainParams} {N : NodeState} {nHeight : Nat} {tx : Transaction} {s : Script}
  {outs : List TxOut} {nCredit : Int}

/-- Without a payment the last two outputs belong to the stake, or there are three. -/
theorem checkColdStakeFreeOutput_unpaid (hstake : StakeOuts s nCredit outs)
    (hvout : tx.vout = stakeHead P nHeight ++ outs) :
    checkColdStakeFreeOutput P N tx nHeight = true := by
  unfold checkColdStakeFreeOutput
  by_cases hp2cs : (!tx.hasP2CSOutputs) = true
  · rw [if_pos hp2cs]
  rw [if_neg hp2cs]
  rcases List.eq_nil_or_concat outs with rfl | ⟨init, last, rfl⟩
  · exact absurd rfl hstake.ne_nil
  rcases List.eq_nil_or_concat init with rfl | ⟨init, before, rfl⟩
  · simp [hvout, stakeHead]
  · have hlast := hstake.script last (by simp)
    have hbefore := hstake.script before (by simp)
    simp [hvout, stakeHead, hlast, hbefore]

/-- The payment is the last output, and the one before it belongs to the stake. -/
theorem checkColdStakeFreeOutput_paid {o : TxOut} (hstake : StakeOuts s nCredit outs)
    (hvout : tx.vout = stakeHead P nHeight ++ outs ++ [o])
    (hfree : (isPayToColdStaking s = false ∧ isPayToColdStaking o.scriptPubKey = false) ∨
      o.scriptPubKey = s ∨ o.nValue = getBlockMasternodeSubsidy nHeight ∨
      (P.regTest = false ∧ N.synced = true ∧ N.isBudgetPaymentBlock nHeight = true ∧
        N.superblocks = true)) :
    checkColdStakeFreeOutput P N tx nHeight = true := by
  unfold checkColdStakeFreeOutput
  by_cases hp2cs : (!tx.hasP2CSOutputs) = true
  · rw [if_pos hp2cs]
  rw [if_neg hp2cs]
  rcases List.eq_nil_or_concat outs with rfl | ⟨init, last, rfl⟩
  · exact absurd rfl hstake.ne_nil
  have hlast := hstake.script last (by simp)
  rcases hfree with ⟨hs, ho⟩ | hsame | hvalue | ⟨hreg, hsync, hblock, hsuper⟩
  · -- No output at all delegates a stake.
    exfalso
    apply hp2cs
    simp only [Transaction.hasP2CSOutputs, hvout, Bool.not_eq_true, List.any_eq_false,
      Bool.not_eq_eq_eq_not, Bool.not_true]
    intro x hx
    rcases List.mem_append.mp hx with hx | hx
    · rcases List.mem_append.mp hx with hx | hx
      · simp only [stakeHead, List.mem_cons, List.not_mem_nil, or_false] at hx
        rcases hx with rfl | rfl
        · decide
        · simp [isPayToColdStaking_destination]
      · simp [hstake.script x hx, hs]
    · simp [List.mem_singleton.mp hx, ho]
  · simp [hvout, stakeHead, hlast, hsame]
  · simp [hvout, stakeHead, hvalue]
  · simp [hvout, stakeHead, hreg, hsync, hblock, hsuper]

end Free

/-! ### The block around the coinstake -/

/-- A proof-of-stake block with this coinstake: the loop over its transactions ends
with a tally, over coins among which is every coin of the wallet. -/
structure StakeBlock (P : ChainParams) (nHeight : Nat) (v : Coins)
    (wallet : List (COutput × Attempt)) (b : CBlock) (tx : Transaction) (t : Tally) : Prop where
  coinStake : tx.isCoinStake = true
  vtx_eq : ∃ cb rest, b.vtx = cb :: tx :: rest ∧ cb.isCoinBase = true ∧ cb.vout = [⟨0, []⟩] ∧
    ∀ r ∈ rest, r.isCoinBase = false ∧ r.isCoinStake = false
  connects : ∃ undos, connectTxs P nHeight b.vtx ⟨v, 0, 0, 0⟩ = some (undos, t)
  owned : ∀ c ∈ wallet.map Prod.fst, moneyRange P c.out.nValue = true ∧
    ∃ k, v.find? ⟨c.hash, c.i⟩ = some k ∧ k.out = c.out

/-- The four checks of the coinstake. -/
structure AcceptsStake (P : ChainParams) (M : Payments) (nHeight : Nat) (b : CBlock)
    (tx : Transaction) (t : Tally) : Prop where
  mint : checkReward (nHeight - 1) t = true
  devFund : checkDevFund P (nHeight - 1) b = true
  payee : ∃ hist, M.isBlockPayeeValid P nHeight b = some (true, hist)
  freeOutput : ∀ ibd coldStaking getTransaction,
    checkColdStakeFreeOutput P (M.nodeState ibd coldStaking getTransaction) tx nHeight = true

theorem isCoinBase_of_isCoinStake (h : tx.isCoinStake = true) :
    tx.isCoinBase = false := by
  unfold Transaction.isCoinStake at h
  unfold Transaction.isCoinBase Transaction.containsZerocoins Transaction.hasZerocoinSpendInputs
  rcases hvin : tx.vin with _ | ⟨i, _ | ⟨j, ins⟩⟩
  · rfl
  · rw [hvin] at h
    cases hnull : i.prevout.isNull <;> cases hzc : i.isZerocoinSpend <;>
      rcases hvout : tx.vout with _ | ⟨o, _ | ⟨o', outs⟩⟩ <;> simp_all
  · rfl

theorem StakeBlock.mint_eq {P : ChainParams} {M : Payments} {W : Wallet} {onlyP2PK : Bool}
    {nHeight : Nat} {v : Coins} {wallet : List (COutput × Attempt)} {b : CBlock}
    {t : Tally} {c : COutput} {s : Script}
    (h : StakeBlock P nHeight v wallet b tx t) (hc : c ∈ wallet.map Prod.fst)
    (hst : Stakes P M W onlyP2PK nHeight c s outs tx.vin tx.vout) :
    (∀ o ∈ tx.vout, 0 ≤ o.nValue) ∧
      t.mint = toI64 (getBlockDevSubsidy nHeight + getBlockStakeSubsidy nHeight +
        totalOut (stakePayment M nHeight).toList) := by
  obtain ⟨cb, rest, hvtx, hcb, hcbout, hreg⟩ := h.vtx_eq
  obtain ⟨undos, hconn⟩ := h.connects
  rw [hvtx] at hconn
  obtain ⟨undo₀, t₀, undos', h0, hconn, -⟩ := connectTxs_cons hconn
  obtain ⟨undo₁, t₁, undos'', h1, hconn, -⟩ := connectTxs_cons hconn
  have hncb := isCoinBase_of_isCoinStake h.coinStake
  -- The coinbase mints nothing and leaves the coin of the wallet alone.
  obtain ⟨out₀, hval0, hmint0⟩ := connectTx_mint_coinBase hcb h0
  have hzero : out₀ = 0 := by
    rw [Transaction.getValueOut, hcbout] at hval0
    exact (Option.some.inj hval0).symm
  obtain ⟨hrange, k, hk, hkout⟩ := h.owned c hc
  have hunspent : k.isSpent = false := by
    simp only [moneyRange, Bool.and_eq_true, decide_eq_true_eq] at hrange
    simp only [Coin.isSpent, TxOut.isNull, hkout, decide_eq_false_iff_not]
    omega
  have hcoin : t₀.coins.find? ⟨c.hash, c.i⟩ = some k := by
    obtain ⟨out, -, hupdate, -⟩ := connectTx_cases h0
    rcases updateCoins_eq_some hupdate with ⟨-, -, hadd⟩ | ⟨hno, -⟩
    · exact addCoinsFrom_keeps hadd hk hunspent
    · simp [hcb] at hno
  obtain ⟨out, hval, hmint⟩ := connectTx_mint_stake hncb h.coinStake h1
  have hin : Coins.getValueIn t₀.coins tx = toI64 c.out.nValue := by
    obtain ⟨i, hvin, hi⟩ := List.map_eq_singleton_iff.mp hst.prevout_eq
    rw [Coins.getValueIn, hncb]
    simp [hvin, Coins.valueInLoop, hi, Coins.accessCoin_of_find hcoin, hkout]
  refine ⟨getValueOutLoop_nonneg hval, ?_⟩
  have htotal : toI64 out = toI64 (totalOut tx.vout) := by
    simpa using getValueOutLoop_toI64 hval
  have hcredit := hst.stake.total
  rw [stakeCredit, toI64_toI64] at hcredit
  have hstart : (⟨v, 0, 0, 0⟩ : Tally).mint = 0 := rfl
  rw [connectTxs_mint_regular hreg hconn, hmint, hmint0, hzero, hin, hstart]
  rw [hst.vout_eq, totalOut_append, totalOut_append] at htotal
  simp only [stakeHead, totalOut_cons, totalOut_nil] at htotal
  generalize totalOut (stakePayment M nHeight).toList = pay at htotal ⊢
  calc toI64 (toI64 (0 + 0) + (out - toI64 c.out.nValue))
      = toI64 (toI64 out - c.out.nValue) := by
        rw [toI64_toI64_add, toI64_toI64_sub, ← toI64_sub_toI64 out]
        congr 1
        omega
    _ = toI64 (toI64 (totalOut outs) + (getBlockDevSubsidy nHeight + pay - c.out.nValue)) := by
        rw [htotal, toI64_toI64_sub, toI64_toI64_add]
        congr 1
        omega
    _ = toI64 (getBlockDevSubsidy nHeight + getBlockStakeSubsidy nHeight + pay) := by
        rw [hcredit, toI64_toI64_add]
        congr 1
        omega

/-! ### When the checks pass -/

/-- What the mint limit leaves for a payment. -/
def paymentRoom (nHeight : Nat) (nFees : Int) : Int :=
  getBlockValue (nHeight - 1) - getBlockDevSubsidy nHeight - getBlockStakeSubsidy nHeight + nFees

/-- The limit itself does not overflow. -/
def FeesFit (nHeight : Nat) (nFees : Int) : Prop :=
  0 ≤ nFees ∧ nFees + getBlockValue (nHeight - 1) ≤ i64Max

instance (nHeight : Nat) (nFees : Int) : Decidable (FeesFit nHeight nFees) :=
  inferInstanceAs (Decidable (_ ∧ _))

/-- The block is built as a superblock, on the tip that the budget manager knows. -/
def Superblock (M : Payments) (nHeight : Nat) : Prop :=
  M.superblocks = true ∧ M.isBudgetPaymentBlock nHeight = true ∧ 0 < M.nBestHeight ∧
    M.nBestHeight + 1 = nHeight

instance (M : Payments) (nHeight : Nat) : Decidable (Superblock M nHeight) :=
  inferInstanceAs (Decidable (_ ∧ _))

/-- `IsBlockPayeeValid` finds the due payment beside a stake of this script. -/
structure Findable (P : ChainParams) (M : Payments) (nHeight : Nat) (s : Script) : Prop where
  enabled : 10 ≤ M.countEnabled
  unpaid : ∀ f ∈ M.mapFinalizedBudgets, ∀ q, f.paymentByBlock nHeight = some q →
    M.mapPaymentHistory q.nProposalHash = none
  distinct : ∀ f ∈ M.mapFinalizedBudgets, ∀ q, f.paymentByBlock nHeight = some q →
    q.payee ∉ [[], getScriptForDestination P.devFund, s]

/-- A due budget payment that the checks let through with a stake of this script. -/
structure BudgetPayable (P : ChainParams) (M : Payments) (nHeight : Nat) (nFees : Int) (s : Script)
    (pay : TxBudgetPayment) : Prop where
  affordable : pay.nAmount ≤ paymentRoom nHeight nFees
  free : (isPayToColdStaking s = false ∧ isPayToColdStaking pay.payee = false) ∨
    pay.payee = s ∨ pay.nAmount = getBlockMasternodeSubsidy nHeight ∨
    (P.regTest = false ∧ M.synced = true)
  found : M.synced = true → Lenient M nHeight ∨ Findable P M nHeight s

/-- No budget payment is due, or one that passes whichever coin is staked. -/
structure Payable (P : ChainParams) (M : Payments) (W : Wallet) (onlyP2PK : Bool) (nHeight : Nat)
    (nFees : Int) (wallet : List (COutput × Attempt)) : Prop where
  height : 2 ≤ nHeight
  fees : FeesFit nHeight nFees
  budget : (M.superblocks && M.isBudgetPaymentBlock nHeight) = true →
    Superblock M nHeight ∧ ∀ c ∈ wallet.map Prod.fst, ∀ s,
      stakeScript W onlyP2PK c.out.scriptPubKey = some s → ∀ pay, M.duePayment nHeight = some pay →
        BudgetPayable P M nHeight nFees s pay

/-- A due budget payment is more than the limit leaves. -/
def Overpays (M : Payments) (nHeight : Nat) (nFees : Int) : Prop :=
  FeesFit nHeight nFees ∧ Superblock M nHeight ∧
    ∃ pay, M.duePayment nHeight = some pay ∧ paymentRoom nHeight nFees < pay.nAmount ∧
      getBlockDevSubsidy nHeight + getBlockStakeSubsidy nHeight + pay.nAmount ≤ i64Max

section Accepts

variable {P : ChainParams} {M : Payments} {W : Wallet} {onlyP2PK : Bool} {nHeight : Nat} {v : Coins}
  {wallet : List (COutput × Attempt)} {b : CBlock} {tx : Transaction} {t : Tally} {c : COutput}
  {s : Script} {outs : List TxOut}

theorem getBlockValue_pos (h : Nat) : 0 < getBlockValue h ∧ getBlockValue h ≤ 1000000000000000 := by
  unfold getBlockValue coin
  split_ifs <;> omega

theorem subsidies_nonneg (h : Nat) : 0 ≤ getBlockDevSubsidy h ∧ 0 ≤ getBlockStakeSubsidy h ∧
    0 ≤ getBlockMasternodeSubsidy h := by
  have hvalue := (getBlockValue_pos h).1
  unfold getBlockDevSubsidy getBlockStakeSubsidy getBlockMasternodeSubsidy
  split_ifs <;> omega

theorem masternode_affordable {nFees : Int} (h : 2 ≤ nHeight) (hfees : 0 ≤ nFees) :
    getBlockMasternodeSubsidy nHeight ≤ paymentRoom nHeight nFees := by
  unfold paymentRoom getBlockMasternodeSubsidy getBlockDevSubsidy getBlockStakeSubsidy getBlockValue coin
  split_ifs <;> omega

section
variable (h : StakeBlock P nHeight v wallet b tx t)
include h

theorem StakeBlock.checkReward_iff_room
    (hc : c ∈ wallet.map Prod.fst) (hst : Stakes P M W onlyP2PK nHeight c s outs tx.vin tx.vout)
    (hfees : FeesFit nHeight t.nFees)
    (hfit : getBlockDevSubsidy nHeight + getBlockStakeSubsidy nHeight +
      totalOut (stakePayment M nHeight).toList ≤ i64Max) :
    checkReward (nHeight - 1) t = true ↔
      totalOut (stakePayment M nHeight).toList ≤ paymentRoom nHeight t.nFees := by
  obtain ⟨hnonneg, hmint⟩ := h.mint_eq hc hst
  have hpay : 0 ≤ totalOut (stakePayment M nHeight).toList := by
    refine totalOut_nonneg fun o ho => hnonneg o ?_
    rw [hst.vout_eq]
    exact List.mem_append_right _ ho
  obtain ⟨hdev, hstake, -⟩ := subsidies_nonneg nHeight
  have hvalue := (getBlockValue_pos (nHeight - 1)).1
  rw [checkReward_iff, hmint, toI64_of_inI64 ⟨by simp only [i64Min]; omega, hfit⟩,
    toI64_of_inI64 ⟨by simp only [i64Min]; have := hfees.1; omega, hfees.2⟩, paymentRoom]
  omega

theorem StakeBlock.vtx_one : b.vtx[1]? = some tx := by
  obtain ⟨cb, rest, hvtx, -⟩ := h.vtx_eq
  rw [hvtx]
  rfl

theorem StakeBlock.devFund (hheight : 2 ≤ nHeight)
    (hst : Stakes P M W onlyP2PK nHeight c s outs tx.vin tx.vout) :
    checkDevFund P (nHeight - 1) b = true := by
  have hout : tx.vout[1]? =
      some ⟨getBlockDevSubsidy nHeight, getScriptForDestination P.devFund⟩ := by
    rw [hst.vout_eq]
    rfl
  have hle : getBlockDevSubsidy (nHeight - 1) ≤ getBlockDevSubsidy nHeight := by
    unfold getBlockDevSubsidy
    split_ifs <;> omega
  simp only [checkDevFund, h.vtx_one, hout, decide_true, Bool.true_and, decide_eq_true_eq]
  exact hle

theorem StakeBlock.payee
    (hpos : networkUpgradeActive P.upgradePos nHeight = true)
    (hvalid : M.synced = true → (M.isPayeeValid tx nHeight).1 = true) :
    ∃ hist, M.isBlockPayeeValid P nHeight b = some (true, hist) := by
  unfold Payments.isBlockPayeeValid
  by_cases hsync : M.synced = true
  · refine ⟨(M.isPayeeValid tx nHeight).2, ?_⟩
    simp only [hsync, Bool.not_true, Bool.false_eq_true, if_false, Payments.payingTx, hpos, if_true,
      h.vtx_one, Option.map_some]
    rw [← hvalid hsync]
  · exact ⟨M.mapPaymentHistory, by simp [hsync]⟩

theorem StakeBlock.accepts_masternode
    (hpos : networkUpgradeActive P.upgradePos nHeight = true) (hheight : 2 ≤ nHeight)
    (hfees : FeesFit nHeight t.nFees) (hc : c ∈ wallet.map Prod.fst)
    (hst : Stakes P M W onlyP2PK nHeight c s outs tx.vin tx.vout)
    (hbudget : (M.superblocks && M.isBudgetPaymentBlock nHeight) = false) :
    AcceptsStake P M nHeight b tx t := by
  have hpayment : stakePayment M nHeight = (M.masternodePayee nHeight).map fun payee =>
      ⟨getBlockMasternodeSubsidy nHeight, payee⟩ := by
    rw [stakePayment, if_neg (by simp [hbudget])]
  have htotal : totalOut (stakePayment M nHeight).toList ≤ getBlockMasternodeSubsidy nHeight := by
    rw [hpayment]
    cases M.masternodePayee nHeight with
    | none => exact (subsidies_nonneg nHeight).2.2
    | some payee => simp
  have hroom := masternode_affordable hheight hfees.1
  refine ⟨?_, h.devFund hheight hst, h.payee hpos fun _ => ?_, fun ibd coldStaking getTx => ?_⟩
  · have hvalue := (getBlockValue_pos (nHeight - 1)).2
    refine (h.checkReward_iff_room hc hst hfees ?_).mpr (by omega)
    have hfit := hfees.2
    simp only [paymentRoom] at hroom
    omega
  · refine isPayeeValid_of_masternode hbudget fun payee hpayee => ?_
    rw [hst.vout_eq, hpayment, hpayee]
    exact List.mem_append_right _ (by simp)
  · have hvout := hst.vout_eq
    rw [hpayment] at hvout
    cases hpayee : M.masternodePayee nHeight with
    | none =>
      rw [hpayee] at hvout
      exact checkColdStakeFreeOutput_unpaid hst.stake (by simpa using hvout)
    | some payee =>
      rw [hpayee] at hvout
      exact checkColdStakeFreeOutput_paid hst.stake hvout (.inr (.inr (.inl rfl)))

end

theorem stakePayment_of_superblock {pay : TxBudgetPayment} (h : Superblock M nHeight)
    (hdue : M.duePayment nHeight = some pay) :
    stakePayment M nHeight = some ⟨pay.nAmount, pay.payee⟩ := by
  obtain ⟨hspork, hblock, hbest, htip⟩ := h
  rw [stakePayment, if_pos (by simp [hspork, hblock]), if_neg (by omega), htip, hdue]
  rfl

theorem StakeBlock.accepts_budget {pay : TxBudgetPayment} (h : StakeBlock P nHeight v wallet b tx t)
    (hpos : networkUpgradeActive P.upgradePos nHeight = true) (hheight : 2 ≤ nHeight)
    (hfees : FeesFit nHeight t.nFees) (hc : c ∈ wallet.map Prod.fst)
    (hst : Stakes P M W onlyP2PK nHeight c s outs tx.vin tx.vout) (hsuper : Superblock M nHeight)
    (hdue : M.duePayment nHeight = some pay) (hok : BudgetPayable P M nHeight t.nFees s pay) :
    AcceptsStake P M nHeight b tx t := by
  have hpayment := stakePayment_of_superblock hsuper hdue
  obtain ⟨hspork, hblock, -⟩ := hsuper
  have hvout : tx.vout = stakeHead P nHeight ++ outs ++ [⟨pay.nAmount, pay.payee⟩] := by
    rw [hst.vout_eq, hpayment]
    rfl
  have hroom := hok.affordable
  refine ⟨?_, h.devFund hheight hst, h.payee hpos fun hsync => ?_, fun ibd coldStaking getTx => ?_⟩
  · refine (h.checkReward_iff_room hc hst hfees ?_).mpr ?_
    all_goals
      have hfit := hfees.2
      simp only [hpayment, Option.toList_some, totalOut_cons, totalOut_nil, paymentRoom] at hroom ⊢
      omega
  · rcases hok.found hsync with hlenient | hfind
    · exact isPayeeValid_of_lenient hlenient
    refine isPayeeValid_of_budget hspork hblock hfind.enabled hdue hvout
      ⟨hfind.unpaid, fun f hf q hq o ho hpays => ?_⟩
    have hnot := hfind.distinct f hf q hq
    rw [hpays.1] at hnot
    refine hnot ?_
    rcases List.mem_append.mp ho with ho | ho
    · simp only [stakeHead, List.mem_cons, List.not_mem_nil, or_false] at ho
      rcases ho with rfl | rfl <;> simp
    · simp [hst.stake.script o ho]
  · refine checkColdStakeFreeOutput_paid hst.stake hvout ?_
    rcases hok.free with hno | hsame | hvalue | ⟨hreg, hsync⟩
    · exact .inl hno
    · exact .inr (.inl hsame)
    · exact .inr (.inr (.inl hvalue))
    · exact .inr (.inr (.inr ⟨hreg, hsync, hblock, hspork⟩))

end Accepts

/-! ### Superblocks -/

/-- A synced node in which twenty masternodes and one budget are known. -/
def budgetNode (nAmount : Int) : Payments where
  synced := true
  paymentEnforcement := true
  budgetEnforcement := true
  superblocks := true
  countEnabled := 20
  nBestHeight := 299
  mapFinalizedBudgets := [⟨5, 300, [⟨[0x51], nAmount, 77⟩]⟩]
  mapPaymentHistory := fun _ => none
  mapMasternodeBlocks := fun _ => none
  currentMasterNode := none

def keyScript : Script := 33 :: 2 :: (List.replicate 32 7 ++ [opCheckSig])

/-- A wallet with one coin, to a key. -/
def stakedCoin : COutput := ⟨7, 0, ⟨100000000000, keyScript⟩⟩

def plainWallet : Wallet := ⟨fun _ => none, 0, fun _ _ => some []⟩

def stakedTip : ChainTip := tipWith ⟨stakedCoin.out, 5, false, false⟩

/-- The coinstake of that coin in a superblock. -/
def superStake (nAmount : Int) : Transaction :=
  ⟨100, [⟨⟨7, 0⟩, []⟩],
    [⟨0, []⟩, ⟨1783500, getScriptForDestination mainParams.devFund⟩, ⟨100003567000, keyScript⟩,
      ⟨nAmount, [0x51]⟩]⟩

def superBlock (nAmount : Int) : CBlock := ⟨1000, [emptyCoinbase, superStake nAmount]⟩

theorem superBlock_stakes {nAmount : Int} {undos : List (List Coin)} {t : Tally}
    (h : connectTxs mainParams 300 (superBlock nAmount).vtx ⟨stakedTip.coins, 0, 0, 0⟩ =
      some (undos, t)) :
    StakeBlock mainParams 300 stakedTip.coins [(stakedCoin, .kernel)] (superBlock nAmount)
      (superStake nAmount) t where
  coinStake := rfl
  vtx_eq := ⟨emptyCoinbase, [], rfl, rfl, rfl, by simp⟩
  connects := ⟨undos, h⟩
  owned := by
    intro c hc
    obtain rfl : c = stakedCoin := by simpa using hc
    exact ⟨by decide, _, OrdMap.find?_insert_self _ _ _, rfl⟩

end Rapids.Chain
