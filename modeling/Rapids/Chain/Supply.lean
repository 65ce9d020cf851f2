import Rapids.Chain.ConnectSound
import Rapids.Lib.Run

/-!
# Rapids.Chain.Supply

**The supply of a chain**: how much value its unspent coins hold, and what
`nMoneySupply` says.

Value comes into a block by its coinbase and its coinstakes, and leaves it as
fees, unspendable outputs and what the coinstakes spend. `connectTxs_sums` says so
exactly for the loop of `ConnectBlock`, whose own sums are these modulo `2^64`.
What bounds the exact sums is the maturity of coinbases and coinstakes: no coin
that a block generates is spent in it, so fees and staked coins together are at
most the value that was there before (`ripeValue`).

The reward check then limits what a block generates, provided its sum does not
wrap. A block with one coinstake cannot reach that; a proof-of-work block with
several can.
-/

namespace Rapids.Chain

open Rapids.Lib OrdMap

variable {v : Coins}

/-! ### Weighted sums of coins -/

namespace Coins

/-- The sum of a weight over all coins. -/
def sumCoins (w : Coin → Int) (v : Coins) : Int := v.sumBy fun _ c => w c

/-- The value of all unspent coins. -/
def totalValue (v : Coins) : Int := sumCoins (fun c => c.out.nValue) v

/-- What a coin counts at a height: nothing if a block of that height generated it. -/
def ripeWeight (nHeight : Nat) (c : Coin) : Int :=
  if (c.fCoinBase || c.fCoinStake) && c.nHeight = nHeight then 0 else c.out.nValue

/-- The value of the coins that a block of the height did not generate itself. -/
def ripeValue (nHeight : Nat) (v : Coins) : Int := sumCoins (ripeWeight nHeight) v

/-- No coin has a negative value. -/
def Proper (v : Coins) : Prop := ∀ o c, v.find? o = some c → 0 ≤ c.out.nValue

theorem Stored.proper (hv : Stored v) : Proper v := fun o c h => (hv o c h).value_nonneg

theorem Proper.find_of_haveCoin_false (hv : Proper v) {o : OutPoint}
    (h : haveCoin v o = false) : v.find? o = none := by
  cases hf : v.find? o with
  | none => rfl
  | some c =>
    have := hv o c hf
    simp only [haveCoin, accessCoin_of_find hf, Coin.isSpent, TxOut.isNull, Bool.not_eq_false',
      decide_eq_true_eq] at h
    omega

theorem Proper.erase (hv : Proper v) (o : OutPoint) : Proper (v.erase o) := by
  intro o' c h
  rw [find?_erase] at h
  split_ifs at h
  exact hv o' c h

theorem Proper.spendInputs {ins : List TxIn} (hv : Proper v) :
    Proper (spendInputs ins v).2 := by
  induction ins generalizing v with
  | nil => exact hv
  | cons i rest ih => exact ih (hv.erase i.prevout)

theorem Proper.ripe_nonneg (hv : Proper v) (nHeight : Nat) :
    0 ≤ ripeValue nHeight v := by
  show 0 ≤ sumEntries (fun _ c => ripeWeight nHeight c) v.entries
  refine sumEntries_nonneg fun e he => ?_
  have := hv e.1 e.2 (mem_entries_iff.mp he)
  simp only [ripeWeight]
  split_ifs
  · exact le_refl 0
  · exact this

theorem Proper.ripe_le_total (hv : Proper v) (nHeight : Nat) :
    ripeValue nHeight v ≤ totalValue v := by
  have hle : ∀ l : List (OutPoint × Coin), (∀ e ∈ l, 0 ≤ e.2.out.nValue) →
      sumEntries (fun _ c => ripeWeight nHeight c) l ≤ sumEntries (fun _ c => c.out.nValue) l := by
    intro l hl
    induction l with
    | nil => simp
    | cons e rest ih =>
      have he := hl e (.head _)
      have hrest := ih fun x hx => hl x (List.mem_cons_of_mem e hx)
      have hw : ripeWeight nHeight e.2 ≤ e.2.out.nValue := by
        rw [ripeWeight]
        split_ifs <;> omega
      simp only [sumEntries_cons]
      omega
  exact hle v.entries fun e he => hv e.1 e.2 (mem_entries_iff.mp he)

theorem sumCoins_spendInputs (w : Coin → Int) {ins : List TxIn}
    (hnd : (ins.map TxIn.prevout).Nodup) (hin : ∀ i ∈ ins, haveCoin v i.prevout = true) :
    sumCoins w (spendInputs ins v).2 =
      sumCoins w v - (ins.map fun i => w (accessCoin v i.prevout)).sum := by
  induction ins generalizing v with
  | nil => simp [spendInputs]
  | cons i rest ih =>
    have hrest := ih hnd.of_cons (haveCoin_rest hnd hin)
    show sumCoins w (Coins.spendInputs rest (v.erase i.prevout)).2 = _
    rw [hrest, List.map_congr_left fun j hj => by rw [accessCoin_rest hnd j hj], sumCoins, sumBy_erase,
      find_of_haveCoin (hin i List.mem_cons_self), weightAt_some, List.map_cons, List.sum_cons,
      ← sumCoins]
    omega

section
variable {tx : Transaction} {nHeight : Nat}

/-- The spendable outputs among some. -/
def spendable (outs : List TxOut) : List TxOut :=
  outs.filter fun o => !isUnspendable o.scriptPubKey

theorem sumCoins_addCoinsFrom (w : Coin → Int) {outs : List TxOut} {i : Nat} {v' : Coins}
    (hv : Proper v) (hnn : ∀ o ∈ outs, 0 ≤ o.nValue)
    (h : addCoinsFrom tx nHeight i outs v = some v') :
    Proper v' ∧ sumCoins w v' = sumCoins w v +
      ((spendable outs).map fun o => w ⟨o, nHeight, tx.isCoinBase, tx.isCoinStake⟩).sum := by
  induction outs generalizing i v with
  | nil =>
    cases h
    exact ⟨hv, by simp [spendable]⟩
  | cons o rest ih =>
    simp only [addCoinsFrom, do_eq_some] at h
    obtain ⟨v₁, h1, h2⟩ := h
    have hrest := fun x hx => hnn x (List.mem_cons_of_mem o hx)
    obtain ⟨-, ⟨hu, rfl⟩ | ⟨hsp, hfree, rfl⟩⟩ := addCoin_eq_some h1
    · obtain ⟨hp, hsum⟩ := ih hv hrest h2
      exact ⟨hp, by simpa [spendable, hu] using hsum⟩
    · have hnone := hv.find_of_haveCoin_false hfree
      have hv1 : Proper (v.insert ⟨tx.hash, i⟩ ⟨o, nHeight, tx.isCoinBase, tx.isCoinStake⟩) := by
        intro o' c' h'
        rw [find?_insert] at h'
        split_ifs at h'
        · exact Option.some.inj h' ▸ hnn o (.head _)
        · exact hv o' c' h'
      obtain ⟨hp, hsum⟩ := ih hv1 hrest h2
      refine ⟨hp, ?_⟩
      rw [hsum, sumCoins, sumBy_insert, hnone, weightAt_none, ← sumCoins]
      simp only [spendable, hsp, Bool.not_false, List.filter_cons_of_pos, List.map_cons,
        List.sum_cons]
      omega

end

end Coins

/-! ### One transaction -/

/-- Does the transaction generate coins? -/
def Transaction.generates (tx : Transaction) : Bool := tx.isCoinBase || tx.isCoinStake

/-- The value of the unspendable outputs. -/
def unspendableOut (outs : List TxOut) : Int :=
  totalOut (outs.filter fun o => isUnspendable o.scriptPubKey)

theorem totalOut_spendable (outs : List TxOut) :
    totalOut (Coins.spendable outs) = totalOut outs - unspendableOut outs := by
  induction outs with
  | nil => rfl
  | cons o rest ih =>
    simp only [Coins.spendable, unspendableOut] at ih ⊢
    by_cases hu : isUnspendable o.scriptPubKey = true
    · simp [hu, ih]
    · simp [hu, ih]
      omega

theorem unspendableOut_nonneg {outs : List TxOut} (h : ∀ o ∈ outs, 0 ≤ o.nValue) :
    0 ≤ unspendableOut outs :=
  totalOut_nonneg fun o ho => h o (List.mem_of_mem_filter ho)

/-- What `CheckTransaction` says about the amounts and the inputs. -/
structure Checked (tx : Transaction) : Prop where
  nonneg : ∀ o ∈ tx.vout, 0 ≤ o.nValue
  le : ∀ o ∈ tx.vout, o.nValue ≤ i64Max
  nodup : (tx.vin.map TxIn.prevout).Nodup

section
variable {P : ChainParams} {nHeight : Nat}

/-- The exact value of the coins that inputs spend. -/
def inputTotal (v : Coins) (ins : List TxIn) : Int :=
  (ins.map fun i => (Coins.accessCoin v i.prevout).out.nValue).sum

/-- The inputs that pass `CheckTxInputs` have an exact sum, which is also that of
`GetValueIn`, and none of them was generated at the same height. -/
theorem checkInputsLoop_exact (hmax : P.nMaxMoneyOut ≤ i64Max) (hmature : 0 < P.nCoinbaseMaturity) {ins : List TxIn} {acc r : Int} (hacc : 0 ≤ acc) (hacc' : acc ≤ i64Max)
    (h : checkInputsLoop P v nHeight ins acc = some r) :
    r = acc + inputTotal v ins ∧ Coins.valueInLoop v ins acc = r ∧ acc ≤ r ∧ r ≤ i64Max ∧
      ∀ i ∈ ins, Coins.ripeWeight nHeight (Coins.accessCoin v i.prevout) =
        (Coins.accessCoin v i.prevout).out.nValue := by
  induction ins generalizing acc with
  | nil =>
    obtain rfl := Option.some.inj h
    exact ⟨by simp [inputTotal], rfl, le_refl acc, hacc', by simp⟩
  | cons i rest ih =>
    simp only [checkInputsLoop] at h
    split_ifs at h with hyoung hrange
    simp only [moneyRange, Bool.and_eq_true, decide_eq_true_eq] at hrange
    obtain ⟨⟨h0, h1⟩, h2, -⟩ := hrange
    have hexact := toI64_add_exact hacc hacc' h0 (h1.trans hmax) h2
    have hin : InI64 (acc + (Coins.accessCoin v i.prevout).out.nValue) := hexact ▸ inI64_toI64 _
    rw [hexact] at h
    obtain ⟨hr, hloop, hle, hr', hripe⟩ := ih (by omega) hin.2 h
    refine ⟨?_, by rw [Coins.valueInLoop, hexact, hloop], by omega, hr', fun j hj => ?_⟩
    · rw [hr]
      simp only [inputTotal, List.map_cons, List.sum_cons]
      omega
    · rcases List.mem_cons.mp hj with rfl | hj
      · rw [Coins.ripeWeight, if_neg]
        -- a coin generated at this height would have depth 0
        intro hgen
        simp only [Bool.and_eq_true, decide_eq_true_eq] at hgen hyoung
        exact hyoung ⟨hgen.1, by omega⟩
      · exact hripe j hj

/-- What one transaction moves: `inn` in, its outputs out, and the fee, where all
sums of the code are these modulo `2^64`. A generating transaction pays no fee and
takes its inputs off the ripe coins; another one takes off the fee and its
unspendable outputs. -/
structure Moves (nHeight : Nat) (tx : Transaction) (t t' : Tally) (inn fee : Int) : Prop where
  proper : Coins.Proper t'.coins
  inn_nonneg : 0 ≤ inn
  inn_le : inn ≤ Coins.ripeValue nHeight t.coins
  fee_nonneg : 0 ≤ fee
  total : Coins.totalValue t'.coins =
    Coins.totalValue t.coins + totalOut tx.vout - inn - unspendableOut tx.vout
  ripe : Coins.ripeValue nHeight t'.coins = Coins.ripeValue nHeight t.coins -
    if tx.generates then inn else fee + unspendableOut tx.vout
  fee_eq : fee = if tx.generates then 0 else inn - totalOut tx.vout
  valueOut : t'.nValueOut = toI64 (t.nValueOut + totalOut tx.vout)
  valueIn : toI64 t'.nValueIn = toI64 (t.nValueIn + inn)
  fees : toI64 t'.nFees = toI64 (t.nFees + fee)

theorem ripe_outputs (tx : Transaction) (outs : List TxOut) :
    (outs.map fun o => Coins.ripeWeight nHeight ⟨o, nHeight, tx.isCoinBase, tx.isCoinStake⟩).sum =
      if tx.generates then 0 else totalOut outs := by
  induction outs with
  | nil => simp
  | cons o rest ih =>
    rw [List.map_cons, List.sum_cons, ih, totalOut_cons, Coins.ripeWeight]
    cases hg : tx.generates <;> simp_all [Transaction.generates]

theorem connectTx_moves (hmax : P.nMaxMoneyOut ≤ i64Max) (hmature : 0 < P.nCoinbaseMaturity)
    {t t' : Tally} {tx : Transaction} {undo : List Coin} (hv : Coins.Proper t.coins)
    (hc : Checked tx) (h : connectTx P nHeight t tx = some (undo, t')) :
    ∃ inn fee, Moves nHeight tx t t' inn fee := by
  obtain ⟨out, hout, hupdate, hvo, hkind⟩ := connectTx_cases h
  have hexact : out = totalOut tx.vout := by
    have := getValueOutLoop_exact (le_refl 0) (by decide) hc.le hout
    omega
  subst hexact
  have hvalue : ∀ outs : List TxOut, (outs.map fun o => o.nValue).sum = totalOut outs := fun _ => rfl
  rcases updateCoins_eq_some hupdate with ⟨hcb, -, hadd⟩ | ⟨hcb, -, hadd⟩
  · -- a coinbase spends nothing
    obtain ⟨-, hfees, hvi⟩ | ⟨hcb', -⟩ := hkind
    swap
    · simp [hcb] at hcb'
    obtain ⟨hproper, htotal⟩ :=
      Coins.sumCoins_addCoinsFrom (fun c => c.out.nValue) hv hc.nonneg hadd
    obtain ⟨-, hripe⟩ := Coins.sumCoins_addCoinsFrom (Coins.ripeWeight nHeight) hv hc.nonneg hadd
    rw [ripe_outputs] at hripe
    rw [hvalue, totalOut_spendable] at htotal
    have hgen : tx.generates = true := by simp [Transaction.generates, hcb]
    rw [if_pos hgen] at hripe
    refine ⟨0, 0, hproper, le_refl 0, hv.ripe_nonneg nHeight, le_refl 0, ?_, ?_, ?_, hvo, ?_, ?_⟩
    · rw [Coins.totalValue, htotal, Coins.totalValue]
      omega
    · rw [if_pos hgen, Coins.ripeValue, hripe, Coins.ripeValue]
      omega
    · rw [if_pos hgen]
    · rw [hvi, Int.add_zero]
    · rw [hfees, Int.add_zero]
  · obtain ⟨hcb', -⟩ | ⟨-, hchk, hvi, hfees⟩ := hkind
    · simp [hcb] at hcb'
    have hin := haveCoin_of_haveInputs hcb (haveInputs_of_checkTxInputs hchk)
    rw [checkTxInputs, Bool.and_eq_true] at hchk
    obtain ⟨-, hloop⟩ := hchk
    cases hr : checkInputsLoop P t.coins nHeight tx.vin 0 with
    | none => simp [hr] at hloop
    | some r =>
      obtain ⟨hinn, hval, hinn0, -, hripeIn⟩ :=
        checkInputsLoop_exact hmax hmature (le_refl 0) (by decide) hr
      simp only [hr, hout, Bool.or_eq_true, Bool.and_eq_true, decide_eq_true_eq] at hloop
      have hgetIn : Coins.getValueIn t.coins tx = r := by simp [Coins.getValueIn, hcb, hval]
      rw [hgetIn] at hvi hfees
      have hsum : inputTotal t.coins tx.vin = r := by omega
      -- the coins spent, and the outputs added, by value and by ripe value
      have hspent := Coins.sumCoins_spendInputs (fun c => c.out.nValue) hc.nodup hin
      have hspentRipe := Coins.sumCoins_spendInputs (Coins.ripeWeight nHeight) hc.nodup hin
      rw [List.map_congr_left hripeIn] at hspentRipe
      have hproper1 : Coins.Proper (Coins.spendInputs tx.vin t.coins).2 := hv.spendInputs
      obtain ⟨hproper, htotal⟩ :=
        Coins.sumCoins_addCoinsFrom (fun c => c.out.nValue) hproper1 hc.nonneg hadd
      obtain ⟨-, hripe⟩ :=
        Coins.sumCoins_addCoinsFrom (Coins.ripeWeight nHeight) hproper1 hc.nonneg hadd
      rw [ripe_outputs, hspentRipe] at hripe
      rw [hvalue, totalOut_spendable, hspent] at htotal
      have hle : r ≤ Coins.ripeValue nHeight t.coins := by
        have := hproper1.ripe_nonneg nHeight
        rw [Coins.ripeValue, hspentRipe] at this
        simp only [inputTotal] at hsum
        simp only [Coins.ripeValue]
        omega
      simp only [inputTotal] at hsum
      rw [hsum] at hripe htotal
      refine ⟨r, if tx.generates then 0 else r - totalOut tx.vout, hproper, hinn0, hle, ?_, ?_, ?_,
        rfl, hvo, ?_, ?_⟩
      · split_ifs with hgen
        · exact le_refl 0
        · have hcs : ¬tx.isCoinStake = true := by simpa [Transaction.generates, hcb] using hgen
          have := (hloop.resolve_left hcs).1.1
          omega
      · rw [Coins.totalValue, htotal, Coins.totalValue]
        omega
      · rw [Coins.ripeValue, hripe, Coins.ripeValue, totalOut_spendable]
        split_ifs <;> omega
      · rw [hvi, toI64_toI64]
      · have hgcs : tx.generates = tx.isCoinStake := by simp [Transaction.generates, hcb]
        rw [hfees, hgcs]
        split_ifs with hcs
        · rw [Int.add_zero]
        · rw [toI64_toI64, toI64_add_toI64]

/-! ### Blocks -/

/-- What the coinbase and the coinstakes of a block pay out. -/
def generated (txs : List Transaction) : Int :=
  (txs.map fun tx => if tx.generates then totalOut tx.vout else 0).sum

/-- The unspendable outputs of a block. -/
def unspendableIn (txs : List Transaction) : Int :=
  (txs.map fun tx => unspendableOut tx.vout).sum

/-- What the transactions of a block move: `staked` is what its coinstakes spend. -/
structure BlockMoves (nHeight : Nat) (txs : List Transaction) (t t' : Tally)
    (staked fees : Int) : Prop where
  proper : Coins.Proper t'.coins
  staked_nonneg : 0 ≤ staked
  fees_nonneg : 0 ≤ fees
  total : Coins.totalValue t'.coins =
    Coins.totalValue t.coins + generated txs - staked - fees - unspendableIn txs
  ripe : Coins.ripeValue nHeight t'.coins ≤ Coins.ripeValue nHeight t.coins - staked - fees
  mint : toI64 (t'.nValueOut - t'.nValueIn) =
    toI64 (t.nValueOut - t.nValueIn + (generated txs - staked - fees))
  nFees : toI64 t'.nFees = toI64 (t.nFees + fees)
  outputs : ∀ tx ∈ txs, tx.generates = false →
    totalOut tx.vout ≤ Coins.ripeValue nHeight t.coins

theorem connectTxs_moves (hmax : P.nMaxMoneyOut ≤ i64Max) (hmature : 0 < P.nCoinbaseMaturity)
    {txs : List Transaction} {t t' : Tally} {undos : List (List Coin)} (hv : Coins.Proper t.coins)
    (hc : ∀ tx ∈ txs, Checked tx) (h : connectTxs P nHeight txs t = some (undos, t')) :
    ∃ staked fees, BlockMoves nHeight txs t t' staked fees := by
  induction txs generalizing t undos with
  | nil =>
    cases h
    exact ⟨0, 0, hv, le_refl 0, le_refl 0, by simp [generated, unspendableIn], by simp,
      by simp [generated], by simp, by simp⟩
  | cons tx rest ih =>
    obtain ⟨undo, t₁, undos', h1, h2, rfl⟩ := connectTxs_cons h
    have hctx := hc tx (.head _)
    obtain ⟨inn, fee, m⟩ := connectTx_moves hmax hmature hv hctx h1
    obtain ⟨staked, fees, b⟩ := ih m.proper (fun x hx => hc x (List.mem_cons_of_mem tx hx)) h2
    have hunsp := unspendableOut_nonneg hctx.nonneg
    have hinn := m.inn_nonneg
    have hfee := m.fee_nonneg
    have hst := b.staked_nonneg
    have hfs := b.fees_nonneg
    have hripe := b.ripe
    have hfeq := m.fee_eq
    rw [m.ripe] at hripe
    refine ⟨(if tx.generates then inn else 0) + staked, fee + fees, b.proper, ?_, by omega, ?_, ?_,
      ?_, ?_, ?_⟩
    · split_ifs <;> omega
    · rw [b.total, m.total]
      simp only [generated, unspendableIn, List.map_cons, List.sum_cons]
      split_ifs at hfeq ⊢ <;> omega
    · split_ifs at hripe hfeq ⊢ <;> omega
    · rw [b.mint, ← toI64_toI64_add, ← toI64_toI64_sub, m.valueOut, toI64_toI64,
        ← toI64_sub_toI64, m.valueIn, toI64_sub_toI64, toI64_toI64_sub, toI64_toI64_add]
      congr 1
      simp only [generated, List.map_cons, List.sum_cons]
      split_ifs at hfeq ⊢ <;> omega
    · rw [b.nFees, ← toI64_toI64_add, m.fees, toI64_toI64_add]
      congr 1
      omega
    · intro x hx hgen
      rcases List.mem_cons.mp hx with rfl | hx
      · rw [hgen] at hfeq
        simp only [Bool.false_eq_true, if_false] at hfeq
        have := m.inn_le
        omega
      · have := b.outputs x hx hgen
        rw [m.ripe] at this
        split_ifs at this <;> omega

/-- What is generated in a block, and any of its outputs, is at most what was
there before and the reward, if the sum of what is generated fits. -/
theorem checkReward_limits {txs : List Transaction} {s : Coins} {t' : Tally} {staked fees : Int}
    {nReward : Nat} (hv : Coins.Proper s)
    (hm : BlockMoves nHeight txs ⟨s, 0, 0, 0⟩ t' staked fees)
    (hsmall : Coins.totalValue s ≤ 4611686018427387904)
    (hfits : generated txs < 9223372036854775808) (hgen : 0 ≤ generated txs)
    (hreward : checkReward nReward t' = true) :
    generated txs - staked ≤ fees + getBlockValue nReward ∧ staked + fees ≤ Coins.totalValue s := by
  have hripe := hm.ripe
  have hnn := hm.proper.ripe_nonneg nHeight
  have htotal := hv.ripe_le_total nHeight
  have hst := hm.staked_nonneg
  have hfe := hm.fees_nonneg
  have hbound : staked + fees ≤ Coins.totalValue s := by
    dsimp only at hripe
    omega
  refine ⟨?_, hbound⟩
  have hvalue : 0 ≤ getBlockValue nReward ∧ getBlockValue nReward ≤ 1000000000000000 := by
    rw [getBlockValue]
    split_ifs <;> decide
  have hleft : toI64 (toI64 (t'.nValueOut - t'.nValueIn) + t'.nFees) = generated txs - staked := by
    rw [← toI64_add_toI64, hm.nFees, hm.mint, toI64_toI64_add, toI64_add_toI64]
    rw [show (0 : Int) - 0 + (generated txs - staked - fees) + (0 + fees) = generated txs - staked by
      omega]
    exact toI64_of_inI64 ⟨by simp only [i64Min]; omega, by simp only [i64Max]; omega⟩
  have hright : toI64 (t'.nFees + getBlockValue nReward) = fees + getBlockValue nReward := by
    rw [← toI64_toI64_add, hm.nFees, toI64_toI64_add, Int.zero_add]
    exact toI64_of_inI64 ⟨by simp only [i64Min]; omega, by simp only [i64Max]; omega⟩
  rw [checkReward, decide_eq_true_eq, hleft, hright] at hreward
  exact hreward

end

end Rapids.Chain
