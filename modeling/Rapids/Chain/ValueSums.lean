import Rapids.Chain.Supply
import Rapids.Lib.Sums

/-!
# Rapids.Chain.ValueSums

**The additions of the value checks** (`consensus/tx_verify.cpp`,
`primitives/transaction.cpp`, `coins.cpp` and `Consensus::CheckTxInputs` in `main.cpp`).
The four functions once more, in a computation that logs each signed addition of 64 bits;
beside the additions they are here as the source has them, with the checks on zerocoins
and the assertion that an input is unspent. A failure is any way not to succeed.

All four add first and look at the sum afterwards. `GetValueOut` looks for a sum below the
one before, which there is only after an overflow; the others compare with the money range,
which the test network does not limit. What they accept is right nevertheless
(`ValuesExact.outputs`, `ValuesExact.spent`), and `valuesExact_iff` says for which amounts
the additions are.
-/

namespace Rapids.Chain

open Rapids.Lib

/-! ### The functions -/

namespace Adds

/-- `GetValueOut` -/
def getValueOut (tx : Transaction) : Adding Int :=
  sumWhile (fun o => 0 ≤ o.nValue) (fun _ nValueOut sum => nValueOut ≤ sum) TxOut.nValue tx.vout 0

/-- What a zerocoin spend is worth: its sequence number, in coins. -/
def zerocoinValue (nSequence : UInt32) : Int := toI64 (nSequence.toNat * coin)

/-- The inputs that `GetZerocoinSpent` counts, with their sequence numbers. -/
def zerocoinInputs (tx : Transaction) (nSequence : List UInt32) : List (TxIn × UInt32) :=
  (tx.vin.zip nSequence).filter fun e => e.1.isZerocoinSpend

/-- `GetZerocoinSpent`, with the sequence numbers of the inputs. -/
def getZerocoinSpent (tx : Transaction) (nSequence : List UInt32) : Adding Int :=
  sumWhile (fun _ => true) (fun _ _ _ => true) (fun e => zerocoinValue e.2)
    (zerocoinInputs tx nSequence) 0

/-- The coin that an input spends is worth this much; an input without one, -1. -/
def inputValue (v : Coins) (i : TxIn) : Int := (Coins.accessCoin v i.prevout).out.nValue

/-- `GetValueIn` -/
def getValueIn (v : Coins) (tx : Transaction) (nSequence : List UInt32) : Adding Int :=
  if tx.isCoinBase then pure 0
  else if tx.hasZerocoinSpendInputs then getZerocoinSpent tx nSequence
  else sumWhile (fun _ => true) (fun _ _ _ => true) (inputValue v) tx.vin 0

/-- What `CheckTransaction` reads beside the transaction. -/
structure CheckEnv where
  /-- `GetSerializeSize` -/
  size : Nat
  fColdStakingActive : Bool
  fZerocoinActive : Bool
  maxSpendsPerTx : Nat
  maxPublicSpendsPerTx : Nat
  /-- `CheckZerocoinSpend` -/
  checkZerocoinSpend : Bool

/-- `MAX_ZEROCOIN_TX_SIZE` -/
def maxZerocoinTxSize : Nat := 150000

/-- The loop of `CheckTransaction` over the inputs: the zerocoin spends among them, if no
other input occurs twice. -/
def countSpends : List TxIn → List OutPoint → Nat → Option Nat
  | [], _, nZCSpendCount => some nZCSpendCount
  | i :: rest, vInOutPoints, nZCSpendCount =>
    if i.prevout ∈ vInOutPoints then none
    else if !i.isZerocoinSpend then countSpends rest (i.prevout :: vInOutPoints) nZCSpendCount
    else if !i.isZerocoinPublicSpend then countSpends rest vInOutPoints (nZCSpendCount + 1)
    else countSpends rest vInOutPoints nZCSpendCount

/-- The checks of `CheckTransaction` on the inputs. -/
def checkInputShape (E : CheckEnv) (tx : Transaction) : Bool :=
  match countSpends tx.vin [] 0 with
  | none => false
  | some nZCSpendCount =>
    (!E.fZerocoinActive || (nZCSpendCount ≤ E.maxSpendsPerTx &&
      (!tx.hasZerocoinSpendInputs ||
        tx.vin.all (fun i => i.isZerocoinSpend || i.isZerocoinPublicSpend) &&
          E.checkZerocoinSpend))) &&
    (if tx.isCoinBase then
      tx.vin.all fun i => 2 ≤ i.scriptSig.length && i.scriptSig.length ≤ 150
    else if E.fZerocoinActive && tx.hasZerocoinSpendInputs then
      if tx.vin.any TxIn.isZerocoinPublicSpend then tx.vin.length ≤ E.maxPublicSpendsPerTx
      else tx.vin.length ≤ E.maxSpendsPerTx
    else tx.vin.all fun i => !(i.prevout.isNull && E.fZerocoinActive && !i.isZerocoinSpend))

/-- The checks on an output before its value is added. -/
def outputInRange (P : ChainParams) (tx : Transaction) (o : TxOut) : Bool :=
  !(o.isEmpty && !tx.isCoinBase && !tx.isCoinStake) && 0 ≤ o.nValue && o.nValue ≤ P.nMaxMoneyOut

/-- The checks on an output after its value was added. -/
def sumInRange (P : ChainParams) (fColdStakingActive : Bool) (o : TxOut) (_ sum : Int) : Bool :=
  moneyRange P sum &&
    (!isPayToColdStaking o.scriptPubKey || fColdStakingActive && coin ≤ o.nValue)

/-- The loop of `CheckTransaction` over the outputs. -/
def checkOutputs (P : ChainParams) (fColdStakingActive : Bool) (tx : Transaction) : Adding Int :=
  sumWhile (outputInRange P tx) (sumInRange P fColdStakingActive) TxOut.nValue tx.vout 0

/-- `CheckTransaction` -/
def checkTransaction (P : ChainParams) (E : CheckEnv) (tx : Transaction) : Adding Unit :=
  if tx.vin = [] then .fail ()
  else if tx.vout = [] then .fail ()
  else if maxZerocoinTxSize < E.size then .fail ()
  else do
    let _ ← checkOutputs P E.fColdStakingActive tx
    if checkInputShape E tx then pure () else .fail ()

/-- `HaveInputs` -/
def haveInputs (v : Coins) (tx : Transaction) : Bool :=
  tx.isCoinBase || tx.hasZerocoinSpendInputs || tx.vin.all fun i => Coins.haveCoin v i.prevout

/-- Is there a coin to spend, and is it mature? -/
def mature (P : ChainParams) (v : Coins) (nSpendHeight : Nat) (i : TxIn) : Bool :=
  let c := Coins.accessCoin v i.prevout
  !c.isSpent &&
    !((c.fCoinBase || c.fCoinStake) && (nSpendHeight : Int) - c.nHeight < P.nCoinbaseMaturity)

/-- The loop of `CheckTxInputs`. -/
def checkInputs (P : ChainParams) (v : Coins) (nSpendHeight : Nat) (tx : Transaction) : Adding Int :=
  sumWhile (mature P v nSpendHeight)
    (fun i _ sum => moneyRange P (inputValue v i) && moneyRange P sum) (inputValue v) tx.vin 0

/-- The checks of `CheckTxInputs` on the fee. -/
def checkFee (P : ChainParams) (nValueIn nValueOut : Int) : Adding Unit :=
  if nValueIn < nValueOut then .fail ()
  else do
    let nTxFee ← plus nValueIn (-nValueOut)
    if nTxFee < 0 then .fail ()
    else do
      let nFees ← plus 0 nTxFee
      if moneyRange P nFees then pure () else .fail ()

/-- `CheckTxInputs` -/
def checkTxInputs (P : ChainParams) (v : Coins) (nSpendHeight : Nat) (tx : Transaction) :
    Adding Unit :=
  if !haveInputs v tx then .fail ()
  else do
    let nValueIn ← checkInputs P v nSpendHeight tx
    if tx.isCoinStake then pure ()
    else do
      let nValueOut ← getValueOut tx
      checkFee P nValueIn nValueOut

end Adds

/-! ### The results -/

/-- The result is that of the function without a log. -/
theorem result_getValueOut (tx : Transaction) : (Adds.getValueOut tx).result = named () tx.getValueOut := by
  have hloop : ∀ outs acc, (sumWhile (fun o : TxOut => decide (0 ≤ o.nValue))
      (fun _ nValueOut sum => decide (nValueOut ≤ sum)) TxOut.nValue outs acc).result =
        named () (Transaction.getValueOutLoop outs acc) := by
    intro outs
    induction outs with
    | nil => exact fun acc => rfl
    | cons o rest ih =>
      intro acc
      rw [result_sumWhile_cons, ih, Transaction.getValueOutLoop]
      simp only [decide_eq_true_eq]
      split_ifs <;> first | omega | rfl
  exact hloop tx.vout 0

section
variable {P : ChainParams} {v : Coins} {nSpendHeight : Nat} {tx : Transaction}

/-- So is that of the loop over the inputs, which never counts a coin that is spent. -/
theorem result_checkInputs :
    (Adds.checkInputs P v nSpendHeight tx).result =
      named () (checkInputsLoop P v nSpendHeight tx.vin 0) := by
  rw [Adds.checkInputs]
  generalize tx.vin = ins
  generalize (0 : Int) = acc
  induction ins generalizing acc with
  | nil => rfl
  | cons i rest ih =>
    rw [result_sumWhile_cons, ih, checkInputsLoop]
    simp only [Adds.mature, Adds.inputValue]
    by_cases hspent : (Coins.accessCoin v i.prevout).isSpent = true
    · have hvalue : (Coins.accessCoin v i.prevout).out.nValue = -1 := by
        simpa [Coin.isSpent, TxOut.isNull] using hspent
      simp [hspent, hvalue, moneyRange, named]
    · simp only [hspent, Bool.not_false, Bool.true_and, Bool.not_eq_true', Bool.eq_false_iff,
        ne_eq, ite_not]
      rw [apply_ite (named ()), apply_ite (named ())]
      rfl

/-! ### When the sums fit -/

/-- The exact value of the outputs before the first negative one. -/
def leadingOut (tx : Transaction) : Int := totalOut (tx.vout.takeWhile fun o => 0 ≤ o.nValue)

theorem noOverflow_getValueOut_iff : NoOverflow (Adds.getValueOut tx) ↔ leadingOut tx ≤ i64Max := by
  rw [Adds.getValueOut, noOverflow_sumWhile_iff, Int.zero_add]
  · exact Iff.rfl
  · exact fun o _ ho => of_decide_eq_true ho
  · exact le_refl 0
  · decide
  · -- a sum that fits is not below the one before
    intro o _ acc ho _ _
    have ho' : 0 ≤ o.nValue := of_decide_eq_true ho
    exact decide_eq_true (by omega)

/-- The checks of `CheckTransaction` on the outputs add no more than `GetValueOut` does. -/
theorem noOverflow_checkOutputs (fColdStakingActive : Bool) (h : leadingOut tx ≤ i64Max) :
    NoOverflow (Adds.checkOutputs P fColdStakingActive tx) := by
  refine noOverflow_sumWhile (fun o _ ho => ?_) (fun o _ ho => of_decide_eq_true ho) (le_refl 0) ?_
  · simp only [Adds.outputInRange, Bool.and_eq_true] at ho
    exact ho.1.2
  · rw [Int.zero_add]
    exact h

theorem noOverflow_checkTransaction (E : Adds.CheckEnv) (h : leadingOut tx ≤ i64Max) :
    NoOverflow (Adds.checkTransaction P E tx) := by
  unfold Adds.checkTransaction
  split_ifs
  · exact Traced.logs_fail _
  · exact Traced.logs_fail _
  · exact Traced.logs_fail _
  · exact Traced.logs_bind.mpr ⟨noOverflow_checkOutputs _ h, fun _ _ => Traced.logs_pure _⟩
  · exact Traced.logs_bind.mpr ⟨noOverflow_checkOutputs _ h, fun _ _ => Traced.logs_fail _⟩

/-- The coins of the inputs before the first that cannot be spent at the height. -/
def leadingIn (P : ChainParams) (v : Coins) (nSpendHeight : Nat) (tx : Transaction) : Int :=
  inputTotal v (tx.vin.takeWhile (Adds.mature P v nSpendHeight))

/-- What the sequence numbers of the zerocoin spends add up to, in coins. -/
def zerocoinTotal (tx : Transaction) (nSequence : List UInt32) : Int :=
  ((Adds.zerocoinInputs tx nSequence).map fun e => Adds.zerocoinValue e.2).sum

theorem zerocoinValue_nonneg (n : UInt32) : 0 ≤ Adds.zerocoinValue n := by
  have hn := n.toNat_lt
  rw [Adds.zerocoinValue, coin, toI64_of_inI64]
  · omega
  · constructor
    · rw [i64Min]
      omega
    · rw [i64Max]
      omega

theorem noOverflow_getZerocoinSpent_iff (nSequence : List UInt32) :
    NoOverflow (Adds.getZerocoinSpent tx nSequence) ↔ zerocoinTotal tx nSequence ≤ i64Max := by
  have hall : (Adds.zerocoinInputs tx nSequence).takeWhile (fun _ => true) =
      Adds.zerocoinInputs tx nSequence := List.takeWhile_eq_self_iff.mpr fun _ _ => rfl
  rw [Adds.getZerocoinSpent, noOverflow_sumWhile_iff, hall, Int.zero_add]
  · exact Iff.rfl
  · exact fun e _ _ => zerocoinValue_nonneg e.2
  · exact le_refl 0
  · decide
  · exact fun _ _ _ _ _ _ => rfl

/-- Do the sums of `GetValueIn` fit? They do for a coinbase; of zerocoins, the total has to
fit, and of other inputs every partial sum. -/
def ValueInFits (v : Coins) (tx : Transaction) (nSequence : List UInt32) : Prop :=
  if tx.isCoinBase then True
  else if tx.hasZerocoinSpendInputs then zerocoinTotal tx nSequence ≤ i64Max
  else ∀ n, InI64 (inputTotal v (tx.vin.take n))

theorem noOverflow_getValueIn_iff (nSequence : List UInt32) :
    NoOverflow (Adds.getValueIn v tx nSequence) ↔ ValueInFits v tx nSequence := by
  have hzero : InI64 0 := ⟨by decide, by decide⟩
  unfold Adds.getValueIn ValueInFits
  split_ifs
  · exact ⟨fun _ => trivial, fun _ => Traced.logs_pure _⟩
  · exact noOverflow_getZerocoinSpent_iff nSequence
  · rw [noOverflow_sum_iff hzero]
    simp only [Int.zero_add]
    exact Iff.rfl

/-! ### What is accepted -/

theorem getValueOut_exact {r : Int} (hout : ∀ o ∈ tx.vout, InI64 o.nValue)
    (h : (Adds.getValueOut tx).result = .ok r) : r = totalOut tx.vout ∧ 0 ≤ r ∧ r ≤ i64Max := by
  have hexact := sumWhile_exact (le_refl i64Max) (fun o ho hpos => ⟨of_decide_eq_true hpos, (hout o ho).2⟩)
    (fun o _ acc sum hacc hsum hle => ⟨hacc.trans (of_decide_eq_true hle), hsum.2⟩) (le_refl 0)
    (by decide) h
  rwa [Int.zero_add] at hexact

variable {network : Network}

theorem Network.maxMoneyOut_nonneg (network : Network) : 0 ≤ network.maxMoneyOut := by
  cases network with
  | main => decide
  | test => decide
  | regtest => decide

theorem moneyRange_iff {x : Int} : moneyRange P x = true ↔ 0 ≤ x ∧ x ≤ P.nMaxMoneyOut := by
  simp [moneyRange]

/-- A transaction that is accepted has outputs whose sum is in the money range. -/
theorem checkTransaction_total {E : Adds.CheckEnv} (hP : P.nMaxMoneyOut = network.maxMoneyOut)
    (h : (Adds.checkTransaction P E tx).result = .ok ()) : moneyRange P (totalOut tx.vout) = true := by
  have hmax := hP ▸ network.maxMoneyOut_le
  have hmax0 : 0 ≤ P.nMaxMoneyOut := hP ▸ network.maxMoneyOut_nonneg
  cases hr : (Adds.checkOutputs P E.fColdStakingActive tx).result with
  | error why =>
    unfold Adds.checkTransaction at h
    simp only [Traced.result_ite, Traced.result_bind, Traced.result_fail, hr] at h
    split_ifs at h <;> cases h
  | ok r =>
    have hexact := sumWhile_exact hmax
      (fun o _ ho => by
        simp only [Adds.outputInRange, Bool.and_eq_true, decide_eq_true_eq] at ho
        exact ⟨ho.1.2, ho.2.trans hmax⟩)
      (fun o _ acc sum _ _ hsum => by
        simp only [Adds.sumInRange, Bool.and_eq_true] at hsum
        exact moneyRange_iff.mp hsum.1)
      (le_refl 0) hmax0 hr
    rw [Int.zero_add] at hexact
    rw [moneyRange_iff, totalOut, ← hexact.1]
    exact hexact.2

/-- The coin that a mature input spends. -/
theorem inputValue_range (hcoins : ∀ e ∈ v.entries, moneyRange P e.2.out.nValue = true) {i : TxIn}
    (h : Adds.mature P v nSpendHeight i = true) :
    0 ≤ Adds.inputValue v i ∧ Adds.inputValue v i ≤ P.nMaxMoneyOut := by
  simp only [Adds.mature, Bool.and_eq_true, Bool.not_eq_true'] at h
  rw [Adds.inputValue, ← moneyRange_iff]
  cases hfind : v.find? i.prevout with
  | none =>
    simp only [Coins.accessCoin, hfind] at h
    exact absurd h.1 (by decide)
  | some c =>
    rw [Coins.accessCoin, hfind]
    exact hcoins _ (OrdMap.mem_entries_iff.mpr hfind)

section
variable (hP : P.nMaxMoneyOut = network.maxMoneyOut)
  (hcoins : ∀ e ∈ v.entries, moneyRange P e.2.out.nValue = true)
include hP hcoins

theorem checkInputs_exact {r : Int}
    (h : (Adds.checkInputs P v nSpendHeight tx).result = .ok r) :
    r = inputTotal v tx.vin ∧ 0 ≤ r ∧ r ≤ P.nMaxMoneyOut := by
  have hmax := hP ▸ network.maxMoneyOut_le
  have hmax0 : 0 ≤ P.nMaxMoneyOut := hP ▸ network.maxMoneyOut_nonneg
  have hexact := sumWhile_exact hmax
    (fun i _ hi => ⟨(inputValue_range hcoins hi).1, (inputValue_range hcoins hi).2.trans hmax⟩)
    (fun i _ acc sum _ _ hsum => moneyRange_iff.mp (Bool.and_eq_true_iff.mp hsum).2)
    (le_refl 0) hmax0 h
  rwa [Int.zero_add] at hexact

/-- Where the money range is all of the type, the sums of `CheckTxInputs` have to fit; on
the other networks they always do. -/
theorem noOverflow_checkInputs_iff
    :
    NoOverflow (Adds.checkInputs P v nSpendHeight tx) ↔
      (network = .test → leadingIn P v nSpendHeight tx ≤ i64Max) := by
  have hbounded : 2 * network.maxMoneyOut ≤ i64Max → NoOverflow (Adds.checkInputs P v nSpendHeight tx) :=
    fun hle => noOverflow_sumWhile_of_le (hP ▸ hle) (fun i _ hi => inputValue_range hcoins hi)
      (fun i _ acc sum hsum => moneyRange_iff.mp (Bool.and_eq_true_iff.mp hsum).2) (le_refl 0)
      (hP ▸ network.maxMoneyOut_nonneg)
  cases network with
  | main => exact ⟨fun _ => nofun, fun _ => hbounded (by decide)⟩
  | regtest => exact ⟨fun _ => nofun, fun _ => hbounded (by decide)⟩
  | test =>
    rw [Adds.checkInputs, noOverflow_sumWhile_iff, Int.zero_add]
    · exact ⟨fun h _ => h, fun h => h rfl⟩
    · exact fun i _ hi => (inputValue_range hcoins hi).1
    · exact le_refl 0
    · decide
    · intro i _ acc hi hacc hsum
      have hvalue := inputValue_range hcoins hi
      refine Bool.and_eq_true_iff.mpr ⟨moneyRange_iff.mpr hvalue, moneyRange_iff.mpr ⟨by omega, ?_⟩⟩
      rw [hP]
      exact hsum

end

theorem noOverflow_checkFee {nValueIn nValueOut : Int} (hin : 0 ≤ nValueIn ∧ nValueIn ≤ i64Max)
    (hout : 0 ≤ nValueOut ∧ nValueOut ≤ i64Max) : NoOverflow (Adds.checkFee P nValueIn nValueOut) := by
  simp only [i64Max] at hin hout
  have hfee : InI64 (nValueIn + -nValueOut) := by
    constructor
    · rw [i64Min]
      omega
    · rw [i64Max]
      omega
  unfold Adds.checkFee
  split_ifs with hlt
  · exact Traced.logs_fail _
  · rw [noOverflow_plus_bind, toI64_of_inI64 hfee, if_neg (by omega), noOverflow_plus_bind, Int.zero_add]
    refine ⟨hfee, hfee, ?_⟩
    split_ifs
    · exact Traced.logs_pure _
    · exact Traced.logs_fail _

section
variable (hP : P.nMaxMoneyOut = network.maxMoneyOut)
  (hcoins : ∀ e ∈ v.entries, moneyRange P e.2.out.nValue = true)
  (hout : ∀ o ∈ tx.vout, InI64 o.nValue)
include hP hcoins hout

theorem noOverflow_checkTxInputs_iff
    (hlead : leadingOut tx ≤ i64Max) :
    NoOverflow (Adds.checkTxInputs P v nSpendHeight tx) ↔
      (Adds.haveInputs v tx = true → network = .test → leadingIn P v nSpendHeight tx ≤ i64Max) := by
  rw [← noOverflow_checkInputs_iff hP hcoins, Adds.checkTxInputs]
  cases hhave : Adds.haveInputs v tx with
  | false => exact ⟨fun _ => nofun, fun _ => Traced.logs_fail _⟩
  | true =>
    rw [if_neg (by simp)]
    refine ⟨fun h _ => (Traced.logs_bind.mp h).1, fun h => Traced.logs_bind.mpr ⟨h rfl, fun r hr => ?_⟩⟩
    obtain ⟨-, hin⟩ := checkInputs_exact hP hcoins hr
    split_ifs
    · exact Traced.logs_pure _
    · refine Traced.logs_bind.mpr ⟨noOverflow_getValueOut_iff.mpr hlead, fun s hs => ?_⟩
      exact noOverflow_checkFee ⟨hin.1, hin.2.trans (hP ▸ network.maxMoneyOut_le)⟩
        (getValueOut_exact hout hs).2

/-- A transaction other than a coinstake that passes `CheckTxInputs` spends coins whose
sum is in the money range, and not less than it pays. -/
theorem checkTxInputs_total
    (hstake : tx.isCoinStake = false)
    (h : (Adds.checkTxInputs P v nSpendHeight tx).result = .ok ()) :
    moneyRange P (inputTotal v tx.vin) = true ∧ totalOut tx.vout ≤ inputTotal v tx.vin := by
  unfold Adds.checkTxInputs at h
  simp only [Traced.result_ite, Traced.result_bind, Traced.result_fail, hstake, Bool.false_eq_true,
    if_false] at h
  split_ifs at h with hhave
  cases hr : (Adds.checkInputs P v nSpendHeight tx).result with
  | error why =>
    rw [hr] at h
    cases h
  | ok r =>
    cases hs : (Adds.getValueOut tx).result with
    | error why =>
      rw [hr, hs] at h
      cases h
    | ok s =>
      have hfee : (Adds.checkFee P r s).result = .ok () := by
        rw [hr, hs] at h
        exact h
      obtain ⟨hin, hrange⟩ := checkInputs_exact hP hcoins hr
      obtain ⟨hsum, -⟩ := getValueOut_exact hout hs
      rw [moneyRange_iff, ← hin, ← hsum]
      refine ⟨hrange, ?_⟩
      unfold Adds.checkFee at hfee
      split_ifs at hfee with hlt
      · cases hfee
      · exact Int.not_lt.mp hlt

end

end

/-! ### When the value checks are exact -/

/-- No addition overflows, and what is accepted is in range by its exact sums. -/
structure ValuesExact (P : ChainParams) (E : Adds.CheckEnv) (v : Coins) (nSpendHeight : Nat)
    (tx : Transaction) (nSequence : List UInt32) : Prop where
  checkTransaction : NoOverflow (Adds.checkTransaction P E tx)
  getValueOut : NoOverflow (Adds.getValueOut tx)
  getValueIn : NoOverflow (Adds.getValueIn v tx nSequence)
  checkTxInputs : NoOverflow (Adds.checkTxInputs P v nSpendHeight tx)
  outputs : (Adds.checkTransaction P E tx).result = .ok () → moneyRange P (totalOut tx.vout) = true
  spent : tx.isCoinStake = false → (Adds.checkTxInputs P v nSpendHeight tx).result = .ok () →
    moneyRange P (inputTotal v tx.vin) = true ∧ totalOut tx.vout ≤ inputTotal v tx.vin

/-- **The value checks are exact if and only if the sums that `GetValueOut` and `GetValueIn`
form fit in 64 bits**, and on the test network those of `CheckTxInputs` as well. -/
theorem valuesExact_iff {network : Network} {P : ChainParams} {E : Adds.CheckEnv} {v : Coins}
    {nSpendHeight : Nat} {tx : Transaction} {nSequence : List UInt32}
    (hP : P.nMaxMoneyOut = network.maxMoneyOut)
    (hcoins : ∀ e ∈ v.entries, moneyRange P e.2.out.nValue = true)
    (hout : ∀ o ∈ tx.vout, InI64 o.nValue) :
    ValuesExact P E v nSpendHeight tx nSequence ↔
      leadingOut tx ≤ i64Max ∧ ValueInFits v tx nSequence ∧
        (network = .test → Adds.haveInputs v tx = true → leadingIn P v nSpendHeight tx ≤ i64Max) := by
  constructor
  · intro h
    have hlead := noOverflow_getValueOut_iff.mp h.getValueOut
    have hspend := (noOverflow_checkTxInputs_iff hP hcoins hout hlead).mp h.checkTxInputs
    exact ⟨hlead, (noOverflow_getValueIn_iff nSequence).mp h.getValueIn, fun hnet hhave => hspend hhave hnet⟩
  · rintro ⟨hlead, hvalue, hspend⟩
    exact
      { checkTransaction := noOverflow_checkTransaction E hlead
        getValueOut := noOverflow_getValueOut_iff.mpr hlead
        getValueIn := (noOverflow_getValueIn_iff nSequence).mpr hvalue
        checkTxInputs := (noOverflow_checkTxInputs_iff hP hcoins hout hlead).mpr
          fun hhave hnet => hspend hnet hhave
        outputs := checkTransaction_total hP
        spent := checkTxInputs_total hP hcoins hout }

/-- A payment of 4 out of a coin of 5. -/
theorem valuesExact_payment :
    ValuesExact mainParams ⟨200, false, false, 0, 0, false⟩
      (OrdMap.empty.insert ⟨7, 0⟩ ⟨⟨5, [opEqual]⟩, 1, false, false⟩) 20
      ⟨9, [⟨⟨7, 0⟩, []⟩], [⟨4, [opEqual]⟩]⟩ [4294967295] := by
  refine (@valuesExact_iff .main mainParams _ _ _ _ _ rfl (by decide +kernel) (by decide +kernel)).mpr
    ⟨by decide +kernel, fun n => ?_, nofun⟩
  rcases n with _ | n
  · decide +kernel
  · rw [List.take_succ_cons, List.take_nil]
    decide +kernel

/-- **Two outputs of `2^62`** on the test network: `CheckTransaction` adds them up before it
looks at the sum. -/
theorem checkTransaction_overflows :
    ¬ ValuesExact { mainParams with nMaxMoneyOut := Network.test.maxMoneyOut, nCoinbaseMaturity := 15 }
      ⟨200, false, false, 0, 0, false⟩ OrdMap.empty 20
      ⟨9, [⟨⟨7, 0⟩, []⟩], [⟨4611686018427387904, [opEqual]⟩, ⟨4611686018427387904, [opEqual]⟩]⟩
      [4294967295] := by
  intro h
  have hsum := h.checkTransaction
  revert hsum
  decide +kernel

end Rapids.Chain
