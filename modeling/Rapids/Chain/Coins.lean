import Rapids.Chain.Transaction
import Rapids.Lib.OrdMap

/-!
# Rapids.Chain.Coins

**The coins view** (`coins.cpp`) and what one transaction does to it
(`UpdateCoins`, `ApplyTxInUndo` in `main.cpp`).

The layers of caches are one finite map from outpoints to unspent coins. Adding
a coin where an unspent one is stored is an exception and so `none`; a cache that
never looked the stored coin up would overwrite it instead, and a connection
that does so is not one of this model.
-/

namespace Rapids.Chain

open Rapids.Lib

variable {v : Coins} {o : OutPoint}

/-! ### Coins and views -/

/-- `Coin` -/
structure Coin where
  out : TxOut
  nHeight : Nat
  fCoinBase : Bool
  fCoinStake : Bool
  deriving DecidableEq

/-- `coinEmpty` -/
def Coin.empty : Coin := ⟨TxOut.null, 0, false, false⟩

/-- `Coin::IsSpent` -/
def Coin.isSpent (c : Coin) : Bool := c.out.isNull

/-- The unspent coins. -/
abbrev Coins := OrdMap OutPoint Coin

namespace Coins

/-- `AccessCoin` -/
def accessCoin (v : Coins) (o : OutPoint) : Coin := (v.find? o).getD Coin.empty

/-- `HaveCoin` -/
def haveCoin (v : Coins) (o : OutPoint) : Bool := !(accessCoin v o).isSpent

/-- `AddCoin` without `possible_overwrite`. -/
def addCoin (v : Coins) (o : OutPoint) (c : Coin) : Option Coins :=
  if c.isSpent then none
  else if isUnspendable c.out.scriptPubKey then some v
  else if haveCoin v o then none
  else some (v.insert o c)

/-- The loop of `AddCoins`, from output `i` on. -/
def addCoinsFrom (tx : Transaction) (nHeight : Nat) : Nat → List TxOut → Coins → Option Coins
  | _, [], v => some v
  | i, o :: rest, v => do
    let v ← addCoin v ⟨tx.hash, i⟩ ⟨o, nHeight, tx.isCoinBase, tx.isCoinStake⟩
    addCoinsFrom tx nHeight (i + 1) rest v

/-- `AddCoins` -/
def addCoins (v : Coins) (tx : Transaction) (nHeight : Nat) : Option Coins :=
  addCoinsFrom tx nHeight 0 tx.vout v

/-- `SpendCoin`, with the coin moved out. -/
def spendCoin (v : Coins) (o : OutPoint) : Coin × Coins := (accessCoin v o, v.erase o)

/-- The loop over the inputs in `UpdateCoins`. -/
def spendInputs : List TxIn → Coins → List Coin × Coins
  | [], v => ([], v)
  | i :: rest, v =>
    let (c, v) := spendCoin v i.prevout
    let (cs, v) := spendInputs rest v
    (c :: cs, v)

/-- `UpdateCoins`: the undo record of the transaction and the new view. -/
def updateCoins (v : Coins) (tx : Transaction) (nHeight : Nat) : Option (List Coin × Coins) :=
  let (undo, v) := if tx.isCoinBase then ([], v) else spendInputs tx.vin v
  (addCoins v tx nHeight).map fun v => (undo, v)

/-- The loop of `GetValueIn`. -/
def valueInLoop (v : Coins) : List TxIn → Int → Int
  | [], acc => acc
  | i :: rest, acc => valueInLoop v rest (toI64 (acc + (accessCoin v i.prevout).out.nValue))

/-- `GetValueIn` -/
def getValueIn (v : Coins) (tx : Transaction) : Int :=
  if tx.isCoinBase then 0 else valueInLoop v tx.vin 0

/-- `HaveInputs` -/
def haveInputs (v : Coins) (tx : Transaction) : Bool :=
  tx.isCoinBase || tx.vin.all fun i => haveCoin v i.prevout

/-! ### Undoing a transaction -/

/-- `MAX_OUTPUTS_PER_BLOCK`: the block size limit over the size of an empty output. -/
def maxOutputsPerBlock : Nat := 200000 / 9

/-- `AccessByTxid`: the first unspent output of a transaction. The entries of
the map ascend by hash and output. -/
def accessByTxid (v : Coins) (txid : Nat) : Coin :=
  match v.entries.find? fun e =>
      e.1.hash = txid && e.1.n < maxOutputsPerBlock && !e.2.isSpent with
  | some e => e.2
  | none => Coin.empty

/-- `ApplyTxInUndo`: was the place free, and the new view; `none` is
`DISCONNECT_FAILED` or an exception. -/
def applyTxInUndo (undo : Coin) (v : Coins) (out : OutPoint) : Option (Bool × Coins) :=
  let fClean := !haveCoin v out
  if undo.nHeight = 0 then
    let alternate := accessByTxid v out.hash
    if alternate.isSpent then none
    else
      (addCoin v out ⟨undo.out, alternate.nHeight, alternate.fCoinBase, alternate.fCoinStake⟩).map
        fun v => (fClean, v)
  else (addCoin v out undo).map fun v => (fClean, v)

/-- The loop of `DisconnectBlock` over the outputs of a transaction, from output
`i` on: do they all match, and the new view. -/
def spendOutputs (hash : Nat) : Nat → List TxOut → Coins → Bool × Coins
  | _, [], v => (true, v)
  | i, o :: rest, v =>
    if isUnspendable o.scriptPubKey then spendOutputs hash (i + 1) rest v
    else
      let (coin, v) := spendCoin v ⟨hash, i⟩
      let (clean, v) := spendOutputs hash (i + 1) rest v
      (decide (o = coin.out) && clean, v)

/-- The loop of `DisconnectBlock` over the inputs, the last one first. -/
def restoreInputs : List TxIn → List Coin → Coins → Option (Bool × Coins)
  | [], [], v => some (true, v)
  | i :: is, c :: cs, v => do
    let (clean, v) ← restoreInputs is cs v
    let (clean', v) ← applyTxInUndo c v i.prevout
    some (clean && clean', v)
  | _, _, _ => none

/-! ### Lookups -/

theorem accessCoin_of_find {c : Coin} (h : v.find? o = some c) :
    accessCoin v o = c := by
  rw [accessCoin, h, Option.getD_some]

theorem find_of_haveCoin (h : haveCoin v o = true) :
    v.find? o = some (accessCoin v o) := by
  cases hf : v.find? o with
  | none => simp [haveCoin, accessCoin, hf, Coin.isSpent, Coin.empty, TxOut.isNull, TxOut.null] at h
  | some c => rw [accessCoin_of_find hf]

theorem haveCoin_of_find_none (h : v.find? o = none) :
    haveCoin v o = false := by
  simp [haveCoin, accessCoin, h, Coin.isSpent, Coin.empty, TxOut.isNull, TxOut.null]

/-- What `AddCoin` does: nothing for an unspendable output, else it stores the coin. -/
theorem addCoin_eq_some {v' : Coins} {c : Coin} (h : addCoin v o c = some v') :
    c.isSpent = false ∧
      ((isUnspendable c.out.scriptPubKey = true ∧ v' = v) ∨
        (isUnspendable c.out.scriptPubKey = false ∧ haveCoin v o = false ∧ v' = v.insert o c)) := by
  unfold addCoin at h
  split_ifs at h with h1 h2 h3
  · exact ⟨by simpa using h1, .inl ⟨h2, (Option.some.inj h).symm⟩⟩
  · exact ⟨by simpa using h1, .inr ⟨by simpa using h2, by simpa using h3, (Option.some.inj h).symm⟩⟩

theorem addCoin_of_free {c : Coin} (h1 : c.isSpent = false)
    (h2 : isUnspendable c.out.scriptPubKey = false) (h3 : v.find? o = none) :
    addCoin v o c = some (v.insert o c) := by
  simp [addCoin, h1, h2, haveCoin_of_find_none h3]

end Coins

end Rapids.Chain
