import Mathlib.Data.Prod.Lex
import Rapids.Lib.Int64

/-!
# Rapids.Chain.Transaction

**Scripts and transactions** (`script/script.cpp`, `script/standard.cpp`,
`primitives/transaction.cpp`), as far as connecting a block reads them.

A script is its bytes and an amount is an `Int` in the range of a `CAmount`. A
transaction carries its hash. Zerocoin spends are not modelled beyond their
recognition: `CheckBlock` refuses every block that has one.
-/

namespace Rapids.Chain

open Rapids.Lib

/-! ### Scripts -/

abbrev Script := List UInt8

def opReturn : UInt8 := 0x6a
def opDup : UInt8 := 0x76
def opRot : UInt8 := 0x7b
def opEqual : UInt8 := 0x87
def opEqualVerify : UInt8 := 0x88
def opHash160 : UInt8 := 0xa9
def opCheckSig : UInt8 := 0xac
def opZerocoinMint : UInt8 := 0xc1
def opZerocoinSpend : UInt8 := 0xc2
def opZerocoinPublicSpend : UInt8 := 0xc3
def opCheckColdStakeVerify : UInt8 := 0xd1

/-- `MAX_SCRIPT_SIZE` -/
def maxScriptSize : Nat := 10000

/-- `IsPayToColdStaking` -/
def isPayToColdStaking (s : Script) : Bool :=
  s.length = 51 && s[2]? = some opRot && s[4]? = some opCheckColdStakeVerify &&
    s[5]? = some 0x14 && s[27]? = some 0x14 && s[49]? = some opEqualVerify &&
    s[50]? = some opCheckSig

/-- `IsUnspendable` -/
def isUnspendable (s : Script) : Bool := s.head? = some opReturn || maxScriptSize < s.length

/-- `StartsWithOpcode` -/
def startsWithOpcode (op : UInt8) (s : Script) : Bool := s.head? = some op

/-- `CTxDestination` -/
inductive Destination
  | none
  | keyID (hash : Vector UInt8 20)
  | scriptID (hash : Vector UInt8 20)

/-- `GetScriptForDestination` -/
def getScriptForDestination : Destination → Script
  | .none => []
  | .keyID hash => [opDup, opHash160, 20] ++ hash.toList ++ [opEqualVerify, opCheckSig]
  | .scriptID hash => [opHash160, 20] ++ hash.toList ++ [opEqual]

theorem isPayToColdStaking_destination (d : Destination) :
    isPayToColdStaking (getScriptForDestination d) = false := by
  cases d <;> simp [isPayToColdStaking, getScriptForDestination]

/-! ### Transactions -/

/-- `COutPoint` -/
structure OutPoint where
  hash : Nat
  n : Nat
  deriving DecidableEq

instance : LinearOrder OutPoint :=
  LinearOrder.lift' (fun k => toLex (k.hash, k.n)) fun a b h => by
    cases a
    cases b
    simpa using h

/-- `COutPoint::IsNull` -/
def OutPoint.isNull (o : OutPoint) : Bool := o.hash = 0 && o.n = 4294967295

/-- `CTxIn` -/
structure TxIn where
  prevout : OutPoint
  scriptSig : Script
  deriving DecidableEq

/-- `CTxOut` -/
structure TxOut where
  nValue : Int
  scriptPubKey : Script
  deriving DecidableEq

/-- `CTxOut::SetNull` -/
def TxOut.null : TxOut := ⟨-1, []⟩

/-- `CTxOut::IsNull` -/
def TxOut.isNull (o : TxOut) : Bool := o.nValue = -1

/-- `CTxOut::IsEmpty` -/
def TxOut.isEmpty (o : TxOut) : Bool := o.nValue = 0 && o.scriptPubKey = []

/-- `CTransaction` -/
structure Transaction where
  hash : Nat
  vin : List TxIn
  vout : List TxOut
  deriving DecidableEq

/-- `CTxIn::IsZerocoinSpend` -/
def TxIn.isZerocoinSpend (i : TxIn) : Bool :=
  i.prevout.hash = 0 && startsWithOpcode opZerocoinSpend i.scriptSig

/-- `CTxIn::IsZerocoinPublicSpend` -/
def TxIn.isZerocoinPublicSpend (i : TxIn) : Bool :=
  startsWithOpcode opZerocoinPublicSpend i.scriptSig

namespace Transaction

variable (tx : Transaction)

/-- `HasZerocoinSpendInputs` -/
def hasZerocoinSpendInputs : Bool :=
  tx.vin.any fun i => i.isZerocoinSpend || i.isZerocoinPublicSpend

/-- `HasZerocoinMintOutputs` -/
def hasZerocoinMintOutputs : Bool :=
  tx.vout.any fun o => startsWithOpcode opZerocoinMint o.scriptPubKey

/-- `ContainsZerocoins` -/
def containsZerocoins : Bool :=
  tx.hasZerocoinSpendInputs || tx.hasZerocoinMintOutputs

/-- `IsCoinBase` -/
def isCoinBase : Bool :=
  match tx.vin with
  | [i] => i.prevout.isNull && !tx.containsZerocoins
  | _ => false

/-- `IsCoinStake` -/
def isCoinStake : Bool :=
  match tx.vin, tx.vout with
  | i :: _, o :: _ :: _ => !(i.prevout.isNull && !i.isZerocoinSpend) && o.isEmpty
  | _, _ => false

/-- `HasP2CSOutputs` -/
def hasP2CSOutputs : Bool := tx.vout.any fun o => isPayToColdStaking o.scriptPubKey

/-- Where the loop of `CheckColdStake` begins: behind the marker, and behind the
second output where that pays the dev fund. -/
def keyIndex (devScript : Script) (tx : Transaction) : Nat :=
  if (tx.vout[1]?).map TxOut.scriptPubKey = some devScript then 2 else 1

/-- `CheckColdStake`, with the script of the dev fund. The loop stops before the
last output. -/
def checkColdStake (devScript : Script) (tx : Transaction) (script : Script) : Bool :=
  tx.isCoinStake &&
    tx.vin.all (fun i => (tx.vin.head?).map TxIn.scriptSig = some i.scriptSig) &&
      (tx.vout.dropLast.drop (tx.keyIndex devScript)).all fun o => o.scriptPubKey = script

/-- The loop of `GetValueOut`; an exception is `none`. -/
def getValueOutLoop : List TxOut → Int → Option Int
  | [], acc => some acc
  | o :: rest, acc =>
    if o.nValue < 0 then none
    else if toI64 (acc + o.nValue) < acc then none
    else getValueOutLoop rest (toI64 (acc + o.nValue))

/-- `GetValueOut` -/
def getValueOut : Option Int := getValueOutLoop tx.vout 0

end Transaction

/-! ### Values -/

/-- The exact value of a list of outputs. -/
def totalOut (outs : List TxOut) : Int := (outs.map TxOut.nValue).sum

@[simp] theorem totalOut_nil : totalOut [] = 0 := rfl

@[simp] theorem totalOut_cons (o : TxOut) (rest : List TxOut) :
    totalOut (o :: rest) = o.nValue + totalOut rest := by
  simp [totalOut]

@[simp] theorem totalOut_append (xs ys : List TxOut) :
    totalOut (xs ++ ys) = totalOut xs + totalOut ys := by
  simp [totalOut]

theorem totalOut_nonneg {outs : List TxOut} (h : ∀ o ∈ outs, 0 ≤ o.nValue) : 0 ≤ totalOut outs := by
  induction outs with
  | nil => simp
  | cons o rest ih =>
    rw [totalOut_cons]
    have ho := h o (.head _)
    have hrest := ih fun x hx => h x (List.mem_cons_of_mem o hx)
    omega

/-- Where `GetValueOut` does not throw and the amounts are 64-bit, its result is exact. -/
theorem getValueOutLoop_exact {outs : List TxOut} {acc v : Int} (hacc : 0 ≤ acc)
    (hacc' : acc ≤ i64Max) (hin : ∀ o ∈ outs, o.nValue ≤ i64Max)
    (h : Transaction.getValueOutLoop outs acc = some v) : v = acc + totalOut outs := by
  induction outs generalizing acc with
  | nil =>
    cases h
    simp
  | cons o rest ih =>
    rw [Transaction.getValueOutLoop] at h
    split_ifs at h with hneg hwrap
    have hexact : toI64 (acc + o.nValue) = acc + o.nValue :=
      toI64_add_exact hacc hacc' (by omega) (hin o (.head _)) (by omega)
    have hrange : InI64 (acc + o.nValue) := hexact ▸ inI64_toI64 _
    rw [hexact] at h
    rw [ih (by omega) hrange.2 (fun x hx => hin x (List.mem_cons_of_mem o hx)) h, totalOut_cons]
    omega

end Rapids.Chain
