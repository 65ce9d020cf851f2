import Rapids.Chain.Payments

/-!
# Rapids.Chain.Staking

**Building a coinstake** (`CWallet::CreateCoinStake`, `wallet/wallet.cpp`, and
`CPivStake::CreateTxOuts`, `stakeinput.cpp`).

The wallet tries its coins one after the other. The first coin whose kernel meets
the target and whose script it can pay to again is spent: marker, dev fund, the
stake and its reward in one or more outputs, and then the payment that
`FillBlockPayee` adds.

What the search meets is given with each coin: whether a kernel is found, and
whether the search is cut short (a new tip, a locked wallet, a shutdown). Of the
wallet its keys, its split threshold and its signature are read; the hash of the
new transaction is given.
-/

namespace Rapids.Chain

open Rapids.Lib

/-- `GetBlockStakeSubsidy`: two tenths. -/
def getBlockStakeSubsidy (nHeight : Nat) : Int :=
  if nHeight = 1 then getBlockValue nHeight else 3567000

/-! ### Recognizing the script of a coin -/

/-- `CPubKey::GetLen` -/
def pubKeyLen (chHeader : UInt8) : Nat :=
  if chHeader = 2 || chHeader = 3 then 33
  else if chHeader = 4 || chHeader = 6 || chHeader = 7 then 65
  else 0

/-- `CPubKey::ValidSize` -/
def validPubKeySize (vch : List UInt8) : Bool :=
  match vch with
  | [] => false
  | header :: _ => pubKeyLen header = vch.length

variable (s : Script)

/-- `MatchPayToPubkey` -/
def matchPayToPubkey : Option (List UInt8) :=
  let pubkey := s.tail.dropLast
  if ((s.length = 67 && s.head? = some 65) || (s.length = 35 && s.head? = some 33)) &&
      s.getLast? = some opCheckSig && validPubKeySize pubkey then some pubkey
  else none

/-- `MatchPayToPubkeyHash` -/
def matchPayToPubkeyHash : Option (List UInt8) :=
  if s.length = 25 && s[0]? = some opDup && s[1]? = some opHash160 && s[2]? = some 20 &&
      s[23]? = some opEqualVerify && s[24]? = some opCheckSig then some ((s.drop 3).take 20)
  else none

/-- `MatchPayToColdStaking`, the hash of the staker's key. -/
def matchPayToColdStaking : Option (List UInt8) :=
  if isPayToColdStaking s then some ((s.drop 6).take 20) else none

/-- `IsPayToScriptHash` -/
def isPayToScriptHash : Bool :=
  s.length = 23 && s[0]? = some opHash160 && s[1]? = some 20 && s[22]? = some opEqual

/-- What `GetOp` skips behind an opcode that pushes. -/
def skipPush (opcode : UInt8) (rest : Script) : Option Script :=
  let skip (n : Nat) (rest : Script) : Option Script :=
    if n ≤ rest.length then some (rest.drop n) else none
  if opcode < 76 then skip opcode.toNat rest
  else
    match opcode, rest with
    | 76, a :: rest => skip a.toNat rest
    | 77, a :: b :: rest => skip (a.toNat + 256 * b.toNat) rest
    | 78, a :: b :: c :: d :: rest =>
      skip (a.toNat + 256 * (b.toNat + 256 * (c.toNat + 256 * d.toNat))) rest
    | 76, _ => none
    | 77, _ => none
    | 78, _ => none
    | _, rest => some rest

/-- The loop of `IsPushOnly`, of at most so many rounds. -/
def isPushOnlyLoop : Nat → Script → Bool
  | _, [] => true
  | 0, _ => false
  | fuel + 1, opcode :: rest =>
    match skipPush opcode rest with
    | none => false
    | some rest => opcode ≤ 96 && isPushOnlyLoop fuel rest

/-- `IsPushOnly`. A round reads a byte at least. -/
def isPushOnly : Bool := isPushOnlyLoop s.length s

/-- The types of `Solver` that can be staked, with their first solution. -/
inductive StakeType
  | pubKey (pubkey : List UInt8)
  | pubKeyHash (hash : List UInt8)
  | coldStake (stakerHash : List UInt8)

/-- `Solver`, as far as `CreateTxOuts` goes on with the type. -/
def solver : Option StakeType :=
  if isPayToScriptHash s || startsWithOpcode opZerocoinMint s ||
      (startsWithOpcode opReturn s && isPushOnly s.tail) then none
  else
    ((matchPayToPubkey s).map .pubKey).or
      (((matchPayToPubkeyHash s).map .pubKeyHash).or
        ((matchPayToColdStaking s).map .coldStake))

/-! ### The outputs of the stake -/

/-- `CPubKey` of a key that is held. -/
structure PubKey where
  bytes : List UInt8
  valid : validPubKeySize bytes = true

/-- What the wallet contributes. -/
structure Wallet where
  /-- `GetKey`, with the public key of what is found. -/
  getKey : List UInt8 → Option PubKey
  nStakeSplitThreshold : Int
  /-- `SignSignature` -/
  sign : List TxIn → List TxOut → Option Script

/-- `CScript() << pubkey << OP_CHECKSIG` -/
def pubKeyScript (k : PubKey) : Script :=
  UInt8.ofNat k.bytes.length :: (k.bytes ++ [opCheckSig])

/-- The script that `CreateTxOuts` pays to again. -/
def stakeScript (W : Wallet) (onlyP2PK : Bool) (kernel : Script) : Option Script :=
  match solver kernel with
  | none => none
  | some (.pubKey _) => some kernel
  | some (.pubKeyHash hash) =>
    (W.getKey hash).map fun k => if onlyP2PK then pubKeyScript k else kernel
  | some (.coldStake hash) => (W.getKey hash).map fun _ => kernel

/-- Conversion to `int`. -/
def toInt32 (x : Int) : Int := x.bmod 4294967296

/-- The number of outputs the stake is split into; `MAX_STANDARD_TX_SIZE >> 11` is
the most. -/
def stakeSplit (W : Wallet) (nTotal : Int) : Nat :=
  if 0 < W.nStakeSplitThreshold then
    let nSplit := toInt32 (nTotal.tdiv W.nStakeSplitThreshold)
    if 1 < nSplit then (min nSplit 48).toNat else 1
  else 1

/-- `CPivStake::CreateTxOuts` -/
def createTxOuts (W : Wallet) (onlyP2PK : Bool) (kernel : Script) (nTotal : Int) :
    Option (List TxOut) :=
  (stakeScript W onlyP2PK kernel).map fun s => List.replicate (stakeSplit W nTotal) ⟨0, s⟩

/-- Setting the amounts of the outputs behind the dev fund: shares if there are more
than two of them, and what remains on the last. -/
def setAmounts (nCredit : Int) (outs : List TxOut) : List TxOut :=
  let nShare := nCredit.tdiv outs.length
  let shared := 2 < outs.length
  let nRemaining := if shared then nCredit - nShare * (outs.length - 1) else nCredit
  outs.dropLast.map (fun o => if shared then { o with nValue := nShare } else o) ++
    (outs.getLast?.map fun o => { o with nValue := toI64 (o.nValue + nRemaining) }).toList

/-! ### The coinstake -/

/-- `COutput`: a coin of the wallet. -/
structure COutput where
  hash : Nat
  i : Nat
  out : TxOut

/-- What happens when a coin is tried. -/
inductive Attempt
  | interrupted
  | noKernel
  | kernel

/-- `GetSizeOfCompactSize` -/
def sizeOfCompactSize (n : Nat) : Nat :=
  if n < 253 then 1 else if n ≤ 65535 then 3 else if n ≤ 4294967295 then 5 else 9

/-- `GetSerializeSize` of a transaction without inputs. -/
def serializeSize (vout : List TxOut) : Nat :=
  4 + 1 + sizeOfCompactSize vout.length +
    (vout.map fun o =>
      8 + sizeOfCompactSize o.scriptPubKey.length + o.scriptPubKey.length).sum + 4

/-- The coinstake before the search: the marker and the dev fund. -/
def stakeHead (P : ChainParams) (nHeight : Nat) : List TxOut :=
  [⟨0, []⟩, ⟨getBlockDevSubsidy nHeight, getScriptForDestination P.devFund⟩]

/-- `nCredit` of a coin: its value and the block reward. -/
def stakeCredit (nHeight : Nat) (c : COutput) : Int :=
  toI64 (c.out.nValue + getBlockStakeSubsidy nHeight)

/-- The coinstake of a coin whose outputs were created, before the payee. -/
def stakeVout (P : ChainParams) (nHeight : Nat) (c : COutput) (outs : List TxOut) : List TxOut :=
  stakeHead P nHeight ++ setAmounts (stakeCredit nHeight c) outs

section Create

variable (P : ChainParams) (M : Payments) (W : Wallet) (onlyP2PK : Bool) (nHeight : Nat)

/-- The kernel search, with whether the last coin was a kernel: the inputs and the
outputs. When that was a kernel without outputs, the search ends as if it had
succeeded. -/
def kernelSearch : Bool → List (COutput × Attempt) → Option (List TxIn × List TxOut)
  | fKernelFound, [] => if fKernelFound then some ([], stakeHead P nHeight) else none
  | _, (_, .interrupted) :: _ => none
  | _, (_, .noKernel) :: rest => kernelSearch false rest
  | _, (c, .kernel) :: rest =>
    match createTxOuts W onlyP2PK c.out.scriptPubKey (stakeCredit nHeight c) with
    | none => kernelSearch true rest
    | some outs =>
      if 75000 / 5 ≤ serializeSize (stakeVout P nHeight c outs) then none
      else
        some ([⟨⟨c.hash, c.i⟩, []⟩],
          M.fillBlockPayee nHeight true (stakeVout P nHeight c outs))

/-- `CWallet::CreateCoinStake`, for a block of the height. -/
def createCoinStake (getHash : List TxIn → List TxOut → Nat)
    (availableCoins : List (COutput × Attempt)) : Option Transaction := do
  let (vin, vout) ← kernelSearch P M W onlyP2PK nHeight false availableCoins
  let vin ← vin.mapM fun i => (W.sign vin vout).map fun sig => { i with scriptSig := sig }
  some ⟨getHash vin vout, vin, vout⟩

end Create

end Rapids.Chain
