import Rapids.Payload.ParseTransaction

/-!
# Rapids.Payload.WalletTx

**Building a token transaction in the wallet** (`tokencore/wallettxbuilder.cpp`, the
coin selection of `tokencore/walletutils.cpp`, and `CWallet::CreateTransaction`).

`WalletTxBuilder` spends coins of the sender only, and its change goes to the sender
in the last output. `CreateFundedTransaction` spends all coins of the sender first and
then coins of a second address, which pays the fee and gets the change in the first
output.

`CreateTransaction` goes round until the fee is enough. A round chooses coins, lays
out the outputs, and deals with the change: it is added to an output with the same
script, given up if it would be dust, or gets an output of its own. The script of the
change outlives its round.

Of the wallet its transactions are given, with what it knows of each output. Coins are
picked at random there, and the coins of a transaction are in the order of their
addresses in memory; both are left open, up to the choice being one of coins on offer.
So are signatures, hashes, sizes, and the priority that lets a transaction go free.
-/

namespace Rapids.Payload

open Rapids.Lib Rapids.Chain

/-! ### The wallet -/

/-- `isminetype` of an output -/
inductive IsMine
  | no
  | watchOnly
  | cold
  | spendableDelegated
  | spendable
  deriving DecidableEq

/-- An output of a wallet transaction, with what the wallet knows of it. -/
structure WalletOut where
  out : TxOut
  mine : IsMine
  /-- `IsMine` of the destination -/
  destMine : Bool
  isSpent : Bool
  isLocked : Bool
  deriving DecidableEq

/-- `CWalletTx` -/
structure WalletTx where
  hash : Nat
  isTrusted : Bool
  /-- `GetAvailableCredit` is not zero. -/
  hasCredit : Bool
  /-- `CheckTXAvailability` -/
  isAvailable : Bool
  vout : List WalletOut

/-- `COutput` -/
structure WalletCoin where
  prevout : OutPoint
  out : WalletOut
  deriving DecidableEq

def WalletTx.coins (wtx : WalletTx) : List WalletCoin :=
  wtx.vout.zipIdx.map fun (o, n) => ⟨⟨wtx.hash, n⟩, o⟩

/-- The value of coins. -/
def coinValue (coins : List WalletCoin) : Int := totalOut (coins.map (·.out.out))

/-- The wallet, its settings, and what it asks for. -/
structure TokenWallet where
  mapWallet : List WalletTx
  getPubKeyFromDestination : Destination → Option PubKey
  /-- `SelectCoinsMinConf`, in a round, for a target -/
  selectCoinsMinConf : Nat → Int → List WalletCoin → Option (List WalletCoin)
  selectCoinsMinConf_subset : ∀ {round target coins picked},
    selectCoinsMinConf round target coins = some picked → picked ⊆ coins
  /-- The order of a `std::set` of pointers -/
  arrange : List WalletCoin → List WalletCoin
  arrange_perm : ∀ coins, (arrange coins).Perm coins
  /-- `ProduceSignature`, for each input -/
  sign : List OutPoint → List TxOut → Option (Nat → Script)
  /-- `DummySignatureCreator` has a signature for each coin. -/
  dummySigns : List WalletCoin → Bool
  getHash : List TxIn → List TxOut → Nat
  /-- The size with signatures -/
  signedSize : List WalletCoin → List TxOut → Nat
  /-- The coins have the priority that a free transaction of a size needs. -/
  goesFree : List WalletCoin → Nat → Bool
  goesFree_nil : ∀ size, goesFree [] size = false
  /-- `CommitTransaction`, `AcceptToMemoryPool` -/
  accepts : List TxIn → List TxOut → Bool
  minRelayTxFee : FeeRate
  minRelayTxFee_pos : 0 < minRelayTxFee
  minTxFee : FeeRate
  payTxFee : FeeRate
  /-- `estimateSmartFee`, with the target it is for -/
  smartFee : FeeRate × Nat
  nTxConfirmTarget : Nat
  maxTxFee : Int
  /-- `-datacarrier` -/
  fDataCarrier : Bool
  nMaxDatacarrierBytes : Nat
  nMaxDatacarrierBytes_lt : nMaxDatacarrierBytes < 2 ^ 32
  /-- `GetHeight` -/
  height : Nat

namespace TokenWallet

variable (W : TokenWallet)

def coins : List WalletCoin := W.mapWallet.flatMap WalletTx.coins

/-! ### Fees -/

/-- `GetRequiredFee` -/
def getRequiredFee (nTxBytes : Nat) : Int :=
  max (FeeRate.getFee W.minTxFee nTxBytes) (FeeRate.getFee W.minRelayTxFee nTxBytes)

/-- `GetMinimumFee` -/
def getMinimumFee (nTxBytes : Nat) : Int :=
  let nFeeNeeded := FeeRate.getFee W.payTxFee nTxBytes
  let nFeeNeeded :=
    if nFeeNeeded = 0 then
      let smart := FeeRate.getFee W.smartFee.1 nTxBytes
      if smart = 0 ∨ W.nTxConfirmTarget < W.smartFee.2 then max smart (W.getRequiredFee nTxBytes) else smart
    else nFeeNeeded
  let nFeeNeeded := max nFeeNeeded (FeeRate.getFee W.minRelayTxFee nTxBytes)
  min nFeeNeeded W.maxTxFee

/-- `GetEconomicThreshold`, with `GetEstimatedFeePerKb` -/
def getEconomicThreshold (s : Script) : Int :=
  max (dustThreshold W.minRelayTxFee s) (dustThreshold (W.getMinimumFee 1000) s / 3)

/-! ### Coins of an address -/

variable (N : TokenNetwork)

/-- `CheckInput`: the destination of an output that qualifies as input. -/
def checkInput (o : TxOut) : Option Destination :=
  match safeSolver o.scriptPubKey with
  | none => none
  | some whichType =>
    if isAllowedInputType whichType then extractDestination N.hash160 o.scriptPubKey else none

variable (fromAddress : List UInt8)

/-- The checks that `SelectCoins` and `SelectAllCoins` share. -/
def isOwnCoin (o : WalletOut) : Bool :=
  match checkInput N o.out with
  | none => false
  | some dest => o.destMine && !o.isSpent && !o.isLocked && fromAddress = N.encode dest

/-- The loop over the outputs of a transaction, with the total so far. -/
def selectOuts (isWanted : WalletOut → Bool) (nMax : Int) :
    List WalletCoin → List WalletCoin × Int → List WalletCoin × Int
  | [], selected => selected
  | c :: rest, selected =>
    if isWanted c.out then
      if nMax ≤ selected.2 + c.out.out.nValue then
        (selected.1 ++ [c], selected.2 + c.out.out.nValue)
      else selectOuts isWanted nMax rest (selected.1 ++ [c], selected.2 + c.out.out.nValue)
    else selectOuts isWanted nMax rest selected

/-- The loop over the wallet. -/
def selectTxs (isWanted : WalletOut → Bool) (nMax : Int) :
    List WalletTx → List WalletCoin × Int → List WalletCoin × Int
  | [], selected => selected
  | wtx :: rest, selected =>
    if !wtx.isTrusted || !wtx.hasCredit then selectTxs isWanted nMax rest selected
    else if nMax ≤ (selectOuts isWanted nMax wtx.coins selected).2 then
      selectOuts isWanted nMax wtx.coins selected
    else selectTxs isWanted nMax rest (selectOuts isWanted nMax wtx.coins selected)

/-- `SelectCoins`: the coins, and their total. -/
def selectCoins (additional : Int) : List WalletCoin × Int :=
  let nMax := 20 * W.getMinimumFee 1000 + if 0 < additional then additional else 0
  selectTxs
    (fun o => isOwnCoin N fromAddress o && !decide (o.out.nValue < W.getEconomicThreshold o.out.scriptPubKey))
    nMax W.mapWallet ([], 0)

/-- `SelectAllCoins` -/
def selectAllCoins : List WalletCoin :=
  (W.mapWallet.filter fun wtx => wtx.isTrusted && wtx.hasCredit).flatMap fun wtx =>
    wtx.coins.filter fun c => isOwnCoin N fromAddress c.out

/-! ### Coins on offer -/

/-- `CCoinControl` -/
structure CoinControl where
  destChange : Destination
  setSelected : List WalletCoin
  fAllowOtherInputs : Bool

/-- `ListSelected`: a set of outpoints, in their order. -/
def CoinControl.listSelected (coinControl : CoinControl) : List OutPoint :=
  ((coinControl.setSelected.map WalletCoin.prevout).dedup).insertionSort (· ≤ ·)

/-- `AvailableCoins`, without cold coins. With a coin control watch-only coins are left
out, so that every coin is spendable. -/
def availableCoins (isLocked : WalletCoin → Bool) (coinControl : Option CoinControl)
    (fIncludeDelegated : Bool) : List WalletCoin :=
  let selected := (coinControl.map CoinControl.setSelected).getD []
  let others := (coinControl.map CoinControl.fAllowOtherInputs).getD true
  (W.mapWallet.filter WalletTx.isAvailable).flatMap fun wtx =>
    wtx.coins.filter fun c =>
      !c.out.isSpent && c.out.mine ≠ .no && !(c.out.mine = .watchOnly && coinControl.isSome) &&
        !isLocked c && 0 < c.out.out.nValue &&
        (selected = [] || others || (selected.map WalletCoin.prevout).contains c.prevout) &&
        c.out.mine ≠ .cold && (c.out.mine ≠ .spendableDelegated || fIncludeDelegated || selected ≠ [])

/-- `SelectCoinsToSpend` -/
def selectCoinsToSpend (round : Nat) (vAvailableCoins : List WalletCoin) (nTargetValue : Int)
    (coinControl : CoinControl) : Option (List WalletCoin) :=
  if coinControl.setSelected ≠ [] ∧ coinControl.fAllowOtherInputs = false then
    if nTargetValue ≤ coinValue vAvailableCoins then some vAvailableCoins else none
  else
    let preset := coinControl.setSelected
    let vCoins := vAvailableCoins.filter fun c => !(preset.map WalletCoin.prevout).contains c.prevout
    if nTargetValue ≤ coinValue preset then some preset
    else (W.selectCoinsMinConf round (nTargetValue - coinValue preset) vCoins).map (· ++ preset)

/-! ### `CreateTransaction` -/

/-- A round of `CreateTransaction`: coins and fee to start with, and what became of them. -/
structure Round where
  setCoins : List WalletCoin
  nFee : Int
  vout : List TxOut
  nFeeRet : Int
  /-- `none` is -1. -/
  nChangePosInOut : Option Nat
  scriptChange : Script

/-- What is left of the coins. -/
def changeLeft (vecSend : List TxOut) (setCoins : List WalletCoin) (nFee : Int) : Int :=
  coinValue setCoins - totalOut vecSend - nFee

/-- Add the change to the first output with its script. -/
def combineChange (scriptChange : Script) (nChange : Int) : List TxOut → Option (List TxOut)
  | [] => none
  | o :: rest =>
    if scriptChange = o.scriptPubKey then some ({ o with nValue := o.nValue + nChange } :: rest)
    else (combineChange scriptChange nChange rest).map (o :: ·)

/-- The outputs with the change, for a given choice of coins and fee. -/
def placeChange (vecSend : List TxOut) (destChange : Destination) (nChangePosRequest : Nat)
    (scriptBefore : Script) (setCoins : List WalletCoin) (nFee : Int) : Option Round :=
  let nChange := changeLeft vecSend setCoins nFee
  if 0 < nChange then
    let scriptChange := getScriptForDestination destChange
    match combineChange scriptChange nChange vecSend with
    | some vout => some ⟨setCoins, nFee, vout, nFee, some nChangePosRequest, scriptChange⟩
    | none =>
      if isDust W.minRelayTxFee ⟨nChange, scriptChange⟩ then
        some ⟨setCoins, nFee, vecSend, nFee + nChange, none, scriptChange⟩
      else if vecSend.length < nChangePosRequest then none
      else
        some ⟨setCoins, nFee, vecSend.insertIdx nChangePosRequest ⟨nChange, scriptChange⟩, nFee,
          some nChangePosRequest, scriptChange⟩
  else some ⟨setCoins, nFee, vecSend, nFee, some nChangePosRequest, scriptBefore⟩

/-- The loop of `CreateTransaction`, of at most so many rounds. -/
def createLoop (vAvailableCoins : List WalletCoin) (vecSend : List TxOut) (coinControl : CoinControl)
    (nChangePosRequest : Nat) (fSign : Bool) : Nat → Int → Script → Option Round
  | 0, _, _ => none
  | rounds + 1, nFee, scriptBefore =>
    if vecSend.any (isDust W.minRelayTxFee) then none
    else
      match W.selectCoinsToSpend rounds vAvailableCoins (totalOut vecSend + nFee) coinControl with
      | none => none
      | some setCoins =>
        match W.placeChange vecSend coinControl.destChange nChangePosRequest scriptBefore setCoins nFee with
        | none => none
        | some round =>
          let nBytes := W.signedSize round.setCoins round.vout
          let nFeeNeeded := max 0 (W.getMinimumFee nBytes)
          let signSuccess :=
            if fSign then (W.sign ((W.arrange round.setCoins).map WalletCoin.prevout) round.vout).isSome
            else W.dummySigns round.setCoins
          if !signSuccess then none
          else if 100000 ≤ nBytes then none
          else if W.goesFree round.setCoins nBytes then some round
          else if nFeeNeeded < FeeRate.getFee W.minRelayTxFee nBytes then none
          else if nFeeNeeded ≤ round.nFeeRet then some round
          else
            createLoop vAvailableCoins vecSend coinControl nChangePosRequest fSign rounds nFeeNeeded
              round.scriptChange

/-- `CreateTransaction`, for a valid change address. -/
def createTransaction (rounds : Nat) (isLocked : WalletCoin → Bool) (vecSend : List TxOut)
    (coinControl : CoinControl) (nChangePosRequest : Nat) (fSign : Bool) : Option Round :=
  if (vecSend.any fun o => o.nValue < 0) ∨ vecSend = [] then none
  else
    match W.createLoop (W.availableCoins isLocked (some coinControl) false) vecSend coinControl
        nChangePosRequest fSign rounds 0 [] with
    | none => none
    | some round => if round.scriptChange = [] ∧ round.nChangePosInOut ≠ none then none else some round

/-! ### Building -/

/-- `UseEncodingClassC` -/
def useEncodingClassC (nulldataBlock nDataSize : Nat) : Bool :=
  nDataSize + omMarker.length ≤ W.nMaxDatacarrierBytes && W.fDataCarrier &&
    isAllowedOutputType nulldataBlock W.height .nullData

/-- `MP_…`, the codes of builders that fail -/
inductive BuildError
  | inputsInvalid
  | redempBadValidation
  | encodingError
  | inputSelectFail
  | createTx
  | commitTx
  deriving DecidableEq, Repr

/-- `AddressToPubKey` -/
def addressToPubKey (key : List UInt8) : Option PubKey :=
  (W.getPubKeyFromDestination (N.decode key)).filter fun pubKey => N.isFullyValid pubKey.bytes

/-- The data outputs, in the class that is chosen. -/
def encodePayload (nulldataBlock : Nat) (E : Entropy)
    (senderAddress redemptionAddress payload : List UInt8) : Except BuildError (List TxOut) :=
  if W.useEncodingClassC nulldataBlock payload.length then
    match encodeClassC W.nMaxDatacarrierBytes payload with
    | none => .error .encodingError
    | some outputs => .ok outputs
  else
    match W.addressToPubKey N (if redemptionAddress = [] then senderAddress else redemptionAddress) with
    | none => .error .redempBadValidation
    | some redeemingPubKey =>
      match encodeClassB N W.minRelayTxFee E senderAddress redeemingPubKey.bytes payload with
      | none => .error .encodingError
      | some outputs => .ok outputs

/-- A transaction of coins and outputs, with the signatures of its inputs. -/
def assemble (vin : List OutPoint) (vout : List TxOut) : Option Transaction :=
  (W.sign vin vout).map fun scriptSig =>
    let vin := vin.zipIdx.map fun (prevout, i) => ⟨prevout, scriptSig i⟩
    ⟨W.getHash vin vout, vin, vout⟩

/-- The output to a receiver. -/
def receiverOutputs (referenceAmount : Int) (receiverAddress : List UInt8) : List TxOut :=
  let scriptPubKey := getScriptForDestination (N.decode receiverAddress)
  if scriptPubKey = [] then []
  else [⟨if 0 < referenceAmount then referenceAmount else dustThreshold W.minRelayTxFee scriptPubKey, scriptPubKey⟩]

/-- A request to `WalletTxBuilder`. -/
structure BuildRequest where
  senderAddress : List UInt8
  receiverAddresses : List (List UInt8)
  redemptionAddress : List UInt8
  referenceAmount : Int
  payload : List UInt8
  commit : Bool
  nDonation : Int

/-- The receivers that the `WalletTxBuilder` with one address passes on. -/
def receiversOf (receiverAddress : List UInt8) : List (List UInt8) :=
  if receiverAddress = [] then [] else [receiverAddress]

/-- The outputs that `WalletTxBuilder` asks for. -/
def buildOutputs (feeScript : Script) (R : BuildRequest) (dataOutputs : List TxOut) :
    List TxOut :=
  let donation : List TxOut := if 0 < R.nDonation then [⟨R.nDonation, feeScript⟩] else []
  dataOutputs ++ R.receiverAddresses.flatMap (W.receiverOutputs N R.referenceAmount) ++ donation

/-- `WalletTxBuilder` -/
def walletTxBuilder (C : ParseContext) (E : Entropy) (rounds : Nat) (R : BuildRequest) :
    Except BuildError Transaction :=
  let selected := W.selectCoins N R.senderAddress (R.referenceAmount + R.nDonation)
  if selected.2 < 0 then .error .inputsInvalid
  else
    match W.encodePayload N C.nulldataBlock E R.senderAddress R.redemptionAddress R.payload with
    | .error code => .error code
    | .ok dataOutputs =>
      let vecSend := W.buildOutputs N C.feeScript R dataOutputs
      let coinControl : CoinControl := ⟨N.decode R.senderAddress, selected.1, false⟩
      if selected.1 = [] then .error .inputSelectFail
      else
        match W.createTransaction rounds (·.out.isLocked) vecSend coinControl vecSend.length true with
        | none => .error .createTx
        | some round =>
          match W.assemble ((W.arrange round.setCoins).map WalletCoin.prevout) round.vout with
          | none => .error .createTx
          | some tx => if R.commit && !W.accepts tx.vin tx.vout then .error .commitTx else .ok tx

/-- A request to `CreateFundedTransaction`. -/
structure FundedRequest where
  senderAddress : List UInt8
  receiverAddress : List UInt8
  feeAddress : List UInt8
  payload : List UInt8

/-- The outputs that `CreateFundedTransaction` asks for. -/
def fundedOutputs (R : FundedRequest) (dataOutputs : List TxOut) : List TxOut :=
  if R.receiverAddress ≠ [] ∧ R.receiverAddress ≠ R.feeAddress then
    let scriptPubKey := getScriptForDestination (N.decode R.receiverAddress)
    dataOutputs ++ [⟨dustThreshold W.minRelayTxFee scriptPubKey, scriptPubKey⟩]
  else dataOutputs

/-- `LockUnrelatedCoins`: is a coin locked while the transaction is made? -/
def lockedUnrelated (feeSource : Destination) (c : WalletCoin) : Bool :=
  c.out.isLocked ||
    ((W.availableCoins (·.out.isLocked) none false).contains c &&
      extractDestination N.hash160 c.out.out.scriptPubKey ≠ some feeSource)

/-- The call of `CreateTransaction` in `CreateFundedTransaction`: change first, not signed. -/
def fundedRound (rounds : Nat) (R : FundedRequest) (dataOutputs : List TxOut) :
    Option Round :=
  W.createTransaction rounds (W.lockedUnrelated N (N.decode R.feeAddress)) (W.fundedOutputs N R dataOutputs)
    ⟨N.decode R.feeAddress, W.selectAllCoins N R.senderAddress, true⟩ 0 false

/-- `CreateFundedTransaction` -/
def createFundedTransaction (C : ParseContext) (rounds : Nat) (R : FundedRequest) :
    Except BuildError Transaction :=
  if !W.useEncodingClassC C.nulldataBlock R.payload.length then .error .encodingError
  else
    match encodeClassC W.nMaxDatacarrierBytes R.payload with
    | none => .error .encodingError
    | some dataOutputs =>
      let selected := W.selectAllCoins N R.senderAddress
      if coinValue selected = 0 then .error .inputsInvalid
      else
        match W.fundedRound N rounds R dataOutputs with
        | none => .error .createTx
        | some round =>
          -- send to self without change
          if round.nChangePosInOut = none ∧ R.receiverAddress = R.feeAddress then .error .createTx
          else
            -- previously selected coins, then other selected coins
            let vSelectedInputs := (⟨N.decode R.feeAddress, selected, true⟩ : CoinControl).listSelected
            let vin := vSelectedInputs ++
              ((W.arrange round.setCoins).map WalletCoin.prevout).filter (!vSelectedInputs.contains ·)
            match W.assemble vin round.vout with
            | none => .error .createTx
            | some tx => if !W.accepts tx.vin tx.vout then .error .commitTx else .ok tx

end TokenWallet

end Rapids.Payload
