import Rapids.Token.State

/-!
# Rapids.Token.Rules

Consensus parameters, the table of **transaction restrictions** and **feature
activations** (`rules.cpp`, `activation.cpp`, and the alerts they raise).

Features are looked up by a 16-bit identifier that comes from a transaction;
`Feature.ofId` is the `switch` on it, and a feature's `block` is the parameter
that holds its activation height. Activating and deactivating write that one
parameter (`setBlock`), so everything about features reduces to
`block_setBlock`.
-/

namespace Rapids.Token

open Rapids.Lib

/-! ### Parameters of the networks -/

/-- `std::numeric_limits<int>::max()`. -/
def intMax : Nat := 2147483647

/-- The parameters that differ between the networks, over the shared ones. -/
def baseConsensusParams (genesis minBlocks maxBlocks : Nat) : CConsensusParams where
  genesisBlock := genesis
  minActivationBlocks := minBlocks
  maxActivationBlocks := maxBlocks
  tokenFreezeWaitPeriod := 4096
  nulldataBlock := 0
  tokenAlertBlock := 0
  tokenSendBlock := 0
  tokenDexBlock := 0
  tokenSpBlock := 0
  tokenManualspBlock := 0
  tokenStoBlock := 0
  tokenMetadexBlock := 0
  tokenSendAllBlock := 0
  tokenBetBlock := intMax
  tokenStov1Block := intMax
  granteffectsFeatureBlock := 0
  dexmathFeatureBlock := 0
  spcrowdcrossoverFeatureBlock := 0
  tradeallpairsFeatureBlock := 0
  feesFeatureBlock := intMax
  freezenoticeFeatureBlock := intMax

def mainConsensusParams : CConsensusParams := baseConsensusParams 1827900 10080 60480

def testNetConsensusParams : CConsensusParams := baseConsensusParams 10 10080 60480

def regTestConsensusParams : CConsensusParams := baseConsensusParams 1 0 99999999

/-- The parameters a node starts with (`ResetConsensusParams`). -/
def consensusParams : Network → CConsensusParams
  | .main => mainConsensusParams
  | .test => testNetConsensusParams
  | .regtest => regTestConsensusParams

/-! ### Features -/

/-- The features with an activation block. -/
inductive Feature
  | classC
  | metadex
  | betting
  | granteffects
  | dexmath
  | sendall
  | spcrowdcrossover
  | tradeallpairs
  | fees
  | stov1
  | freezenotice
  deriving DecidableEq, Repr

/-- The feature a transaction's identifier names, if the client knows it. -/
def Feature.ofId : Nat → Option Feature
  | 1 => some .classC
  | 2 => some .metadex
  | 3 => some .betting
  | 4 => some .granteffects
  | 5 => some .dexmath
  | 6 => some .sendall
  | 7 => some .spcrowdcrossover
  | 8 => some .tradeallpairs
  | 9 => some .fees
  | 10 => some .stov1
  | 14 => some .freezenotice
  | _ => none

/-- The identifier of a feature (`FEATURE_*`). -/
def Feature.id : Feature → Nat
  | .classC => 1
  | .metadex => 2
  | .betting => 3
  | .granteffects => 4
  | .dexmath => 5
  | .sendall => 6
  | .spcrowdcrossover => 7
  | .tradeallpairs => 8
  | .fees => 9
  | .stov1 => 10
  | .freezenotice => 14

@[simp] theorem Feature.ofId_id (f : Feature) : Feature.ofId f.id = some f := by
  cases f <;> rfl

/-- The parameter that holds a feature's activation block. -/
def Feature.block (p : CConsensusParams) : Feature → Nat
  | .classC => p.nulldataBlock
  | .metadex => p.tokenMetadexBlock
  | .betting => p.tokenBetBlock
  | .granteffects => p.granteffectsFeatureBlock
  | .dexmath => p.dexmathFeatureBlock
  | .sendall => p.tokenSendAllBlock
  | .spcrowdcrossover => p.spcrowdcrossoverFeatureBlock
  | .tradeallpairs => p.tradeallpairsFeatureBlock
  | .fees => p.feesFeatureBlock
  | .stov1 => p.tokenStov1Block
  | .freezenotice => p.freezenoticeFeatureBlock

variable (s : State) (p : CConsensusParams) (featureId : Nat)

/-- Write a feature's activation block. -/
def CConsensusParams.setBlock (f : Feature) (b : Nat) :
    CConsensusParams :=
  match f with
  | .classC => { p with nulldataBlock := b }
  | .metadex => { p with tokenMetadexBlock := b }
  | .betting => { p with tokenBetBlock := b }
  | .granteffects => { p with granteffectsFeatureBlock := b }
  | .dexmath => { p with dexmathFeatureBlock := b }
  | .sendall => { p with tokenSendAllBlock := b }
  | .spcrowdcrossover => { p with spcrowdcrossoverFeatureBlock := b }
  | .tradeallpairs => { p with tradeallpairsFeatureBlock := b }
  | .fees => { p with feesFeatureBlock := b }
  | .stov1 => { p with tokenStov1Block := b }
  | .freezenotice => { p with freezenoticeFeatureBlock := b }

theorem Feature.block_setBlock (f g : Feature) (b : Nat) :
    g.block (p.setBlock f b) = if g = f then b else g.block p := by
  cases f <;> cases g <;> rfl

/-- `GetFeatureName` -/
def getFeatureName : String :=
  match Feature.ofId featureId with
  | some .classC => "Class C transaction encoding"
  | some .metadex => "Distributed Meta Token Exchange"
  | some .betting => "Bet transactions"
  | some .granteffects => "Remove grant side effects"
  | some .dexmath => "DEx integer math update"
  | some .sendall => "Send All transactions"
  | some .spcrowdcrossover => "Disable crowdsale ecosystem crossovers"
  | some .tradeallpairs => "Allow trading all pairs on the Distributed Exchange"
  | some .fees => "Fee system (inc 0.05% fee from trades of non-Token pairs)"
  | some .stov1 => "Cross-property Send To Owners"
  | some .freezenotice => "Activate the waiting period for enabling freezing"
  | none => "Unknown feature"

/-- Is the feature live in the given block? Unknown features never are. -/
def isFeatureActivated (block : Nat) : Bool :=
  match Feature.ofId featureId with
  | none => false
  | some f => decide (f.block p ≤ block)

/-! ### Alerts and authorisation -/

def alertBlockExpiry : Nat := 1
def alertClientVersionExpiry : Nat := 3

/-- `TOKENCORE_VERSION`: 0.5.0.0. -/
def tokencoreVersion : Nat := 50000000

/-- Append an alert; broadcast alerts of an unknown type are dropped. -/
def addAlert (sender : String) (alertType expiry : Nat) (message : String) : State :=
  if sender ≠ "tokencore" ∧ (alertType < alertBlockExpiry ∨ alertClientVersionExpiry < alertType) then s
  else { s with alerts := s.alerts ++ [⟨sender, alertType, expiry, message⟩] }

/-- Drop the alerts of one sender. -/
def deleteAlerts (sender : String) : State :=
  { s with alerts := s.alerts.filter fun a => a.alertSender != sender }

/-- A fixed whitelist, extended and then reduced by command line options. -/
def isWhitelisted (fixed allow ignore : List Address) (sender : Address) : Bool :=
  let whitelisted := (fixed ++ allow).filter fun a => !ignore.contains a
  whitelisted.contains sender || whitelisted.contains "any"

def checkActivationAuthorization (cfg : Config) (sender : Address) : Bool :=
  isWhitelisted ["3Fc5gWzEQh1YGeqVXH6E4GDEGgbZJREJQ3", "33jx18123xJS59hnHwCgsr6zvYPfiCussh"]
    cfg.activationAllowSender cfg.activationIgnoreSender sender

def checkDeactivationAuthorization (cfg : Config) (sender : Address) : Bool :=
  isWhitelisted ["34kwkVRSvFVEoUwcQSgpQ4ZUasuZ54DJLD"]
    cfg.activationAllowSender cfg.activationIgnoreSender sender

def checkAlertAuthorization (cfg : Config) (sender : Address) : Bool :=
  isWhitelisted ["17xr7sbehYY4YSZX9yuJe6gK9rrdRrZx26", "16oDZYCspsczfgKXVj3xyvsxH21NpEj94F",
      "1883ZMsRJfzKNozUBJRPDxQ7EaiNioNDWz", "1HHv91gRxqBzQ3gydMob3LU8hqXcWoLfvd",
      "34kwkVRSvFVEoUwcQSgpQ4ZUasuZ54DJLD"]
    cfg.alertAllowSender cfg.alertIgnoreSender sender

/-! ### Activating and deactivating -/

/-- Schedule an activation, replacing one scheduled earlier (`AddPendingActivation`). -/
def addPendingActivation (a : FeatureActivation) : State :=
  { s with
    pendingActivations := s.pendingActivations.filter (fun b => b.featureId != a.featureId) ++ [a] }

/-- Schedule a feature. Refused outside the notice range and while the feature
is live; an unknown feature is scheduled too, with a warning. -/
def activateFeature (activationBlock minClientVersion block : Nat) :
    Bool × State :=
  if activationBlock < block + s.params.minActivationBlocks ∨
      block + s.params.maxActivationBlocks < activationBlock then (false, s)
  else if isFeatureActivated s.params featureId block then (false, s)
  else
    let feature := Feature.ofId featureId
    let name := getFeatureName featureId
    let supported := feature.isSome && decide (minClientVersion ≤ tokencoreVersion)
    let s₁ := match feature with
      | none => s
      | some f => { s with params := s.params.setBlock f activationBlock }
    let s₂ := addPendingActivation s₁ ⟨featureId, activationBlock, minClientVersion, name⟩
    let text := "Your client must be updated and will shutdown at block " ++ toString activationBlock ++
      " (unsupported feature " ++ toString featureId ++ " ('" ++ name ++ "') activated)\n"
    (true, if supported then s₂ else addAlert s₂ "tokencore" alertBlockExpiry activationBlock text)

/-- Switch a live feature off at once: its block becomes 999999. -/
def deactivateFeature (block : Nat) : Bool × State :=
  if !isFeatureActivated s.params featureId block then (false, s)
  else
    match Feature.ofId featureId with
    | none => (false, s)
    | some f =>
      let text := "An emergency deactivation of feature ID " ++ toString featureId ++
        " (" ++ getFeatureName featureId ++ ") has occurred."
      (true, addAlert { s with params := s.params.setBlock f 999999 } "tokencore"
        alertBlockExpiry (block + 1024) text)

/-- Move the activations that are live in this block to the completed ones. -/
def checkLiveActivations (height : Nat) : State :=
  (s.pendingActivations.filter fun a => decide (a.activationBlock ≤ height)).foldl
    (fun s a =>
      { s with
        pendingActivations := s.pendingActivations.filter fun b => b.featureId != a.featureId
        completedActivations := s.completedActivations ++ [a] }) s

/-! ### Transaction restrictions -/

/-- The transaction types with a handler, and the bet type that has none. -/
inductive TxType
  | simpleSend
  | sendToOwners
  | sendAll
  | sendToMany
  | tradeOffer
  | acceptOfferRPD
  | metadexTrade
  | metadexCancelPrice
  | metadexCancelPair
  | metadexCancelEcosystem
  | offerAcceptABet
  | createPropertyFixed
  | createPropertyVariable
  | closeCrowdsale
  | createPropertyManual
  | grantPropertyTokens
  | revokePropertyTokens
  | changeIssuerAddress
  | enableFreezing
  | disableFreezing
  | rapidsPayment
  | freezePropertyTokens
  | unfreezePropertyTokens
  | deactivation
  | activation
  | alert
  deriving DecidableEq, Repr

/-- The type a packet's 16-bit field names, for the types listed above. -/
def TxType.ofId : Nat → Option TxType
  | 0 => some .simpleSend
  | 3 => some .sendToOwners
  | 4 => some .sendAll
  | 5 => some .sendToMany
  | 20 => some .tradeOffer
  | 22 => some .acceptOfferRPD
  | 25 => some .metadexTrade
  | 26 => some .metadexCancelPrice
  | 27 => some .metadexCancelPair
  | 28 => some .metadexCancelEcosystem
  | 40 => some .offerAcceptABet
  | 50 => some .createPropertyFixed
  | 51 => some .createPropertyVariable
  | 53 => some .closeCrowdsale
  | 54 => some .createPropertyManual
  | 55 => some .grantPropertyTokens
  | 56 => some .revokePropertyTokens
  | 70 => some .changeIssuerAddress
  | 71 => some .enableFreezing
  | 72 => some .disableFreezing
  | 80 => some .rapidsPayment
  | 185 => some .freezePropertyTokens
  | 186 => some .unfreezePropertyTokens
  | 65533 => some .deactivation
  | 65534 => some .activation
  | 65535 => some .alert
  | _ => none

/-- One row of the restriction table. -/
structure TransactionRestriction where
  txType : TxType
  txVersion : Nat
  /-- May the property identifier be 0? -/
  allowWildcard : Bool
  activationBlock : Nat

/-- `GetRestrictions` -/
def getRestrictions : List TransactionRestriction :=
  [ ⟨.alert, 0xFFFF, true, p.tokenAlertBlock⟩,
    ⟨.activation, 0xFFFF, true, p.tokenAlertBlock⟩,
    ⟨.deactivation, 0xFFFF, true, p.tokenAlertBlock⟩,
    ⟨.simpleSend, 0, false, p.tokenSendBlock⟩,
    ⟨.tradeOffer, 0, false, p.tokenDexBlock⟩,
    ⟨.tradeOffer, 1, false, p.tokenDexBlock⟩,
    ⟨.acceptOfferRPD, 0, false, p.tokenDexBlock⟩,
    ⟨.createPropertyFixed, 0, false, p.tokenSpBlock⟩,
    ⟨.createPropertyVariable, 0, false, p.tokenSpBlock⟩,
    ⟨.createPropertyVariable, 1, false, p.tokenSpBlock⟩,
    ⟨.createPropertyVariable, 2, false, p.tokenSpBlock⟩,
    ⟨.closeCrowdsale, 0, false, p.tokenSpBlock⟩,
    ⟨.rapidsPayment, 0, true, p.tokenSpBlock⟩,
    ⟨.sendToMany, 0, true, p.tokenSpBlock⟩,
    ⟨.createPropertyManual, 0, false, p.tokenManualspBlock⟩,
    ⟨.grantPropertyTokens, 0, false, p.tokenManualspBlock⟩,
    ⟨.revokePropertyTokens, 0, false, p.tokenManualspBlock⟩,
    ⟨.changeIssuerAddress, 0, false, p.tokenManualspBlock⟩,
    ⟨.enableFreezing, 0, false, p.tokenManualspBlock⟩,
    ⟨.disableFreezing, 0, false, p.tokenManualspBlock⟩,
    ⟨.freezePropertyTokens, 0, false, p.tokenManualspBlock⟩,
    ⟨.unfreezePropertyTokens, 0, false, p.tokenManualspBlock⟩,
    ⟨.sendToOwners, 0, false, p.tokenStoBlock⟩,
    ⟨.sendToOwners, 1, false, p.tokenStov1Block⟩,
    ⟨.metadexTrade, 0, false, p.tokenMetadexBlock⟩,
    ⟨.metadexCancelPrice, 0, false, p.tokenMetadexBlock⟩,
    ⟨.metadexCancelPair, 0, false, p.tokenMetadexBlock⟩,
    ⟨.metadexCancelEcosystem, 0, false, p.tokenMetadexBlock⟩,
    ⟨.sendAll, 0, false, p.tokenSendAllBlock⟩,
    ⟨.offerAcceptABet, 0, false, p.tokenBetBlock⟩ ]

/-- Is the type, in this version and for this property, allowed at the block?
In the test ecosystem there is no height restriction. -/
def isTransactionTypeAllowed (block : Nat) (property : PropertyId)
    (txType : TxType) (version : Nat) : Bool :=
  (getRestrictions p).any fun entry =>
    entry.txType == txType && entry.txVersion == version &&
      !(property == propertyRPD && !entry.allowWildcard) &&
      (isTestEcosystemProperty property || decide (entry.activationBlock ≤ block))

/-- Which linked transactions may be paid for in RPD? -/
def isRapidsPaymentAllowed (txType : TxType) (version : Nat) : Bool :=
  txType == .createPropertyVariable && version == 2

end Rapids.Token
