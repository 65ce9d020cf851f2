import Mathlib.Data.Prod.Lex
import Mathlib.Data.String.Basic
import Rapids.Lib.OrdMap
import Rapids.Lib.Int64

/-!
# Rapids.Token.State

The **in-memory state of the token layer**: the tally map, the open offers,
accepts, crowdsales and orders, the smart property database, the fee cache, the
freeze sets and the consensus parameters.

Every container of the source that is traversed in key order (`std::map`,
`std::set`, LevelDB) is an `OrdMap`. The string keys `"seller-property"` and
`"seller-property+buyer"` of the exchange are kept as their components.
64-bit amounts are `Int`; identifiers, heights and hashes are `Nat`.
-/

namespace Rapids.Token

open Rapids.Lib

/-! ### Identifiers and constants -/

/-- A base58 address. -/
abbrev Address := String

/-- A property identifier (`uint32_t`). -/
abbrev PropertyId := Nat

/-- A transaction or block hash. -/
abbrev Hash := Nat

/-- A position in the chain: height, then index within the block. -/
abbrev Position := Nat ×ₗ Nat

/-- The position of transaction `idx` of block `block`. -/
def position (block idx : Nat) : Position := toLex (block, idx)

def propertyRPD : PropertyId := 0
def propertyMSC : PropertyId := 1
def propertyTMSC : PropertyId := 2

/-- `TEST_ECO_PROPERTY_1`: the first identifier of the test ecosystem. -/
def testEcoProperty1 : PropertyId := 0x80000003

/-- `MAX_INT_8_BYTES`, compared with unsigned amounts. -/
def maxInt8Bytes : Nat := 9223372036854775807

def isTestEcosystemProperty (p : PropertyId) : Bool :=
  p == propertyTMSC || decide (testEcoProperty1 ≤ p)

def isMainEcosystemProperty (p : PropertyId) : Bool :=
  p != propertyRPD && !isTestEcosystemProperty p

/-- `TOKEN_PROPERTY_TYPE_INDIVISIBLE`, `TOKEN_PROPERTY_TYPE_DIVISIBLE`. -/
def propertyTypeIndivisible : Nat := 1
def propertyTypeDivisible : Nat := 2

/-! ### Balances -/

/-- The buckets of one balance record. -/
inductive TallyType
  | balance
  | sellofferReserve
  | acceptReserve
  | pending
  | metadexReserve
  deriving DecidableEq, Repr

/-- What one address holds of one property (`CMPTally::BalanceRecord`). -/
structure BalanceRecord where
  balance : Int := 0
  sellofferReserve : Int := 0
  acceptReserve : Int := 0
  pending : Int := 0
  metadexReserve : Int := 0
  deriving DecidableEq, Repr

/-- The amount in one bucket. -/
def BalanceRecord.get (r : BalanceRecord) : TallyType → Int
  | .balance => r.balance
  | .sellofferReserve => r.sellofferReserve
  | .acceptReserve => r.acceptReserve
  | .pending => r.pending
  | .metadexReserve => r.metadexReserve

/-- Overwrite one bucket. -/
def BalanceRecord.set (r : BalanceRecord) (t : TallyType) (x : Int) : BalanceRecord :=
  match t with
  | .balance => { r with balance := x }
  | .sellofferReserve => { r with sellofferReserve := x }
  | .acceptReserve => { r with acceptReserve := x }
  | .pending => { r with pending := x }
  | .metadexReserve => { r with metadexReserve := x }

/-- All token balances of one address (`CMPTally`). -/
abbrev CMPTally := OrdMap PropertyId BalanceRecord

/-- All balances of all addresses (`mp_tally_map`). -/
abbrev TallyMap := OrdMap Address CMPTally

/-! ### The traditional exchange -/

/-- Key of an offer: the seller and the property for sale. -/
structure OfferKey where
  seller : Address
  property : PropertyId
  deriving DecidableEq, Repr

instance : LinearOrder OfferKey :=
  LinearOrder.lift' (fun k => toLex (k.seller, k.property)) fun a b h => by
    obtain ⟨_, _⟩ := a
    obtain ⟨_, _⟩ := b
    simpa using h

/-- Key of an accept: the offer's key and the buyer. -/
structure AcceptKey where
  seller : Address
  property : PropertyId
  buyer : Address
  deriving DecidableEq, Repr

instance : LinearOrder AcceptKey :=
  LinearOrder.lift' (fun k => toLex (k.seller, toLex (k.property, k.buyer))) fun a b h => by
    obtain ⟨_, _, _⟩ := a
    obtain ⟨_, _, _⟩ := b
    simpa using h

/-- An open sell offer (`CMPOffer`). -/
structure CMPOffer where
  offerBlock : Nat
  offerAmountOriginal : Int
  property : PropertyId
  rpdDesiredOriginal : Int
  minFee : Int
  blocktimelimit : Nat
  txid : Hash
  deriving DecidableEq, Repr

/-- An accepted part of an offer (`CMPAccept`). The window, the property, the
price and the offer's hash are copied from the offer. -/
structure CMPAccept where
  acceptAmountOriginal : Int
  acceptAmountRemaining : Int
  blocktimelimit : Nat
  property : PropertyId
  offerAmountOriginal : Int
  rpdDesiredOriginal : Int
  offerTxid : Hash
  block : Nat
  deriving DecidableEq, Repr

/-! ### The token exchange -/

/-- A resting order (`CMPMetaDEx`). -/
structure CMPMetaDEx where
  addr : Address
  block : Nat
  property : PropertyId
  amountForsale : Int
  desiredProperty : PropertyId
  amountDesired : Int
  txid : Hash
  idx : Nat
  amountRemaining : Int
  deriving DecidableEq, Repr

/-- Orders at one price, by position (`md_Set`). -/
abbrev MdSet := OrdMap Position CMPMetaDEx

/-- Orders selling one property, by unit price (`md_PricesMap`). -/
abbrev MdPricesMap := OrdMap ℚ MdSet

/-- The whole order book, by property for sale (`md_PropertiesMap`). -/
abbrev MdPropertiesMap := OrdMap PropertyId MdPricesMap

/-! ### Smart properties and crowdsales -/

/-- A property's record (`CMPSPInfo::Entry`). -/
structure SPEntry where
  issuer : Address := ""
  propType : Nat := 0
  prevPropId : PropertyId := 0
  category : String := ""
  subcategory : String := ""
  name : String := ""
  ticker : String := ""
  url : String := ""
  data : String := ""
  numTokens : Int := 0
  propertyDesired : PropertyId := 0
  deadline : Int := 0
  earlyBird : UInt8 := 0
  percentage : UInt8 := 0
  closeEarly : Bool := false
  maxTokens : Bool := false
  missedTokens : Int := 0
  timeclosed : Int := 0
  txidClose : Hash := 0
  txid : Hash := 0
  creationBlock : Hash := 0
  updateBlock : Hash := 0
  fixed : Bool := false
  manual : Bool := false
  royaltiesPercentage : Nat := 0
  royaltiesReceiver : String := ""
  historicalData : OrdMap Hash (List Int) := ∅
  historicalIssuers : OrdMap Position Address := ∅
  deriving DecidableEq

/-- The property database (`CMPSPInfo`): the entries (`'s'`), the two indexes
(`'t'`, `'T'`), the entries replaced by updates (`'b'`) and the two identifier
counters. -/
structure CMPSPInfo where
  entries : OrdMap PropertyId SPEntry := ∅
  txIndex : OrdMap Hash PropertyId := ∅
  tickerIndex : OrdMap String PropertyId := ∅
  prevEntries : OrdMap (Hash ×ₗ PropertyId) SPEntry := ∅
  nextSpid : PropertyId := 0x3
  nextTestSpid : PropertyId := testEcoProperty1
  deriving DecidableEq

/-- An active crowdsale (`CMPCrowd`). -/
structure CMPCrowd where
  propertyId : PropertyId
  nValue : Int
  propertyDesired : PropertyId
  deadline : Int
  earlyBird : UInt8
  percentage : UInt8
  uCreated : Int
  iCreated : Int
  txFundraiserData : OrdMap Hash (List Int) := ∅
  deriving DecidableEq

/-! ### Consensus parameters and feature activations -/

/-- The networks with parameters of their own. -/
inductive Network
  | main
  | test
  | regtest
  deriving DecidableEq, Repr

/-- The parameters that rules and features are looked up in (`CConsensusParams`). -/
structure CConsensusParams where
  genesisBlock : Nat
  minActivationBlocks : Nat
  maxActivationBlocks : Nat
  tokenFreezeWaitPeriod : Nat
  nulldataBlock : Nat
  tokenAlertBlock : Nat
  tokenSendBlock : Nat
  tokenDexBlock : Nat
  tokenSpBlock : Nat
  tokenManualspBlock : Nat
  tokenStoBlock : Nat
  tokenMetadexBlock : Nat
  tokenSendAllBlock : Nat
  tokenBetBlock : Nat
  tokenStov1Block : Nat
  granteffectsFeatureBlock : Nat
  dexmathFeatureBlock : Nat
  spcrowdcrossoverFeatureBlock : Nat
  tradeallpairsFeatureBlock : Nat
  feesFeatureBlock : Nat
  freezenoticeFeatureBlock : Nat
  deriving DecidableEq, Repr

/-- A scheduled or completed feature activation (`FeatureActivation`). -/
structure FeatureActivation where
  featureId : Nat
  activationBlock : Nat
  minClientVersion : Nat
  featureName : String
  deriving DecidableEq, Repr

/-- A pending user alert (`AlertData`). -/
structure AlertData where
  alertSender : String
  alertType : Nat
  alertExpiry : Nat
  alertMessage : String
  deriving DecidableEq, Repr

/-- A recorded fee distribution: the property, the block, the total and what each
recipient got (`CTokenFeeHistory`). -/
structure FeeDistribution where
  property : PropertyId
  block : Nat
  total : Int
  recipients : List (Int × Address)
  deriving DecidableEq, Repr

/-! ### The state -/

/-- What does not change while a node runs: its network, command line and the
functions of the node that the token layer calls. -/
structure Config where
  network : Network
  /-- `-tokenactivationallowsender` -/
  activationAllowSender : List Address
  /-- `-tokenactivationignoresender` -/
  activationIgnoreSender : List Address
  /-- `-tokenalertallowsender` -/
  alertAllowSender : List Address
  /-- `-tokenalertignoresender` -/
  alertIgnoreSender : List Address
  /-- `msc_debug_fees` -/
  debugFees : Bool
  exodusAddress : Address
  /-- Does the text decode to a destination? -/
  isValidDestination : String → Bool
  /-- Dev tokens vested at a block time: `rounduint64` of the vesting formula. -/
  devmsc : Nat → Int

/-- The token layer's state. -/
structure State where
  cfg : Config
  params : CConsensusParams
  tally : TallyMap := ∅
  offers : OrdMap OfferKey CMPOffer := ∅
  accepts : OrdMap AcceptKey CMPAccept := ∅
  crowds : OrdMap Address CMPCrowd := ∅
  metadex : MdPropertiesMap := ∅
  sp : CMPSPInfo := {}
  /-- Per property, the cached fee after each block that changed it. -/
  feeCache : OrdMap PropertyId (OrdMap Nat Int) := ∅
  distributionThresholds : OrdMap PropertyId Int := ∅
  /-- All fee distributions, the last one last. -/
  feeHistory : List FeeDistribution := []
  /-- `setFreezingEnabledProperties`: property and live block. -/
  freezingEnabled : OrdMap (PropertyId ×ₗ Nat) Unit := ∅
  /-- `setFrozenAddresses`: address and property. -/
  frozen : OrdMap (Address ×ₗ PropertyId) Unit := ∅
  exodusPrev : Int := 0
  pendingActivations : List FeatureActivation := []
  completedActivations : List FeatureActivation := []
  alerts : List AlertData := []

end Rapids.Token
