import Rapids.Lib.Listing
import Rapids.Lib.Text
import Rapids.Token.Numbered
import Rapids.Token.PropertyUpdates

/-!
# Rapids.Token.ConsensusHash

**The input of the consensus hash** (`GetConsensusHash`, `consensushash.cpp`).

Nodes compare a hash over the token layer's state. What is hashed is documented as six
stages of texts: balances, sell offers, accepts, orders, crowdsales and properties, each in
an order of its own, so that other implementations can compute it (`documented`). It is a
function of the `Contents` of the state. The code walks its maps, makes the texts and sorts
them, and the balances come from a hash map, in any order (`consensusHashInput`).

Two addresses are not fields of what the code walks over: they are cut out of the keys. The
seller is what is left of the key of an offer without its last two characters, which are the
dash and the property only if the identifier has one digit. The rest of the code does what
the documentation says, up to the identifiers: when the counter of the main ecosystem has
run into the test ecosystem, or a counter is used up, properties are missing or listed twice
(`consensus_hash_iff`).
-/

namespace Rapids.Token

open Rapids.Lib OrdMap

/-! ### What is documented -/

/-- The number that a hash is (`arith_uint256(hash.ToString())`). -/
def arithUint256 (h : Hash) : Nat := h % 16 ^ 64

/-- `GetHex` -/
def getHex (h : Hash) : List Char := hexText 64 h

/-- `address|propertyid|balance|selloffer_reserve|accept_reserve|metadex_reserve` -/
structure BalanceRow where
  address : Address
  property : PropertyId
  balance : Int
  sellofferReserve : Int
  acceptReserve : Int
  metadexReserve : Int
  deriving DecidableEq

/-- `txid|address|propertyid|offeramount|btcdesired|minfee|timelimit` -/
structure OfferRow where
  txid : Hash
  address : Address
  property : PropertyId
  offerAmount : Int
  rpdDesired : Int
  minFee : Int
  timelimit : Nat
  deriving DecidableEq

/-- `matchedselloffertxid|buyer|acceptamount|acceptamountremaining|acceptblock` -/
structure AcceptRow where
  txid : Hash
  buyer : Address
  acceptAmount : Int
  acceptAmountRemaining : Int
  acceptBlock : Nat
  deriving DecidableEq

/-- `txid|address|propertyidforsale|amountforsale|propertyiddesired|amountdesired|amountremaining` -/
structure TradeRow where
  txid : Hash
  address : Address
  property : PropertyId
  amountForsale : Int
  desiredProperty : PropertyId
  amountDesired : Int
  amountRemaining : Int
  deriving DecidableEq

/-- `propertyid|propertyiddesired|deadline|usertokens|issuertokens` -/
structure CrowdRow where
  property : PropertyId
  propertyDesired : PropertyId
  deadline : Int
  userCreated : Int
  issuerCreated : Int
  deriving DecidableEq

/-- `propertyid|issueraddress` -/
structure PropertyRow where
  property : PropertyId
  issuer : Address
  deriving DecidableEq

def BalanceRow.text (r : BalanceRow) : List Char :=
  joinFields '|' [r.address.toList, intText r.property, intText r.balance, intText r.sellofferReserve,
    intText r.acceptReserve, intText r.metadexReserve]

def OfferRow.text (r : OfferRow) : List Char :=
  joinFields '|' [getHex r.txid, r.address.toList, intText r.property, intText r.offerAmount,
    intText r.rpdDesired, intText r.minFee, intText r.timelimit]

def AcceptRow.text (r : AcceptRow) : List Char :=
  joinFields '|' [getHex r.txid, r.buyer.toList, intText r.acceptAmount, intText r.acceptAmountRemaining,
    intText r.acceptBlock]

def TradeRow.text (r : TradeRow) : List Char :=
  joinFields '|' [getHex r.txid, r.address.toList, intText r.property, intText r.amountForsale,
    intText r.desiredProperty, intText r.amountDesired, intText r.amountRemaining]

def CrowdRow.text (r : CrowdRow) : List Char :=
  joinFields '|' [intText r.property, intText r.propertyDesired, intText r.deadline, intText r.userCreated,
    intText r.issuerCreated]

def PropertyRow.text (r : PropertyRow) : List Char :=
  joinFields '|' [intText r.property, r.issuer.toList]

/-- An empty balance record is ignored. -/
def BalanceRow.isEmpty (r : BalanceRow) : Bool :=
  r.balance == 0 && r.sellofferReserve == 0 && r.acceptReserve == 0 && r.metadexReserve == 0

/-- All that is hashed, as records in no particular order. -/
structure Contents where
  balances : List BalanceRow
  offers : List OfferRow
  accepts : List AcceptRow
  trades : List TradeRow
  crowds : List CrowdRow
  properties : List PropertyRow

/-- The same records, in another order. -/
structure Contents.Agree (c c' : Contents) : Prop where
  balances : c.balances.Perm c'.balances
  offers : c.offers.Perm c'.offers
  accepts : c.accepts.Perm c'.accepts
  trades : c.trades.Perm c'.trades
  crowds : c.crowds.Perm c'.crowds
  properties : c.properties.Perm c'.properties

theorem Contents.Agree.refl (c : Contents) : c.Agree c :=
  ⟨.refl _, .refl _, .refl _, .refl _, .refl _, .refl _⟩

/-- The texts of the documentation, stage by stage. Records with equal keys are ordered by
their texts. -/
def Contents.documented (c : Contents) : List (List Char) :=
  listing (fun r => toLex (r.address, r.property)) BalanceRow.text c.balances ++
  listing (fun r => arithUint256 r.txid) OfferRow.text c.offers ++
  listing (fun r => toLex (arithUint256 r.txid, r.buyer.toList)) AcceptRow.text c.accepts ++
  listing (fun r => arithUint256 r.txid) TradeRow.text c.trades ++
  listing (fun r => r.property) CrowdRow.text c.crowds ++
  listing (fun r => r.property) PropertyRow.text c.properties

theorem Contents.Agree.documented_eq {c c' : Contents} (h : c.Agree c') : c.documented = c'.documented := by
  rw [Contents.documented, Contents.documented, listing_perm _ _ h.balances, listing_perm _ _ h.offers,
    listing_perm _ _ h.accepts, listing_perm _ _ h.trades, listing_perm _ _ h.crowds,
    listing_perm _ _ h.properties]

def balanceRow (a : Address) (p : PropertyId) (r : BalanceRecord) : BalanceRow :=
  ⟨a, p, r.balance, r.sellofferReserve, r.acceptReserve, r.metadexReserve⟩

variable (k : OfferKey) (o : CMPOffer) (p : PropertyId)

def offerRow : OfferRow :=
  ⟨o.txid, k.seller, o.property, o.offerAmountOriginal, o.rpdDesiredOriginal, o.minFee, o.blocktimelimit⟩

def acceptRow (k : AcceptKey) (a : CMPAccept) : AcceptRow :=
  ⟨a.offerTxid, k.buyer, a.acceptAmountOriginal, a.acceptAmountRemaining, a.block⟩

def tradeRow (o : CMPMetaDEx) : TradeRow :=
  ⟨o.txid, o.addr, o.property, o.amountForsale, o.desiredProperty, o.amountDesired, o.amountRemaining⟩

def crowdRow (c : CMPCrowd) : CrowdRow :=
  ⟨c.propertyId, c.propertyDesired, c.deadline, c.uCreated, c.iCreated⟩

/-- The contents of a state. -/
def contents (s : State) : Contents where
  balances := (s.tally.entries.flatMap fun e => e.2.entries.map fun f => balanceRow e.1 f.1 f.2).filter
    fun r => !r.isEmpty
  offers := s.offers.entries.map fun e => offerRow e.1 e.2
  accepts := s.accepts.entries.map fun e => acceptRow e.1 e.2
  trades := (MdPropertiesMap.orders s.metadex).map fun r => tradeRow r.order
  crowds := s.crowds.entries.map fun e => crowdRow e.2
  properties := ⟨propertyMSC, s.cfg.exodusAddress⟩ :: ⟨propertyTMSC, s.cfg.exodusAddress⟩ ::
    s.sp.entries.entries.map fun e => ⟨e.1, e.2.issuer⟩

/-! ### What is hashed -/

/-- `GenerateConsensusString` of a tally: no text for an empty record. -/
def consensusStringTally (t : CMPTally) (address : Address) (p : PropertyId) : List Char :=
  let balance := CMPTally.getMoney t p .balance
  let sellOfferReserve := CMPTally.getMoney t p .sellofferReserve
  let acceptReserve := CMPTally.getMoney t p .acceptReserve
  let metaDExReserve := CMPTally.getMoney t p .metadexReserve
  if balance = 0 ∧ sellOfferReserve = 0 ∧ acceptReserve = 0 ∧ metaDExReserve = 0 then []
  else joinFields '|' [address.toList, intText p, intText balance, intText sellOfferReserve,
    intText acceptReserve, intText metaDExReserve]

/-- `GenerateConsensusString` of an offer. -/
def consensusStringOffer (address : List Char) : List Char :=
  joinFields '|' [getHex o.txid, address, intText o.property, intText o.offerAmountOriginal,
    intText o.rpdDesiredOriginal, intText o.minFee, intText o.blocktimelimit]

/-- `GenerateConsensusString` of an accept. -/
def consensusStringAccept (a : CMPAccept) (address : List Char) : List Char :=
  joinFields '|' [getHex a.offerTxid, address, intText a.acceptAmountOriginal,
    intText a.acceptAmountRemaining, intText a.block]

/-- `GenerateConsensusString` of an order. -/
def consensusStringMetaDEx (o : CMPMetaDEx) : List Char :=
  joinFields '|' [getHex o.txid, o.addr.toList, intText o.property, intText o.amountForsale,
    intText o.desiredProperty, intText o.amountDesired, intText o.amountRemaining]

/-- `GenerateConsensusString` of a crowdsale. -/
def consensusStringCrowd (c : CMPCrowd) : List Char :=
  joinFields '|' [intText c.propertyId, intText c.propertyDesired, intText c.deadline, intText c.uCreated,
    intText c.iCreated]

/-- `GenerateConsensusString` of a property issuer. -/
def consensusStringProperty (address : Address) : List Char :=
  joinFields '|' [intText p, address.toList]

/-- `STR_SELLOFFER_ADDR_PROP_COMBO` -/
def sellofferCombo : List Char := k.seller.toList ++ '-' :: intText k.property

/-- `STR_ACCEPT_ADDR_PROP_ADDR_COMBO` -/
def acceptCombo (k : AcceptKey) : List Char :=
  k.seller.toList ++ '-' :: (intText k.property ++ '+' :: k.buyer.toList)

/-- `sellCombo.substr(0, sellCombo.size() - 2)` -/
def cutSeller (combo : List Char) : List Char := combo.take (combo.length - 2)

/-- What follows the first plus sign. -/
def cutBuyer (combo : List Char) : List Char := (combo.dropWhile (· ≠ '+')).drop 1

/-- The balances, with the hash map in the order it is walked in. It is copied into a sorted
map; each tally is read up to the identifier 0. -/
def balanceStrings (walk : List (Address × CMPTally)) : List (List Char) :=
  let tallyMapSorted : TallyMap := walk.foldl (fun m e => m.insertNew e.1 e.2) ∅
  tallyMapSorted.entries.flatMap fun e =>
    (((e.2.entries.map Prod.fst).takeWhile (· ≠ 0)).map fun p => consensusStringTally e.2 e.1 p).filter
      (· ≠ [])

def offerStrings (s : State) : List (List Char) :=
  listing (fun e : OfferKey × CMPOffer => arithUint256 e.2.txid)
    (fun e => consensusStringOffer e.2 (cutSeller (sellofferCombo e.1))) s.offers.entries

def acceptStrings (s : State) : List (List Char) :=
  listing (fun e : AcceptKey × CMPAccept => getHex e.2.offerTxid ++ '-' :: cutBuyer (acceptCombo e.1))
    (fun e => consensusStringAccept e.2 (cutBuyer (acceptCombo e.1))) s.accepts.entries

def tradeStrings (s : State) : List (List Char) :=
  listing (fun r => arithUint256 r.order.txid) (fun r => consensusStringMetaDEx r.order)
    (MdPropertiesMap.orders s.metadex)

def crowdStrings (s : State) : List (List Char) :=
  listing (fun e : Address × CMPCrowd => e.2.propertyId) (fun e => consensusStringCrowd e.2) s.crowds.entries

/-- The identifiers that the loops over the two ecosystems go through. -/
def loopIds (s : State) : List PropertyId :=
  List.range' 1 (peekNextSPID s 1 - 1) ++
    List.range' testEcoProperty1 (peekNextSPID s 2 - testEcoProperty1)

def propertyStrings (s : State) : List (List Char) :=
  (loopIds s).filterMap fun p => (getSP s p).map fun sp => consensusStringProperty p sp.issuer

/-- **What `GetConsensusHash` hashes**, text by text. -/
def consensusHashInput (s : State) (walk : List (Address × CMPTally)) : List (List Char) :=
  balanceStrings walk ++ offerStrings s ++ acceptStrings s ++ tradeStrings s ++ crowdStrings s ++
    propertyStrings s

/-! ### Stages that are as documented -/

section Stages

variable {s : State}

theorem consensusStringTally_eq {t : CMPTally} {p : PropertyId} {r : BalanceRecord} (a : Address)
    (h : t.find? p = some r) :
    consensusStringTally t a p = if (balanceRow a p r).isEmpty then [] else (balanceRow a p r).text := by
  have hmoney : ∀ tt, CMPTally.getMoney t p tt = r.get tt := by
    intro tt
    rw [CMPTally.getMoney, h, Option.getD_some]
  unfold consensusStringTally
  rw [hmoney, hmoney, hmoney, hmoney]
  by_cases hempty : (balanceRow a p r).isEmpty = true
  · rw [if_pos hempty, if_pos]
    simpa [BalanceRow.isEmpty, balanceRow, BalanceRecord.get, and_assoc] using hempty
  · rw [if_neg hempty, if_neg]
    · rfl
    · simpa [BalanceRow.isEmpty, balanceRow, BalanceRecord.get, and_assoc] using hempty

theorem BalanceRow.text_ne_nil (r : BalanceRow) : r.text ≠ [] := by
  simp [BalanceRow.text, joinFields, List.intercalate]

theorem tallyStrings_eq {t : CMPTally} (a : Address) (h0 : t.find? 0 = none) :
    (((t.entries.map Prod.fst).takeWhile (· ≠ 0)).map fun p => consensusStringTally t a p).filter (· ≠ []) =
      ((t.entries.map fun f => balanceRow a f.1 f.2).filter fun r => !r.isEmpty).map BalanceRow.text := by
  have hall : (t.entries.map Prod.fst).takeWhile (· ≠ 0) = t.entries.map Prod.fst := by
    rw [List.takeWhile_eq_self_iff]
    intro p hp
    obtain ⟨e, he, rfl⟩ := List.mem_map.mp hp
    refine decide_eq_true fun hzero => ?_
    have hfind := mem_entries_iff.mp he
    rw [hzero, h0] at hfind
    cases hfind
  have htexts : (t.entries.map Prod.fst).map (fun p => consensusStringTally t a p) =
      (t.entries.map fun f => balanceRow a f.1 f.2).map fun r => if r.isEmpty then [] else r.text := by
    rw [List.map_map, List.map_map]
    exact List.map_congr_left fun f hf => consensusStringTally_eq a (mem_entries_iff.mp hf)
  rw [hall, htexts]
  -- an empty text is that of an empty record
  generalize (t.entries.map fun f => balanceRow a f.1 f.2) = rows
  induction rows with
  | nil => rfl
  | cons r rest ih =>
    rw [List.map_cons, List.filter_cons, List.filter_cons, ih]
    cases hempty : r.isEmpty with
    | true => simp
    | false => simp [BalanceRow.text_ne_nil]

theorem balanceRows_pairwise (s : State) :
    (s.tally.entries.flatMap fun e => e.2.entries.map fun f => balanceRow e.1 f.1 f.2).Pairwise
      fun a b => toLex (a.address, a.property) < toLex (b.address, b.property) := by
  rw [List.pairwise_flatMap]
  refine ⟨fun e _ => ?_, s.tally.sorted.imp fun {e e'} hlt => ?_⟩
  · rw [List.pairwise_map]
    refine e.2.sorted.imp fun {f f'} hlt => ?_
    rw [Prod.Lex.toLex_lt_toLex]
    exact .inr ⟨rfl, hlt⟩
  · intro r hr r' hr'
    obtain ⟨f, -, rfl⟩ := List.mem_map.mp hr
    obtain ⟨f', -, rfl⟩ := List.mem_map.mp hr'
    rw [Prod.Lex.toLex_lt_toLex]
    exact .inl hlt

/-- **Balances**, in whatever order the hash map is walked. -/
theorem balanceStrings_eq (h : Numbered s) {walk : List (Address × CMPTally)} (hwalk : walk.Perm s.tally.entries) :
    balanceStrings walk =
      listing (fun r => toLex (r.address, r.property)) BalanceRow.text (contents s).balances := by
  rw [contents, listing_of_pairwise BalanceRow.text ((balanceRows_pairwise s).filter _), balanceStrings,
    foldl_copy hwalk, List.filter_flatMap, List.map_flatMap]
  refine List.flatMap_congr fun e he => ?_
  refine tallyStrings_eq e.1 ?_
  have h0 := h.tally e.1
  rwa [mem_entries_iff.mp he] at h0

theorem tradeStrings_eq (s : State) :
    tradeStrings s = listing (fun r => arithUint256 r.txid) TradeRow.text (contents s).trades := by
  rw [contents, listing_map]
  rfl

theorem crowdStrings_eq (s : State) :
    crowdStrings s = listing (fun r => r.property) CrowdRow.text (contents s).crowds := by
  rw [contents, listing_map]
  rfl

end Stages

/-! ### Offers -/

section Offers

variable {s : State}

theorem offerRow_text :
    (offerRow k o).text = consensusStringOffer o k.seller.toList := rfl

theorem length_consensusStringOffer (address : List Char) :
    (consensusStringOffer o address).length = address.length + (consensusStringOffer o []).length := by
  simp [consensusStringOffer, joinFields, List.intercalate]
  omega

theorem length_intText_eq_one {p : PropertyId} : (intText (p : Int)).length = 1 ↔ p < 10 := by
  have hle := Nat.length_toDigits_le_iff (n := p) (b := 10) (k := 1) (by decide) (by decide)
  have hpos := Nat.length_toDigits_pos (n := p) (b := 10)
  have heq : intText (p : Int) = Nat.toDigits 10 p := rfl
  rw [Nat.pow_one] at hle
  rw [heq, ← hle]
  omega

/-- The last two characters are the dash and the property, if that has one digit. -/
theorem cutSeller_combo {k : OfferKey} (h : k.property < 10) : cutSeller (sellofferCombo k) = k.seller.toList := by
  have hone := length_intText_eq_one.mpr h
  rw [cutSeller, sellofferCombo, List.length_append, List.length_cons, hone, Nat.add_sub_cancel,
    List.take_left']
  rfl

theorem length_cutSeller :
    (cutSeller (sellofferCombo k)).length + 1 = k.seller.toList.length + (intText (k.property : Int)).length := by
  have hpos : 0 < (intText (k.property : Int)).length := Nat.length_toDigits_pos
  rw [cutSeller, List.length_take, sellofferCombo, List.length_append, List.length_cons]
  omega

/-- **Sell offers** have the seller's address if and only if all identifiers have one digit. -/
theorem offerStrings_iff :
    offerStrings s = listing (fun r => arithUint256 r.txid) OfferRow.text (contents s).offers ↔
      ∀ k, s.offers.contains k = true → k.property < 10 := by
  rw [contents, listing_map, offerStrings]
  constructor
  · intro h k hk
    obtain ⟨o, ho⟩ := Option.isSome_iff_exists.mp hk
    have hlength := weight_eq_of_listing_eq List.length (fun e _ => ?_) h _ (mem_entries_iff.mpr ho)
    · rw [offerRow_text, length_consensusStringOffer, length_consensusStringOffer _ (cutSeller _)] at hlength
      have hcut := length_cutSeller k
      dsimp only at hlength
      rw [← length_intText_eq_one]
      omega
    · -- what is cut out is never too short
      rw [offerRow_text, length_consensusStringOffer, length_consensusStringOffer _ (cutSeller _)]
      have hcut := length_cutSeller e.1
      have hpos : 0 < (intText (e.1.property : Int)).length := Nat.length_toDigits_pos
      omega
  · intro h
    refine listing_text_congr fun e he => ?_
    have hk : s.offers.contains e.1 = true := by
      rw [contains, mem_entries_iff.mp he]
      rfl
    rw [cutSeller_combo (h e.1 hk), offerRow_text]

end Offers

/-! ### Accepts -/

section Accepts

variable {s : State}

theorem acceptRow_text (k : AcceptKey) (a : CMPAccept) :
    (acceptRow k a).text = consensusStringAccept a k.buyer.toList := rfl

theorem length_consensusStringAccept (a : CMPAccept) (address : List Char) :
    (consensusStringAccept a address).length = address.length + (consensusStringAccept a []).length := by
  simp [consensusStringAccept, joinFields, List.intercalate]
  omega

theorem dropWhile_append_cons {c : Char} {before behind : List Char} (h : c ∉ before) :
    (before ++ c :: behind).dropWhile (· ≠ c) = c :: behind := by
  induction before with
  | nil => simp
  | cons d rest ih =>
    rw [List.mem_cons, not_or] at h
    obtain ⟨hd, hrest⟩ := h
    rw [List.cons_append, List.dropWhile_cons_of_pos (by simpa using Ne.symm hd), ih hrest]

theorem plus_not_mem_intText : '+' ∉ intText (p : Int) := by
  intro h
  have hdigit := toDigits_isDigit h
  exact absurd hdigit (by decide)

/-- The first plus sign is the one in front of the buyer, unless the seller has one. -/
theorem cutBuyer_combo {k : AcceptKey} (h : '+' ∉ k.seller.toList) :
    cutBuyer (acceptCombo k) = k.buyer.toList := by
  have hsplit : acceptCombo k =
      (k.seller.toList ++ '-' :: intText k.property) ++ '+' :: k.buyer.toList := by
    simp [acceptCombo]
  rw [cutBuyer, hsplit, dropWhile_append_cons]
  · rfl
  · simp [h, plus_not_mem_intText]

theorem length_cutBuyer {k : AcceptKey} (h : '+' ∈ k.seller.toList) :
    k.buyer.toList.length < (cutBuyer (acceptCombo k)).length := by
  obtain ⟨before, behind, hseller, hbefore⟩ := List.eq_append_cons_of_mem h
  rw [cutBuyer, acceptCombo, hseller, List.append_assoc, List.cons_append, dropWhile_append_cons hbefore]
  simp
  omega

/-- Sorted by the text of the transaction and the buyer, or by the number and the buyer. -/
theorem acceptKey_lt {h h' : Hash} {b b' : List Char} :
    getHex h ++ '-' :: b < getHex h' ++ '-' :: b' ↔
      toLex (arithUint256 h, b) < toLex (arithUint256 h', b') := by
  have hlength : (getHex h).length = (getHex h').length := by
    rw [getHex, getHex, length_hexText, length_hexText]
  rw [append_lt_append hlength, getHex, getHex, hexText_lt, hexText_inj, List.cons_lt_cons_iff,
    Prod.Lex.toLex_lt_toLex, arithUint256, arithUint256]
  simp

/-- **Accepts** have the buyer's address, provided that no seller's address has a plus sign. -/
theorem acceptStrings_iff :
    acceptStrings s =
        listing (fun r => toLex (arithUint256 r.txid, r.buyer.toList)) AcceptRow.text (contents s).accepts ↔
      ∀ k, s.accepts.contains k = true → '+' ∉ k.seller.toList := by
  rw [contents, listing_map, acceptStrings]
  constructor
  · intro h k hk hplus
    obtain ⟨a, ha⟩ := Option.isSome_iff_exists.mp hk
    have hlength := weight_eq_of_listing_eq List.length (fun e _ => ?_) h _ (mem_entries_iff.mpr ha)
    · rw [acceptRow_text, length_consensusStringAccept, length_consensusStringAccept _ (cutBuyer _)] at hlength
      have hcut := length_cutBuyer hplus
      dsimp only at hlength
      omega
    · rw [acceptRow_text, length_consensusStringAccept, length_consensusStringAccept _ (cutBuyer _)]
      by_cases hplus' : '+' ∈ e.1.seller.toList
      · have hcut := length_cutBuyer hplus'
        omega
      · rw [cutBuyer_combo hplus']
  · intro h
    have hbuyer : ∀ e ∈ s.accepts.entries, cutBuyer (acceptCombo e.1) = e.1.buyer.toList := by
      intro e he
      refine cutBuyer_combo (h e.1 ?_)
      rw [contains, mem_entries_iff.mp he]
      rfl
    refine (listing_congr fun e he e' he' => ?_).trans (listing_text_congr fun e he => ?_)
    · rw [hbuyer e he, hbuyer e' he']
      exact acceptKey_lt
    · rw [hbuyer e he, acceptRow_text]

end Accepts

/-! ### Properties -/

section Properties

variable {s : State}

/-- The issuer that the property database has on record. -/
def issuerOf (s : State) (p : PropertyId) : Address := ((getSP s p).map SPEntry.issuer).getD ""

/-- The two implied properties and those on record. -/
def recordedIds (s : State) : List PropertyId := 1 :: 2 :: s.sp.entries.entries.map Prod.fst

def propertyText (s : State) (p : PropertyId) : List Char := consensusStringProperty p (issuerOf s p)

theorem intText_inj {p q : PropertyId} (h : intText (p : Int) = intText (q : Int)) : p = q := by
  have hatoi : ((p : Nat) : Int) = (q : Nat) := by
    rw [← atoi_intText p, ← atoi_intText q, h]
  exact Int.ofNat_inj.mp hatoi

theorem bar_not_mem_intText : '|' ∉ intText (p : Int) := by
  intro h
  have hdigit := toDigits_isDigit h
  exact absurd hdigit (by decide)

theorem propertyText_injective (s : State) : Function.Injective (propertyText s) := by
  have hsplit : ∀ p, (propertyText s p).dropWhile (· ≠ '|') = '|' :: (issuerOf s p).toList ∧
      (propertyText s p).takeWhile (· ≠ '|') = intText (p : Int) := by
    intro p
    have htext : propertyText s p = intText (p : Int) ++ '|' :: (issuerOf s p).toList := by
      simp [propertyText, consensusStringProperty, joinFields, List.intercalate]
    refine ⟨?_, ?_⟩
    · rw [htext, dropWhile_append_cons (bar_not_mem_intText p)]
    · rw [htext, List.takeWhile_append_of_pos]
      · simp
      · intro c hc
        refine decide_eq_true fun heq => ?_
        rw [heq] at hc
        exact bar_not_mem_intText p hc
  intro p q h
  refine intText_inj ?_
  rw [← (hsplit p).2, ← (hsplit q).2, h]

theorem mem_recordedIds : p ∈ recordedIds s ↔ (getSP s p).isSome = true := by
  rw [recordedIds, List.mem_cons, List.mem_cons, getSP]
  by_cases hp : p = propertyMSC ∨ p = propertyTMSC
  · rw [if_pos hp]
    rcases hp with hp | hp
    · simp [hp, propertyMSC]
    · simp [hp, propertyTMSC]
  · rw [if_neg hp]
    have h12 : ¬ (p = 1 ∨ p = 2) := hp
    rw [← or_assoc, or_iff_right h12, List.mem_map]
    constructor
    · rintro ⟨e, he, hkey⟩
      rw [← hkey, mem_entries_iff.mp he]
      rfl
    · intro h
      obtain ⟨sp, hsp⟩ := Option.isSome_iff_exists.mp h
      exact ⟨(p, sp), mem_entries_iff.mpr hsp, rfl⟩

theorem recordedIds_pairwise (h : SpKnown s) : (recordedIds s).Pairwise (· < ·) := by
  have hge : ∀ p ∈ s.sp.entries.entries.map Prod.fst, 3 ≤ p := by
    intro p hp
    obtain ⟨e, he, rfl⟩ := List.mem_map.mp hp
    have hsome : (s.sp.entries.find? e.1).isSome = true := by
      rw [mem_entries_iff.mp he]
      rfl
    rcases (h.ids e.1).mp hsome with hid | hid
    · exact hid.1
    · exact le_trans (by decide) hid.1
  rw [recordedIds, List.pairwise_cons, List.pairwise_cons]
  refine ⟨fun p hp => ?_, fun p hp => lt_of_lt_of_le (by decide) (hge p hp), ?_⟩
  · rcases List.mem_cons.mp hp with hp | hp
    · rw [hp]
      decide
    · exact lt_of_lt_of_le (by decide) (hge p hp)
  · rw [List.pairwise_map]
    exact s.sp.entries.sorted

theorem listing_properties (h : SpKnown s) :
    listing (fun r => r.property) PropertyRow.text (contents s).properties =
      (recordedIds s).map (propertyText s) := by
  have hrows : (contents s).properties = (recordedIds s).map fun p => ⟨p, issuerOf s p⟩ := by
    rw [contents, recordedIds, List.map_cons, List.map_cons, List.map_map]
    have hentries : ∀ e ∈ s.sp.entries.entries, (⟨e.1, e.2.issuer⟩ : PropertyRow) = ⟨e.1, issuerOf s e.1⟩ := by
      intro e he
      have hfind := mem_entries_iff.mp he
      have hge : 3 ≤ e.1 := by
        have hpair := recordedIds_pairwise h
        rw [recordedIds, List.pairwise_cons, List.pairwise_cons] at hpair
        exact hpair.2.1 e.1 (List.mem_map.mpr ⟨e, he, rfl⟩)
      rw [issuerOf, getSP_of_ge hge, hfind]
      rfl
    rw [List.map_congr_left hentries]
    rfl
  rw [hrows, listing_map, listing_of_pairwise _ (recordedIds_pairwise h)]
  rfl

theorem propertyStrings_eq (s : State) :
    propertyStrings s = ((loopIds s).filter fun p => (getSP s p).isSome).map (propertyText s) := by
  rw [propertyStrings]
  induction loopIds s with
  | nil => rfl
  | cons p rest ih =>
    rw [List.filterMap_cons, List.filter_cons, ih]
    cases hsp : getSP s p with
    | none => rfl
    | some sp => simp [propertyText, issuerOf, hsp]

/-- **No identifier is missing or comes twice**: both counters have identifiers left, and the
one of the main ecosystem has not run into the test ecosystem, or there is nothing there. -/
def CountersApart (s : State) : Prop :=
  s.sp.nextSpid ≠ 0 ∧ s.sp.nextTestSpid ≠ 0 ∧
    (s.sp.nextSpid ≤ testEcoProperty1 ∨ s.sp.nextTestSpid = testEcoProperty1)

instance (s : State) : Decidable (CountersApart s) := inferInstanceAs (Decidable (_ ∧ _))

theorem mem_loopIds :
    p ∈ loopIds s ↔ (1 ≤ p ∧ p < s.sp.nextSpid) ∨ (testEcoProperty1 ≤ p ∧ p < s.sp.nextTestSpid) := by
  have hrange : ∀ first next k : Nat, 0 < first → (k ∈ List.range' first (next - first) ↔ first ≤ k ∧ k < next) := by
    intro first next k hfirst
    rw [List.mem_range'_1]
    omega
  rw [loopIds, List.mem_append]
  exact or_congr (hrange 1 _ p (by decide)) (hrange testEcoProperty1 _ p (by decide))

theorem lastSpid_lt {next : Nat} (h0 : next ≠ 0) (hlt : next < 4294967296) : lastSpid next < next := by
  unfold lastSpid
  omega

theorem mem_loopIds_of_recorded (h : SpKnown s) (hcounters : CountersApart s) {p : PropertyId}
    (hp : p ∈ recordedIds s) : p ∈ loopIds s := by
  obtain ⟨hnext, hnextTest, -⟩ := hcounters
  have h3 : 3 ≤ s.sp.nextSpid := by
    rcases h.next with h0 | hrange
    · exact absurd h0 hnext
    · exact hrange.1
  rw [mem_loopIds]
  rw [recordedIds, List.mem_cons, List.mem_cons] at hp
  rcases hp with hp | hp | hp
  · rw [hp]
    exact .inl ⟨by decide, lt_of_lt_of_le (by decide) h3⟩
  · rw [hp]
    exact .inl ⟨by decide, lt_of_lt_of_le (by decide) h3⟩
  · obtain ⟨e, he, rfl⟩ := List.mem_map.mp hp
    have hsome : (s.sp.entries.find? e.1).isSome = true := by
      rw [mem_entries_iff.mp he]
      rfl
    rcases (h.ids e.1).mp hsome with hid | hid
    · exact .inl ⟨le_trans (by decide) hid.1, lt_of_le_of_lt hid.2 (lastSpid_lt hnext h.next.lt)⟩
    · exact .inr ⟨hid.1, lt_of_le_of_lt hid.2 (lastSpid_lt hnextTest h.nextTest.lt)⟩

theorem loopIds_pairwise (hcounters : CountersApart s) : (loopIds s).Pairwise (· < ·) := by
  rw [loopIds, List.pairwise_append]
  refine ⟨List.pairwise_lt_range', List.pairwise_lt_range', fun p hp q hq => ?_⟩
  rw [List.mem_range'_1] at hp hq
  have happart : s.sp.nextSpid ≤ testEcoProperty1 ∨ s.sp.nextTestSpid = testEcoProperty1 := hcounters.2.2
  have hpeek : peekNextSPID s 1 = s.sp.nextSpid ∧ peekNextSPID s 2 = s.sp.nextTestSpid := ⟨rfl, rfl⟩
  rw [hpeek.1] at hp
  rw [hpeek.2] at hq
  have harith : ∀ next nextTest first p q : Nat, (1 ≤ p ∧ p < 1 + (next - 1)) →
      (first ≤ q ∧ q < first + (nextTest - first)) → (next ≤ first ∨ nextTest = first) → 0 < first → p < q := by
    intro next nextTest first p q
    omega
  exact harith _ _ _ _ _ hp hq happart (by decide)

/-- **Properties** are listed once each if and only if the counters are apart. -/
theorem propertyStrings_iff (h : SpKnown s) :
    propertyStrings s = listing (fun r => r.property) PropertyRow.text (contents s).properties ↔
      CountersApart s := by
  rw [propertyStrings_eq, listing_properties h, (List.map_injective_iff.mpr (propertyText_injective s)).eq_iff]
  constructor
  · intro heq
    -- all that is on record is looked up, and nothing twice
    have hmem : ∀ p ∈ recordedIds s, p ∈ loopIds s := by
      intro p hp
      rw [← heq] at hp
      exact List.mem_of_mem_filter hp
    have hnodup : ((loopIds s).filter fun p => (getSP s p).isSome).Nodup := by
      rw [heq]
      exact (recordedIds_pairwise h).imp fun hlt => Nat.ne_of_lt hlt
    have hnext : s.sp.nextSpid ≠ 0 := by
      intro h0
      have hone := (mem_loopIds 1).mp (hmem 1 (.head _))
      rw [h0] at hone
      rcases hone with hone | hone
      · exact absurd hone.2 (by decide)
      · exact absurd hone.1 (by decide)
    have hnextTest : s.sp.nextTestSpid ≠ 0 := by
      intro h0
      have hsome : (s.sp.entries.find? 4294967295).isSome = true := by
        rw [h.ids, h0]
        exact .inr ⟨by decide, by decide⟩
      have hrecorded : (4294967295 : PropertyId) ∈ recordedIds s := by
        rw [mem_recordedIds, getSP_of_ge (by decide)]
        exact hsome
      have hlast := (mem_loopIds 4294967295).mp (hmem _ hrecorded)
      have hlt := h.next.lt
      rw [h0] at hlast
      rcases hlast with hlast | hlast
      · exact absurd hlt (Nat.not_lt.mpr hlast.2)
      · exact absurd hlast.2 (Nat.not_lt_zero _)
    refine ⟨hnext, hnextTest, ?_⟩
    by_contra hboth
    rw [not_or] at hboth
    -- the first identifier of the test ecosystem comes twice
    have hfirst : testEcoProperty1 < s.sp.nextTestSpid := by
      rcases h.nextTest with h0 | hrange
      · exact absurd h0 hnextTest
      · exact lt_of_le_of_ne hrange.1 (Ne.symm hboth.2)
    have hsome : (getSP s testEcoProperty1).isSome = true := by
      rw [getSP_of_ge (by decide), h.ids]
      exact .inr ⟨le_rfl, le_lastSpid hfirst h.nextTest.lt⟩
    rw [loopIds, List.filter_append, List.nodup_append] at hnodup
    have hmain : testEcoProperty1 ∈ List.range' 1 (peekNextSPID s 1 - 1) := by
      rw [List.mem_range'_1]
      have hlt : testEcoProperty1 < peekNextSPID s 1 := not_le.mp hboth.1
      refine ⟨by decide, ?_⟩
      have harith : ∀ first next : Nat, first < next → first < 1 + (next - 1) := by
        intro first next
        omega
      exact harith _ _ hlt
    have htest : testEcoProperty1 ∈ List.range' testEcoProperty1 (peekNextSPID s 2 - testEcoProperty1) := by
      rw [List.mem_range'_1]
      have hlt : testEcoProperty1 < peekNextSPID s 2 := hfirst
      have harith : ∀ first next : Nat, first < next → first < first + (next - first) := by
        intro first next
        omega
      exact ⟨le_rfl, harith _ _ hlt⟩
    exact hnodup.2.2 _ (List.mem_filter.mpr ⟨hmain, hsome⟩) _ (List.mem_filter.mpr ⟨htest, hsome⟩) rfl
  · intro hcounters
    refine List.Pairwise.eq_of_mem_iff ((loopIds_pairwise hcounters).filter _) (recordedIds_pairwise h) fun p => ?_
    rw [List.mem_filter, mem_recordedIds]
    constructor
    · intro hp
      exact hp.2
    · intro hp
      exact ⟨mem_loopIds_of_recorded h hcounters ((mem_recordedIds p).mpr hp), hp⟩

end Properties

/-! ### The whole input -/

section Input

variable {s : State}

theorem consensusHashInput_iff (hnumbered : Numbered s) (hknown : SpKnown s) {walk : List (Address × CMPTally)}
    (hwalk : walk.Perm s.tally.entries) :
    consensusHashInput s walk = (contents s).documented ↔
      (∀ k, s.offers.contains k = true → k.property < 10) ∧
        (∀ k, s.accepts.contains k = true → '+' ∉ k.seller.toList) ∧ CountersApart s := by
  rw [← offerStrings_iff, ← acceptStrings_iff, ← propertyStrings_iff hknown]
  unfold consensusHashInput Contents.documented
  rw [balanceStrings_eq hnumbered hwalk, tradeStrings_eq, crowdStrings_eq]
  have hoffers : (offerStrings s).length =
      (listing (fun r => arithUint256 r.txid) OfferRow.text (contents s).offers).length := by
    rw [offerStrings, length_listing, length_listing, contents, List.length_map]
  have haccepts : (acceptStrings s).length =
      (listing (fun r => toLex (arithUint256 r.txid, r.buyer.toList)) AcceptRow.text
        (contents s).accepts).length := by
    rw [acceptStrings, length_listing, length_listing, contents, List.length_map]
  constructor
  · intro h
    rw [List.append_assoc, List.append_assoc, List.append_assoc, List.append_assoc, List.append_assoc,
      List.append_assoc, List.append_assoc, List.append_assoc] at h
    have hrest := List.append_cancel_left h
    obtain ⟨hoffer, hrest⟩ := List.append_inj hrest hoffers
    obtain ⟨haccept, hrest⟩ := List.append_inj hrest haccepts
    exact ⟨hoffer, haccept, List.append_cancel_left (List.append_cancel_left hrest)⟩
  · rintro ⟨hoffer, haccept, hproperty⟩
    rw [hoffer, haccept, hproperty]

end Input

/-- **The input of the consensus hash**, in every run and however the balances are walked, is
what is documented for all states with these contents, if and only if every offer is for a
property whose identifier has one digit, no accept's seller has a plus sign in the address,
and the counters of the two ecosystems are apart. -/
theorem consensus_hash_iff {cfg : Config} {es : List Event} {n : Node}
    (hrun : run step (Node.initial cfg) es = some n) :
    (∀ (walk : List (Address × CMPTally)) (c : Contents), walk.Perm n.state.tally.entries →
        c.Agree (contents n.state) → consensusHashInput n.state walk = c.documented) ↔
      (∀ k, n.state.offers.contains k = true → k.property < 10) ∧
        (∀ k, n.state.accepts.contains k = true → '+' ∉ k.seller.toList) ∧ CountersApart n.state := by
  constructor
  · intro h
    refine (consensusHashInput_iff (run_numbered hrun) (run_spKnown hrun) (List.Perm.refl _)).mp ?_
    exact h _ _ (List.Perm.refl _) (Contents.Agree.refl _)
  · intro h walk c hwalk hc
    rw [hc.documented_eq]
    exact (consensusHashInput_iff (run_numbered hrun) (run_spKnown hrun) hwalk).mpr h

/-- `dexSell` of all there is of a property. -/
def sellAll : CMPTransaction := { dexSell with property := p }

/-- An offer for property 3. -/
theorem consensus_hash_iff_one_digit :
    ∃ n, run step (Node.initial exchangeCfg)
        [.blockBegin 1 1500000000 1, .packet dexIssue issuanceEnv, .packet (sellAll 3) issuanceEnv] = some n ∧
      dexOfferExists n.state "seller" 3 = true ∧
      ((∀ (walk : List (Address × CMPTally)) (c : Contents), walk.Perm n.state.tally.entries →
          c.Agree (contents n.state) → consensusHashInput n.state walk = c.documented) ↔
        (∀ k, n.state.offers.contains k = true → k.property < 10) ∧
          (∀ k, n.state.accepts.contains k = true → '+' ∉ k.seller.toList) ∧ CountersApart n.state) := by
  have hrun : (run step (Node.initial exchangeCfg)
      [.blockBegin 1 1500000000 1, .packet dexIssue issuanceEnv, .packet (sellAll 3) issuanceEnv]).map
        (fun n => dexOfferExists n.state "seller" 3) = some true := by decide +kernel
  obtain ⟨n, hn, hoffer⟩ := Option.map_eq_some_iff.mp hrun
  exact ⟨n, hn, hoffer, consensus_hash_iff hn⟩

/-- An offer of a property of the test ecosystem: `seller-21474836` is no address. -/
theorem consensus_hash_cut_off :
    ¬ ∀ (cfg : Config) (es : List Event) (n : Node), run step (Node.initial cfg) es = some n →
      ∀ (walk : List (Address × CMPTally)) (c : Contents), walk.Perm n.state.tally.entries →
        c.Agree (contents n.state) → consensusHashInput n.state walk = c.documented := by
  intro h
  have hrun : (run step (Node.initial exchangeCfg)
      [.blockBegin 1 1500000000 1, .packet { dexIssue with ecosystem := 2 } issuanceEnv,
        .packet (sellAll testEcoProperty1) issuanceEnv]).map
      (fun n => dexOfferExists n.state "seller" testEcoProperty1) = some true := by decide +kernel
  obtain ⟨n, hn, hoffer⟩ := Option.map_eq_some_iff.mp hrun
  have hdocumented := h _ _ n hn _ _ (List.Perm.refl _) (Contents.Agree.refl _)
  have hdigit := ((consensusHashInput_iff (run_numbered hn) (run_spKnown hn) (List.Perm.refl _)).mp
    hdocumented).1 ⟨"seller", testEcoProperty1⟩ hoffer
  exact absurd hdigit (by decide)

end Rapids.Token
