import Rapids.Payload.Encoding

/-!
# Rapids.Payload.ParseTransaction

**Reading a transaction as a token transaction** (`GetEncodingClass` and
`parseTransaction`, `tokencore/tokencore.cpp`).

The class is told from the outputs. The sender is the address behind the first input
in class C, and the address with the largest sum of inputs otherwise. The **reference
address** of classes B and C is guessed from the addresses that are paid, the Exodus
address left aside: if there is one it is that one; otherwise the first output to the
sender is taken for change, and the last other one is the reference.

The outputs that inputs spend are given (`view`), as is the governance's fee script.
Amounts are added without bounds: those of a transaction in a block are money.
-/

namespace Rapids.Payload

open Rapids.Lib Rapids.Chain

deriving instance DecidableEq for Destination

/-! ### The encoding class -/

inductive EncodingClass
  | noMarker
  | classA
  | classB
  | classC
  deriving DecidableEq, Repr

/-- What the parser reads apart from the transaction. -/
structure ParseContext where
  nulldataBlock : Nat
  /-- `governance->GetFeeScript()` -/
  feeScript : Script
  /-- `FillTxInputCache`: the output that an input spends. -/
  view : OutPoint → Option TxOut

/-- `IsAllowedOutputType`. On every network three of the blocks are 0. -/
def isAllowedOutputType (nulldataBlock nBlock : Nat) : OutputType → Bool
  | .pubKeyHash => true
  | .scriptHash => true
  | .multisig => true
  | .nullData => nulldataBlock ≤ nBlock
  | .pubKey => false

/-- `IsAllowedInputType`. On every network both blocks are 0. -/
def isAllowedInputType : OutputType → Bool
  | .pubKeyHash => true
  | .scriptHash => true
  | _ => false

/-- The type of an output that counts. -/
def countedType (nulldataBlock nBlock : Nat) (s : Script) : Option OutputType :=
  (safeSolver s).filter (isAllowedOutputType nulldataBlock nBlock)

/-- The pushes of a tagged output, with the marker stripped from the first. -/
def carriedPushes (s : Script) : Option (List (List UInt8)) :=
  match getScriptPushes s with
  | none => none
  | some [] => none
  | some (first :: rest) =>
    if omMarker.isPrefixOf first then some (first.drop omMarker.length :: rest) else none

/-- `HexStr`, digit by digit. -/
def hexStr (s : List UInt8) : List UInt8 := s.flatMap fun b => [b / 16, b % 16]

variable (N : TokenNetwork)

/-- The fast search of `GetEncodingClass`. -/
def examineClosely (vout : List TxOut) : Bool :=
  N.isNonMainNet || vout.any fun o =>
    o.scriptPubKey = getScriptForDestination (.keyID exodusMainnet) ||
      (hexStr o.scriptPubKey).tails.any (hexStr omMarker).isPrefixOf

/-- Does a script tell of class C at a height? -/
def isMarked (nulldataBlock nBlock : Nat) (s : Script) : Bool :=
  countedType nulldataBlock nBlock s = some .nullData && (carriedPushes s).isSome

/-- `GetEncodingClass` -/
def getEncodingClass (nulldataBlock : Nat) (vout : List TxOut) (nBlock : Nat) :
    EncodingClass :=
  if !examineClosely N vout then .noMarker
  else
    let hasExodus := vout.any fun o =>
      countedType nulldataBlock nBlock o.scriptPubKey = some .pubKeyHash &&
        extractDestination N.hash160 o.scriptPubKey = some N.exodusAddress
    let hasMultisig := vout.any fun o => countedType nulldataBlock nBlock o.scriptPubKey = some .multisig
    let hasOpReturn := vout.any fun o => isMarked nulldataBlock nBlock o.scriptPubKey
    if hasOpReturn then .classC
    else if hasExodus && hasMultisig then .classB
    else if hasExodus then .classA
    else .noMarker

/-! ### The sender -/

/-- Add to a sum of a `std::map` from strings. -/
def addInput (source : List UInt8) (value : Int) : List (List UInt8 × Int) → List (List UInt8 × Int)
  | [] => [(source, value)]
  | (key, sum) :: rest =>
    if source = key then (key, sum + value) :: rest
    else if source < key then (source, value) :: (key, sum) :: rest
    else (key, sum) :: addInput source value rest

/-- Find the largest by sum. -/
def largestInput (sums : List (List UInt8 × Int)) : List UInt8 :=
  (sums.foldl (fun best sum => if best.2 < sum.2 then sum else best) ([], 0)).1

/-- The address behind an input, or the code of an error. -/
def inputSource (codes : Int × Int × Int) (o : TxOut) : Except Int (List UInt8) :=
  match safeSolver o.scriptPubKey with
  | none => .error codes.1
  | some whichType =>
    if !isAllowedInputType whichType then .error codes.2.1
    else
      match extractDestination N.hash160 o.scriptPubKey with
      | none => .error codes.2.2
      | some source => .ok (N.encode source)

/-- The loop over the inputs, outside class C. -/
def sumInputs (N : TokenNetwork) : List TxOut → List (List UInt8 × Int) → Except Int (List (List UInt8 × Int))
  | [], sums => .ok sums
  | o :: rest, sums =>
    match inputSource N (-104, -105, -106) o with
    | .error code => .error code
    | .ok source => sumInputs N rest (addInput source o.nValue sums)

/-- Sender identification. The source reads the first input without looking whether there is
one; `CheckTransaction` refuses transactions without inputs. -/
def identifySender (tokenClass : EncodingClass) (spent : List TxOut) :
    Except Int (List UInt8) :=
  if tokenClass = .classC then
    match spent with
    | [] => .error (-101)
    | o :: _ => inputSource N (-108, -109, -110) o
  else
    match sumInputs N spent [] with
    | .error code => .error code
    | .ok sums => .ok (largestInput sums)

/-! ### The outputs to addresses -/

/-- An entry of `address_data`, with those of `script_data` and `value_data`. -/
structure AddressOutput where
  n : Nat
  address : List UInt8
  pushes : List (List UInt8)
  value : Int

/-- `addValidStmAddress`, in a `std::map` from bytes. -/
def addValidStmAddress (addresses : List (UInt8 × List UInt8)) (output : UInt8) (address : List UInt8) :
    List (UInt8 × List UInt8) :=
  (output, address) :: addresses.filter fun entry => entry.1 ≠ output

/-- `getValidStmAddressAt` -/
def getValidStmAddressAt (addresses : List (UInt8 × List UInt8)) (output : UInt8) : Option (List UInt8) :=
  (addresses.find? fun entry => entry.1 = output).map Prod.snd

/-- Save output addresses, values and scripts. -/
def addressOutputs (nulldataBlock nBlock : Nat) (vout : List TxOut) : List AddressOutput :=
  vout.zipIdx.filterMap fun (o, n) =>
    match countedType nulldataBlock nBlock o.scriptPubKey, extractDestination N.hash160 o.scriptPubKey with
    | some _, some dest =>
      if dest = N.exodusAddress then none
      else some ⟨n, N.encode dest, (getScriptPushes o.scriptPubKey).getD [], o.nValue⟩
    | _, _ => none

/-! ### Class A -/

/-- `PACKET_SIZE_CLASS_A` -/
def packetSizeClassA : Nat := 19

/-- The data packet of class A, its address, sequence number and amount. -/
structure DataPacket where
  script : List UInt8
  address : List UInt8
  seq : UInt8
  value : Int

/-- Does a push look like a data packet? -/
def peeksData (push : List UInt8) : Bool :=
  (push.drop 1).take 8 = [0, 0, 0, 0, 0, 0, 0, 1] || (push.drop 1).take 8 = [0, 0, 0, 0, 0, 0, 0, 2]

/-- Step 1, locate the data packet. A second one invalidates the class. -/
def locateData : List AddressOutput → Option DataPacket → Option DataPacket
  | [], found => found
  | o :: rest, found =>
    let push := o.pushes.headD []
    if peeksData push then
      match found with
      | some _ => none
      | none =>
        locateData rest
          (some ⟨(push.drop 1).take packetSizeClassA, o.address, push.headD 0, o.value⟩)
    else locateData rest found

/-- Step 2, locate an address with the next sequence number. Two of them are a collision. -/
def locateNext (exodusAddress : List UInt8) (packet : DataPacket) :
    List AddressOutput → List UInt8 → List UInt8
  | [], strRefAddress => strRefAddress
  | o :: rest, strRefAddress =>
    if o.address ≠ packet.address ∧ o.address ≠ exodusAddress ∧
        packet.seq + 1 = (o.pushes.headD []).headD 0 then
      if strRefAddress = [] then locateNext exodusAddress packet rest o.address else []
    else locateNext exodusAddress packet rest strRefAddress

/-- The inner loop of step 3: one round for every Exodus output of the same amount. -/
def matchExodus (address : List UInt8) : Nat → List UInt8 → List UInt8
  | 0, strRefAddress => strRefAddress
  | rounds + 1, strRefAddress =>
    if strRefAddress = [] then matchExodus address rounds address else []

/-- Step 3, locate an address with the amount of the data and Exodus outputs. -/
def locateAmount (exodusAddress : List UInt8) (exodusValues : List Int) (packet : DataPacket) :
    List AddressOutput → List UInt8 → List UInt8
  | [], strRefAddress => strRefAddress
  | o :: rest, strRefAddress =>
    locateAmount exodusAddress exodusValues packet rest
      (if o.address ≠ packet.address ∧ o.address ≠ exodusAddress ∧ packet.value = o.value then
        matchExodus o.address (exodusValues.count o.value) strRefAddress
      else strRefAddress)

/-- Class A: the reference address and the packet; neither, if one of them is missing. -/
def parseClassA (vout : List TxOut) (outs : List AddressOutput) :
    List UInt8 × List UInt8 :=
  match locateData outs none with
  | none => ([], [])
  | some packet =>
    let exodus := N.encode N.exodusAddress
    let exodusValues := (vout.filter fun o =>
      extractDestination N.hash160 o.scriptPubKey = some N.exodusAddress).map TxOut.nValue
    let strRefAddress := locateNext exodus packet outs []
    let strRefAddress :=
      if strRefAddress = [] then locateAmount exodus exodusValues packet outs [] else strRefAddress
    if strRefAddress = [] then ([], []) else (strRefAddress, packet.script)

/-! ### Reference identification -/

/-- The number of potential reference outputs, and the address if there is just one. -/
def countReferences (exodusAddress : List UInt8) : List (List UInt8) → Nat → List UInt8 → Nat × List UInt8
  | [], potentialReferenceOutputs, strReference => (potentialReferenceOutputs, strReference)
  | addr :: rest, potentialReferenceOutputs, strReference =>
    if addr ≠ exodusAddress then
      countReferences exodusAddress rest (potentialReferenceOutputs + 1)
        (if potentialReferenceOutputs = 0 then addr else [])
    else countReferences exodusAddress rest potentialReferenceOutputs strReference

/-- Going fishing: the last output, but for the first one to the sender. -/
def fishReference (exodusAddress strSender : List UInt8) : List (List UInt8) → Bool → List UInt8 → List UInt8
  | [], _, strReference => strReference
  | addr :: rest, changeRemoved, strReference =>
    if addr ≠ exodusAddress then
      if addr = strSender ∧ changeRemoved = false then
        fishReference exodusAddress strSender rest true strReference
      else fishReference exodusAddress strSender rest changeRemoved addr
    else fishReference exodusAddress strSender rest changeRemoved strReference

def identifyReference (exodusAddress strSender : List UInt8) (addresses : List (List UInt8)) : List UInt8 :=
  let counted := countReferences exodusAddress addresses 0 []
  if counted.1 = 1 then counted.2 else fishReference exodusAddress strSender addresses false counted.2

/-! ### Payloads -/

/-- The pushes of a multisig output, less the first, which should belong to the sender. -/
def multisigPushes (s : Script) : List (List UInt8) :=
  if solvesMultisig s then ((getScriptPushes s).getD []).drop 1 else []

/-- The payload of class B. More than `MAX_PACKETS` packets are trimmed. -/
def parseClassB (strSender : List UInt8) (vout : List TxOut) : List UInt8 :=
  let packets := (vout.flatMap fun o => multisigPushes o.scriptPubKey).take maxPackets
  decodePackets (prepareObfuscatedHashes N.sha256 strSender (1 + packets.length)) 0 packets

/-- What a tagged output carries. -/
def carriedData (nulldataBlock nBlock : Nat) (s : Script) : List UInt8 :=
  if isMarked nulldataBlock nBlock s then ((carriedPushes s).getD []).flatten else []

/-- The payload of class C, of limited size. -/
def parseClassC (nulldataBlock nBlock : Nat) (vout : List TxOut) : List UInt8 :=
  (vout.flatMap fun o => carriedData nulldataBlock nBlock o.scriptPubKey).take (maxPackets * packetSize)

/-! ### The transaction -/

/-- The fields of `CMPTransaction` that the parser sets. -/
structure ParsedTransaction where
  txid : Nat
  block : Nat
  txIdx : Nat
  blockTime : Nat
  nDonation : Int
  sender : List UInt8
  receiver : List UInt8
  pkt : List UInt8
  encodingClass : EncodingClass
  txFeePaid : Int
  validOutputAddressesForSTM : List (UInt8 × List UInt8)
  deriving DecidableEq

/-- `parseTransaction`: an error, or 0, or 1 as a hint for DEx payments. -/
def parseTransaction (C : ParseContext) (wtx : Transaction) (nBlock idx nTime : Nat) :
    Except Int (Int × ParsedTransaction) :=
  let nDonation := totalOut (wtx.vout.filter fun o => o.scriptPubKey = C.feeScript)
  let tokenClass := getEncodingClass N C.nulldataBlock wtx.vout nBlock
  if tokenClass = .noMarker then .error (-1)
  else
    match wtx.vin.mapM fun i => C.view i.prevout with
    | none => .error (-101)
    | some spent =>
      match identifySender N tokenClass spent with
      | .error code => .error code
      | .ok strSender =>
        if strSender = [] then .error (-5)
        else
          let outs := addressOutputs N C.nulldataBlock nBlock wtx.vout
          let read : List UInt8 × List UInt8 :=
            if tokenClass = .classA then parseClassA N wtx.vout outs
            else
              (identifyReference (N.encode N.exodusAddress) strSender (outs.map AddressOutput.address),
                if tokenClass = .classB then parseClassB N strSender wtx.vout
                else parseClassC C.nulldataBlock nBlock wtx.vout)
          .ok (if tokenClass = .classA ∧ read.2 = [] then 1 else 0,
            { txid := wtx.hash
              block := nBlock
              txIdx := idx
              blockTime := nTime
              nDonation := nDonation
              sender := strSender
              receiver := read.1
              pkt := read.2
              encodingClass := tokenClass
              txFeePaid := totalOut spent - totalOut wtx.vout
              validOutputAddressesForSTM := outs.foldl
                (fun addresses o => addValidStmAddress addresses (UInt8.ofNat o.n) o.address) [] })

end Rapids.Payload
