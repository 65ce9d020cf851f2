import Rapids.Token.Tally

/-!
# Rapids.Token.SpInfo

The **smart property database** (`dbspinfo.cpp`, and the lookups of `sp.cpp`).

`putSP` hands out identifiers from one 32-bit counter per ecosystem. It writes
under the identifier even when an entry is already stored there; the sanity
checks before the write only log. `updateSP` keeps the entry it replaces under
the hash of the updating block.
-/

namespace Rapids.Token

open Rapids.Lib

/-! ### Entries -/

def SPEntry.isDivisible (e : SPEntry) : Bool :=
  e.propType == propertyTypeDivisible || e.propType == 66 || e.propType == 130

/-- Record a new issuer as of a position. -/
def SPEntry.updateIssuer (e : SPEntry) (block idx : Nat) (newIssuer : Address) : SPEntry :=
  { e with historicalIssuers := e.historicalIssuers.insert (position block idx) newIssuer }

/-- The issuer as of a block: the last recorded one that is not later. -/
def SPEntry.getIssuer (e : SPEntry) (block : Nat) : Address :=
  ((e.historicalIssuers.entries.takeWhile fun h => decide ((ofLex h.1).1 ≤ block)).getLast?.map
    Prod.snd).getD e.issuer

/-- The entry both reserved properties share. -/
def impliedToken (exodus : Address) : SPEntry :=
  SPEntry.updateIssuer
    { issuer := exodus, propType := propertyTypeIndivisible, category := "N/A", subcategory := "N/A",
      name := "Reserved", ticker := "Reserved", url := "N/A", data := "Reserved" } 0 0 exodus

/-! ### Lookups -/

variable (s : State) (p : PropertyId) (ecosystem : Nat) (info : SPEntry)

/-- `getSP`: the two reserved properties are implied. -/
def getSP : Option SPEntry :=
  if p = propertyMSC ∨ p = propertyTMSC then some (impliedToken s.cfg.exodusAddress)
  else s.sp.entries.find? p

def hasSP : Bool := (getSP s p).isSome

def findSPByTX (txid : Hash) : PropertyId := (s.sp.txIndex.find? txid).getD 0

def findSPByTicker (ticker : String) : PropertyId :=
  (s.sp.tickerIndex.find? ticker).getD 0

/-- The identifier the next property of an ecosystem gets. -/
def peekNextSPID : PropertyId :=
  if ecosystem = propertyMSC then s.sp.nextSpid
  else if ecosystem = propertyTMSC then s.sp.nextTestSpid
  else 0

def isPropertyIdValid : Bool :=
  if p = 0 then false
  else if p < testEcoProperty1 then decide (p < peekNextSPID s 1)
  else decide (p < peekNextSPID s 2)

def isPropertyDivisible : Bool :=
  match getSP s p with
  | some e => e.isDivisible
  | none => true

/-! ### Updates -/

/-- Store a new property; the counters are `uint32_t`. -/
def putSP : PropertyId × State :=
  let p := peekNextSPID s ecosystem
  let sp := s.sp
  let sp := if ecosystem = propertyMSC then { sp with nextSpid := (sp.nextSpid + 1) % 2 ^ 32 }
    else if ecosystem = propertyTMSC then { sp with nextTestSpid := (sp.nextTestSpid + 1) % 2 ^ 32 }
    else sp
  (p, { s with sp := { sp with
    entries := sp.entries.insert p info
    txIndex := sp.txIndex.insert info.txid p
    tickerIndex := sp.tickerIndex.insert info.ticker p } })

/-- Replace a property's entry; impossible for the reserved ones. The two
indexes are not touched. -/
def updateSP : Option State :=
  if p = propertyMSC ∨ p = propertyTMSC then none
  else
    let prev := match s.sp.entries.find? p with
      | some old => s.sp.prevEntries.insert (toLex (info.updateBlock, p)) old
      | none => s.sp.prevEntries
    some { s with sp := { s.sp with entries := s.sp.entries.insert p info, prevEntries := prev } }

/-! ### Tickers and usernames

The regular expressions of `tx.cpp`, as tests on characters. -/

/-- `[A-Z0-9._]` -/
def isTickerChar (c : Char) : Bool := c.isUpper || c.isDigit || c == '.' || c == '_'

/-- `[a-z0-9._]` -/
def isUsernameChar (c : Char) : Bool := c.isLower || c.isDigit || c == '.' || c == '_'

/-- `[1-9A-HJ-NP-Za-km-z]` -/
def isBase58Char (c : Char) : Bool :=
  (c.isDigit && c != '0') || (c.isUpper && c != 'I' && c != 'O') || (c.isLower && c != 'l')

/-- `{3,20}` repetitions of a class. -/
def isShortWord (f : Char → Bool) (cs : List Char) : Bool :=
  decide (3 ≤ cs.length) && decide (cs.length ≤ 20) && cs.all f

/-- `[r]?[A-Z0-9._]{3,20}` -/
def isTickerWord : List Char → Bool
  | 'r' :: cs => isShortWord isTickerChar cs
  | cs => isShortWord isTickerChar cs

def isTokenTickerValid (ticker : String) : Bool :=
  isTickerWord ticker.toList &&
    !(ticker == "RPD" || ticker == "RAPIDS" || ticker == "RAPIDSNETWORK")

/-- `SplitSubTicker`: the pieces between `#`; a trailing empty piece is not
delivered. -/
def splitSubTicker (cs : List Char) : List (List Char) :=
  let parts := cs.splitOn '#'
  if parts.getLast? = some [] then parts.dropLast else parts

def isSubTickerValid (ticker : String) : Bool :=
  match ticker.toList.splitOn '#' with
  | [root, sub] => isTickerWord root && isShortWord isTickerChar sub
  | _ => false

/-- Is the text `pre`, one arbitrary character, `rpd`? -/
def isDotRpd (pre : List Char → Bool) (cs : List Char) : Bool :=
  match cs.reverse with
  | 'd' :: 'p' :: 'r' :: any :: rest => any != '\n' && any != '\r' && pre rest.reverse
  | _ => false

def isUsernameValid (username : String) : Bool :=
  isDotRpd (isShortWord isUsernameChar) username.toList &&
    !(isDotRpd (· == "rapids".toList) username.toList || isDotRpd (· == "rpd".toList) username.toList)

/-- A multihash or multibase content identifier, or no text at all. -/
def isTokenIPFSValid (data : String) : Bool :=
  match data.toList with
  | [] => true
  | 'Q' :: 'm' :: cs => decide (44 ≤ cs.length) && cs.all isBase58Char
  | 'b' :: cs =>
    decide (58 ≤ cs.length) && cs.all fun c => c.isAlpha || ('2' ≤ c && c ≤ '7')
  | 'B' :: cs =>
    decide (58 ≤ cs.length) && cs.all fun c => c.isUpper || ('2' ≤ c && c ≤ '7')
  | 'z' :: cs => decide (48 ≤ cs.length) && cs.all isBase58Char
  | 'F' :: cs =>
    decide (50 ≤ cs.length) && cs.all fun c => c.isDigit || ('A' ≤ c && c ≤ 'F')
  | _ => false

/-- `GetUsernameAddress`: the first address with a record of the username's
property. Where none has one, the last address visited is left over. -/
def getUsernameAddress (username : String) : Address :=
  let p := findSPByTicker s username
  if isUsernameValid username && p != 0 then
    -- the inner traversal stops at a property 0
    let holds (t : CMPTally) := (t.entries.takeWhile fun e => e.1 != 0).any fun e => e.1 == p
    match s.tally.entries.find? fun e => holds e.2 with
    | some e => e.1
    | none => (s.tally.last?.map Prod.fst).getD ""
  else ""

/-! ### Specifications -/

@[simp] theorem putSP_fst :
    (putSP s ecosystem info).1 = peekNextSPID s ecosystem := rfl

@[simp] theorem putSP_entries :
    (putSP s ecosystem info).2.sp.entries =
      s.sp.entries.insert (peekNextSPID s ecosystem) info := by
  unfold putSP
  split_ifs <;> rfl

theorem putSP_frame :
    (putSP s ecosystem info).2 = { s with sp := (putSP s ecosystem info).2.sp } := rfl

/-- An update replaces one entry of the database and nothing else but the
history. -/
theorem updateSP_spec {s s' : State} {p : PropertyId} {info : SPEntry}
    (h : updateSP s p info = some s') :
    p ≠ propertyMSC ∧ p ≠ propertyTMSC ∧
      s'.sp.entries = s.sp.entries.insert p info ∧
      s'.sp.nextSpid = s.sp.nextSpid ∧ s'.sp.nextTestSpid = s.sp.nextTestSpid ∧
      s' = { s with sp := s'.sp } := by
  unfold updateSP at h
  by_cases hp : p = propertyMSC ∨ p = propertyTMSC
  · simp [hp] at h
  · rw [if_neg hp] at h
    obtain ⟨h1, h2⟩ := not_or.mp hp
    simp only [Option.some.injEq] at h
    subst h
    exact ⟨h1, h2, rfl, rfl, rfl, rfl⟩

theorem updateSP_isSome {s : State} {p : PropertyId} {info : SPEntry}
    (h1 : p ≠ propertyMSC) (h2 : p ≠ propertyTMSC) :
    ∃ s', updateSP s p info = some s' := by
  simp [updateSP, h1, h2]

end Rapids.Token
