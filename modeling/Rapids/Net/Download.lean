import Rapids.Lib.OrdMap
import Rapids.Lib.Run

/-!
# Rapids.Net.Download

**Blocks in flight** (`main.cpp`): the requests that were sent to peers and not answered
yet, and the four functions that record them.

A request stands in its peer's list, in the global map from block hashes to list positions,
in the peer's counter and, if its header was validated, in the global counter. A position
in a list (`std::list` iterator) is the number its item got when it was inserted: it stays
valid until the item is erased. A call that the program does not survive (a failed
assertion, a null pointer, an erased list position) is `none`.
-/

namespace Rapids.Net

open Rapids.Lib

/-! ### State -/

/-- `QueuedBlock`. The block index entry is optional. -/
structure QueuedBlock where
  hash : Nat
  pindex : Option Nat
  nTime : Int
  nValidatedQueuedBefore : Int
  fValidatedHeaders : Bool
  deriving DecidableEq

/-- The fields of `CNodeState` that the download bookkeeping reads or writes. -/
structure CNodeState where
  nMisbehavior : Int := 0
  fCurrentlyConnected : Bool := false
  fSyncStarted : Bool := false
  nStallingSince : Int := 0
  vBlocksInFlight : List (Nat × QueuedBlock) := []
  nBlocksInFlight : Int := 0
  fPreferredDownload : Bool := false
  deriving DecidableEq

/-- The globals of `main.cpp` about downloads. `nextItem` numbers the items of the lists. -/
structure Downloads where
  mapNodeState : OrdMap Int CNodeState
  mapBlocksInFlight : OrdMap Nat (Int × Nat)
  nQueuedValidatedHeaders : Int
  nSyncStarted : Int
  nPreferredDownload : Int
  nextItem : Nat
  deriving DecidableEq

/-- Before the first peer. -/
def Downloads.init : Downloads := ⟨∅, ∅, 0, 0, 0, 0⟩

/-- A flag in arithmetic. -/
def ofFlag (b : Bool) : Int := if b then 1 else 0

/-- `State` -/
def state (s : Downloads) (pnode : Int) : Option CNodeState := s.mapNodeState.find? pnode

/-! ### The four functions -/

variable (s : Downloads)

/-- `InitializeNode`: a peer that is known keeps its state. -/
def initializeNode (nodeid : Int) : Downloads :=
  { s with mapNodeState := s.mapNodeState.insertNew nodeid {} }

/-- `FinalizeNode`, with its answer `fUpdateConnectionTime`. -/
def finalizeNode (nodeid : Int) : Option (Downloads × Bool) :=
  match state s nodeid with
  | none => none
  | some st =>
    some
      ({ s with
          nSyncStarted := s.nSyncStarted - ofFlag st.fSyncStarted
          mapBlocksInFlight :=
            st.vBlocksInFlight.foldl (fun m entry => m.erase entry.2.hash) s.mapBlocksInFlight
          nPreferredDownload := s.nPreferredDownload - ofFlag st.fPreferredDownload
          mapNodeState := s.mapNodeState.erase nodeid },
        decide (st.nMisbehavior = 0) && st.fCurrentlyConnected)

/-- The peer's state after the item at a position of its list has arrived. -/
def CNodeState.received (st : CNodeState) (it : Nat) : CNodeState :=
  { st with
    vBlocksInFlight := st.vBlocksInFlight.eraseP fun item => item.1 = it
    nBlocksInFlight := st.nBlocksInFlight - 1
    nStallingSince := 0 }

/-- `MarkBlockAsReceived` -/
def markBlockAsReceived (hash : Nat) : Option Downloads :=
  match s.mapBlocksInFlight.find? hash with
  | none => some s
  | some (node, it) =>
    (state s node).bind fun st =>
      (st.vBlocksInFlight.find? fun item => item.1 = it).bind fun entry =>
        some
          { s with
            nQueuedValidatedHeaders := s.nQueuedValidatedHeaders - ofFlag entry.2.fValidatedHeaders
            mapNodeState := s.mapNodeState.insert node (st.received it)
            mapBlocksInFlight := s.mapBlocksInFlight.erase hash }

/-- The peer's state after a request is appended to its list. -/
def CNodeState.queued (st : CNodeState) (it : Nat) (entry : QueuedBlock) : CNodeState :=
  { st with
    vBlocksInFlight := st.vBlocksInFlight ++ [(it, entry)]
    nBlocksInFlight := st.nBlocksInFlight + 1 }

/-- The request that `MarkBlockAsInFlight` makes of its arguments, the time and the counter. -/
def newEntry (hash : Nat) (pindex : Option Nat) (now : Int) : QueuedBlock :=
  ⟨hash, pindex, now, s.nQueuedValidatedHeaders, pindex.isSome⟩

/-- `MarkBlockAsInFlight`. The peer's state is looked up, and must exist, before the block
is taken from the lists it may stand in; it is the same object afterwards. -/
def markBlockAsInFlight (nodeid : Int) (hash : Nat) (pindex : Option Nat) (now : Int) :
    Option Downloads :=
  if (state s nodeid).isSome then
    (markBlockAsReceived s hash).bind fun s₁ =>
      (state s₁ nodeid).bind fun st =>
        some
          { s₁ with
            nQueuedValidatedHeaders := s₁.nQueuedValidatedHeaders + ofFlag pindex.isSome
            mapNodeState :=
              s₁.mapNodeState.insert nodeid (st.queued s₁.nextItem (newEntry s₁ hash pindex now))
            mapBlocksInFlight := s₁.mapBlocksInFlight.insert hash (nodeid, s₁.nextItem)
            nextItem := s₁.nextItem + 1 }
  else
    none

/-- A call of one of the four functions. -/
inductive Call where
  | initializeNode (nodeid : Int)
  | finalizeNode (nodeid : Int)
  | markBlockAsReceived (hash : Nat)
  | markBlockAsInFlight (nodeid : Int) (hash : Nat) (pindex : Option Nat) (now : Int)
  deriving DecidableEq

/-- Make one call. -/
def call : Call → Option Downloads
  | .initializeNode nodeid => some (initializeNode s nodeid)
  | .finalizeNode nodeid => (finalizeNode s nodeid).map Prod.fst
  | .markBlockAsReceived hash => markBlockAsReceived s hash
  | .markBlockAsInFlight nodeid hash pindex now => markBlockAsInFlight s nodeid hash pindex now

/-! ### What the books should say -/

/-- How many requests of a peer have validated headers. -/
def CNodeState.validated (st : CNodeState) : Int :=
  (st.vBlocksInFlight.countP fun item => item.2.fValidatedHeaders : Nat)

/-- How many requests in flight have validated headers. -/
def Downloads.validated : Int := s.mapNodeState.sumBy fun _ st => st.validated

/-- A request stands in the list of a peer. -/
def Downloads.InFlight (node : Int) (it : Nat) (entry : QueuedBlock) : Prop :=
  ∃ st, state s node = some st ∧ (it, entry) ∈ st.vBlocksInFlight

/-- **The books balance**: a block is in flight once, the map and the lists hold the same
requests, and both counters count them. -/
structure Balanced (s : Downloads) : Prop where
  /-- A block hash is in flight from one peer, -/
  one_peer : ∀ {node node' it it' entry entry'}, s.InFlight node it entry →
    s.InFlight node' it' entry' → entry.hash = entry'.hash → node = node'
  /-- and once. -/
  once : ∀ {node st}, state s node = some st → (st.vBlocksInFlight.map fun item => item.2.hash).Nodup
  /-- The map and the lists hold the same requests. -/
  same_requests : ∀ hash node it, s.mapBlocksInFlight.find? hash = some (node, it) ↔
    ∃ entry, s.InFlight node it entry ∧ entry.hash = hash
  /-- A peer's counter is the length of its list. -/
  count : ∀ {node st}, state s node = some st → st.nBlocksInFlight = st.vBlocksInFlight.length
  /-- The global counter counts the requests with validated headers. -/
  validated : s.nQueuedValidatedHeaders = s.validated

end Rapids.Net
