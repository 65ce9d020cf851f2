import Rapids.Masternode.Winners

/-!
# Rapids.Masternode.Sporks

**Sporks** (`spork.cpp`): values that the holder of the spork key sets for the whole
network by signed messages.

A node keeps the newest message of each spork. It takes over a message from the
network if that was signed later than its own, and writes it to the spork database,
from which it starts again. The signer's own path, `UpdateSpork`, neither compares
nor writes.

`delivers` says which message an event brings to the node, and `sporkKept` which events
leave the newest one in force. `mapSporks`, which answers requests of peers, is not
modelled.
-/

namespace Rapids.Masternode

open Rapids.Lib

/-! ### Messages and nodes -/

/-- `CSporkMessage` -/
structure SporkMessage where
  nSporkID : Int
  nValue : Int
  nTimeSigned : Int
  vchSig : List UInt8
  nMessVersion : Int
  deriving DecidableEq

/-- `sporkDefs`: ids and default values. -/
def sporkDefs : List (Int × Int) :=
  [(10001, 0), (10002, 0), (10004, 1000), (10007, 4070908800), (10008, 4070908800), (10012, 4070908800),
    (10013, 4070908800), (10014, 4070908800), (10015, 4070908800), (10017, 4070908800), (10018, 4070908800)]

/-- Is it an id of `sporkDefsById`? -/
def knownSpork (nSporkID : Int) : Bool := sporkDefs.any fun d => d.1 = nSporkID

/-- What a node is set up with. -/
structure SporkSetup where
  fLiteMode : Bool
  /-- `CheckSignature`, against the spork key of the network. -/
  checkSignature : SporkMessage → Bool
  /-- The signature that `-sporkkey` makes of an id, a value and a time, if it is set. -/
  sign : Option (Int → Int → Int → List UInt8)

/-- `CSporkManager`, with the database behind it. -/
structure SporkNode where
  mapSporksActive : OrdMap Int SporkMessage
  pSporkDB : OrdMap Int SporkMessage
  deriving DecidableEq

def SporkNode.fresh : SporkNode := ⟨∅, ∅⟩

/-- One turn of `LoadSporksFromDB`. -/
def loadSpork (db active : OrdMap Int SporkMessage) (d : Int × Int) : OrdMap Int SporkMessage :=
  match db.find? d.1 with
  | none => active
  | some spork => active.insert spork.nSporkID spork

/-- `LoadSporksFromDB`, into an empty map. -/
def loadSporksFromDB (db : OrdMap Int SporkMessage) : OrdMap Int SporkMessage :=
  sporkDefs.foldl (loadSpork db) ∅

variable (E : SporkSetup)

/-- `ProcessSpork`, of a spork message at a time. -/
def processSpork (now : Int) (s : SporkNode) (spork : SporkMessage) : SporkNode :=
  if E.fLiteMode then s
  else if !knownSpork spork.nSporkID then s
  else if now + 2 * 60 * 60 < spork.nTimeSigned then s
  else if spork.nMessVersion ≠ messVerHash then s
  else if (s.mapSporksActive.find? spork.nSporkID).any fun active => spork.nTimeSigned ≤ active.nTimeSigned then s
  else if !E.checkSignature spork then s
  else ⟨s.mapSporksActive.insert spork.nSporkID spork, s.pSporkDB.insert spork.nSporkID spork⟩

/-- The message that `UpdateSpork` signs. -/
def newSpork (sign : Int → Int → Int → List UInt8) (nSporkID nValue now : Int) : SporkMessage :=
  ⟨nSporkID, nValue, now, sign nSporkID nValue now, messVerHash⟩

/-- `UpdateSpork` -/
def updateSpork (now : Int) (s : SporkNode) (nSporkID nValue : Int) : SporkNode :=
  match E.sign with
  | none => s
  | some sign =>
    { s with mapSporksActive := s.mapSporksActive.insert nSporkID (newSpork sign nSporkID nValue now) }

/-- The value of a spork where a message is in force, or none. -/
def sporkValue (active : Option SporkMessage) (nSporkID : Int) : Int :=
  match active with
  | some spork => spork.nValue
  | none => ((sporkDefs.find? fun d => d.1 = nSporkID).map Prod.snd).getD (-1)

/-- `GetSporkValue` -/
def getSporkValue (s : SporkNode) (nSporkID : Int) : Int :=
  sporkValue (s.mapSporksActive.find? nSporkID) nSporkID

/-- What happens at a node. A node that is killed within `ProcessSpork`, before it has
written, has restarted. -/
inductive SporkEvent
  | receive (now : Int) (spork : SporkMessage)
  | update (now nSporkID nValue : Int)
  | restart

/-- Carry out an event. -/
def sporkStep (s : SporkNode) : SporkEvent → SporkNode
  | .receive now spork => processSpork E now s spork
  | .update now nSporkID nValue => updateSpork E now s nSporkID nValue
  | .restart => { s with mapSporksActive := loadSporksFromDB s.pSporkDB }

/-! ### What reaches a node -/

/-- The message, if any, that an event brings to the node: one that it signs, or that comes
correctly signed, for a known spork, in a version and at a time the node accepts. -/
def delivers : SporkEvent → Option SporkMessage
  | .receive now spork =>
    if !E.fLiteMode && knownSpork spork.nSporkID && decide (spork.nTimeSigned ≤ now + 2 * 60 * 60) &&
        decide (spork.nMessVersion = messVerHash) && E.checkSignature spork then some spork
    else none
  | .update now nSporkID nValue => E.sign.map fun sign => newSpork sign nSporkID nValue now
  | .restart => none

/-- Is it a message of the spork, signed later than one there may be? -/
def isNewer (nSporkID : Int) (best : Option SporkMessage) (m : SporkMessage) : Bool :=
  decide (m.nSporkID = nSporkID) && best.all fun active => decide (active.nTimeSigned < m.nTimeSigned)

/-- The message of a spork that was signed last. -/
def newest (sporks : List SporkMessage) (nSporkID : Int) : Option SporkMessage :=
  sporks.foldl (fun best m => if isNewer nSporkID best m then some m else best) none

/-- An event after which the node still holds the newest message of each spork: an update that
is signed later than the message in force, a restart that finds in the database all that
is in force, or any message. -/
def sporkKept (s : SporkNode) : SporkEvent → Bool
  | .receive _ _ => true
  | .update now nSporkID _ => (s.mapSporksActive.find? nSporkID).all fun active => active.nTimeSigned < now
  | .restart => s.mapSporksActive = s.pSporkDB

end Rapids.Masternode
