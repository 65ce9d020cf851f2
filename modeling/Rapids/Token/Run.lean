import Rapids.Token.TxSound

/-!
# Rapids.Token.Run

**Runs of the token layer**: the calls a chain of blocks leads to, from the
empty state on.

A block begins (`blockBegin`), its transactions are either packets or payments
to the exchange, and it ends (`blockEnd`). The `Node` carries a clock beside
the state: the first position in the chain that no packet has used. Heights
never fall and a packet's position is always new, which is all that the order
of the calls contributes to the invariants.
-/

namespace Rapids.Token

open Rapids.Lib

/-! ### Ends of blocks -/

variable (s : State)

/-- Dev tokens vested, as a change of the Exodus balance. An update that is
refused goes unnoticed. -/
def creditVested (devmsc : Int) : Option State :=
  let delta := devmsc - s.exodusPrev
  if 0 < delta then
    (updateTallyMap s s.cfg.exodusAddress propertyMSC delta .balance).map fun r =>
      { r.2 with exodusPrev := devmsc }
  else some s

/-- `calculate_and_update_devmsc` -/
def calculateAndUpdateDevmsc (time block : Nat) : Option State :=
  let devmsc := s.cfg.devmsc time
  if time < 1377993874 then some s
  else if devmsc - s.exodusPrev < 0 then some s
  else if allReward < devmsc ∨ devmsc < 0 then some s
  else do
    let s ← creditVested s devmsc
    notifyTotalTokensChanged s propertyMSC block

/-- Has the alert expired? Alerts of an unknown type are removed. -/
def AlertData.isExpired (a : AlertData) (block time : Nat) : Bool :=
  if a.alertType = alertBlockExpiry then decide (a.alertExpiry ≤ block)
  else if a.alertType = 2 then decide (a.alertExpiry < time)
  else if a.alertType = alertClientVersionExpiry then decide (a.alertExpiry < tokencoreVersion)
  else true

def checkExpiredAlerts (block time : Nat) : State :=
  { s with alerts := s.alerts.filter fun a => !a.isExpired block time }

/-! ### Events -/

/-- The calls into the token layer. -/
inductive Event
  | blockBegin (height time : Nat) (hash : Hash)
  /-- A transaction without a packet: its outputs, as payments by its sender. -/
  | payment (block : Nat) (sender : Address) (outputs : List (Address × Int))
  | packet (tx : CMPTransaction) (env : TxEnv)
  | blockEnd (height time : Nat)

/-- `mastercore_handler_block_begin` -/
def handlerBlockBegin (height time : Nat) (hash : Hash) : Option State :=
  eraseExpiredCrowdsale (checkLiveActivations s height) time hash

/-- `mastercore_handler_block_end` -/
def handlerBlockEnd (height time : Nat) : Option State := do
  let s ← eraseExpiredAccepts s height
  let s ← calculateAndUpdateDevmsc s time height
  return checkExpiredAlerts s height time

/-- The handler of an event. -/
def handle : Event → Option State
  | .blockBegin height time hash => handlerBlockBegin s height time hash
  | .payment block sender outputs => handleDExPayments s sender outputs block
  | .packet tx env => (interpretPacket s tx env).map Prod.snd
  | .blockEnd height time => handlerBlockEnd s height time

/-- The block an event belongs to. -/
def Event.block : Event → Nat
  | .blockBegin height _ _ => height
  | .payment block _ _ => block
  | .packet tx _ => tx.block
  | .blockEnd height _ => height

/-! ### Nodes -/

/-- The state of a node, and the first position no packet has used. -/
structure Node where
  state : State
  clock : Position

/-- Is the event later than all before it? -/
def Event.isNext (e : Event) (clock : Position) : Bool :=
  match e with
  | .packet tx _ => decide (clock ≤ position tx.block tx.txIdx)
  | _ => decide ((ofLex clock).1 ≤ e.block)

/-- The clock after an event. -/
def Event.tick (e : Event) (clock : Position) : Position :=
  match e with
  | .packet tx _ => position tx.block (tx.txIdx + 1)
  | _ => if (ofLex clock).1 < e.block then position e.block 0 else clock

/-- One call. -/
def step (n : Node) (e : Event) : Option Node :=
  if e.isNext n.clock then (handle n.state e).map fun s => ⟨s, e.tick n.clock⟩ else none

/-- The state before the first block. -/
def State.initial (cfg : Config) : State := { cfg := cfg, params := consensusParams cfg.network }

def Node.initial (cfg : Config) : Node := ⟨State.initial cfg, position 0 0⟩

end Rapids.Token
