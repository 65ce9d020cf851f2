import Mathlib.Algebra.BigOperators.Group.List.Basic
import Mathlib.Algebra.Ring.Nat

/-!
# Rapids.Chain.Activation

**Activating the best chain** (`main.cpp`), with the calls into the token layer
that it makes.

A chain is the list of its blocks above the genesis block, so a block's height
is its place and the work of a chain is a sum. `ActivateBestChain` takes rounds
until the tip is the chain with the most work. One round is one
`ActivateBestChainStep`: disconnect down to the fork, then connect until there
is more work than before. Between two rounds the lock is released and other
blocks may arrive, so what a round finds (the chain with the most work, and
whether blocks can be disconnected and connected) is an input, `Round`.

The token layer is told that a block begins by `ConnectTip`. Its transactions
and its end are reported by `ActivateBestChain`, after the round.
-/

namespace Rapids.Chain

/-! ### Blocks and chains -/

/-- An index entry, as far as activation looks at it, with its block. -/
structure BlockIndex where
  hash : Nat
  /-- Its transactions, by hash. -/
  vtx : List Nat
  /-- `GetBlockProof` -/
  work : Nat
  /-- There is a coinbase. -/
  vtx_ne_nil : vtx ≠ []
  deriving DecidableEq

/-- The blocks above the genesis block, up to a tip. -/
abbrev BlockChain := List BlockIndex

/-- The tip's height. -/
def BlockChain.height (c : BlockChain) : Nat := c.length

/-- `nChainWork` of the tip, beyond that of the genesis block. -/
def chainWork (c : BlockChain) : Nat := (c.map BlockIndex.work).sum

/-- `FindFork`: the chain up to the last common block. -/
def findFork : BlockChain → BlockChain → BlockChain
  | a :: as, b :: bs => if a = b then a :: findFork as bs else []
  | _, _ => []

/-- A call into the token layer. -/
inductive Call
  | discBegin (height : Nat) (b : BlockIndex)
  | discEnd (height : Nat) (b : BlockIndex)
  | blockBegin (height : Nat) (b : BlockIndex)
  /-- Transaction, height, position, and the index entry it is reported with. -/
  | tx (t height idx : Nat) (b : BlockIndex)
  | blockEnd (height : Nat) (b : BlockIndex)
  deriving DecidableEq

/-! ### One round -/

/-- What `ConnectTip` returns: success, an invalid block, or a system error. -/
inductive ConnectResult
  | ok
  | invalid
  | error
  deriving DecidableEq

/-- What one round of `ActivateBestChain` finds. -/
structure Round where
  /-- `FindMostWorkChain` -/
  mostWork : Option BlockChain
  /-- Does `DisconnectTip` succeed for the block? -/
  disconnects : BlockIndex → Bool
  connect : BlockIndex → ConnectResult

/-- The state of a round. -/
structure Progress where
  chain : BlockChain
  calls : List Call
  /-- `txChanged`: transaction, block and position within it. -/
  txChanged : List (Nat × BlockIndex × Nat)
  /-- The blocks connected, with their heights. -/
  connected : List (Nat × BlockIndex)

/-- The loop that disconnects, over the blocks above the fork, the tip first. -/
def disconnectLoop (disconnects : BlockIndex → Bool) : List BlockIndex → BlockChain → Bool × BlockChain × List Call
  | [], c => (true, c, [])
  | b :: rest, c =>
    if disconnects b then
      let (ok, c', calls) := disconnectLoop disconnects rest c.dropLast
      (ok, c', [.discBegin c.height b, .discEnd c.height b] ++ calls)
    else (false, c, [])

/-- A successful `ConnectTip`. -/
def Progress.connectTip (p : Progress) (b : BlockIndex) : Progress :=
  { chain := p.chain ++ [b]
    calls := p.calls ++ [.blockBegin (p.chain.height + 1) b]
    txChanged := p.txChanged ++ b.vtx.mapIdx fun i t => (t, b, i)
    connected := p.connected ++ [(p.chain.height + 1, b)] }

/-- How a loop over blocks ends: run out, stopped, or failed. -/
inductive Verdict
  | next
  | stop
  | fail
  deriving DecidableEq

/-- The loop over `vpindexToConnect`. -/
def connectBatch (r : Round) (old : BlockChain) : List BlockIndex → Progress → Verdict × Progress
  | [], p => (.next, p)
  | b :: rest, p =>
    match r.connect b with
    | .invalid => (.stop, p)
    | .error => (.fail, p)
    | .ok =>
      if chainWork old < chainWork (p.connectTip b).chain then (.stop, p.connectTip b)
      else connectBatch r old rest (p.connectTip b)

/-- The loop around it, 32 blocks at a time; `n` bounds the number of batches. -/
def connectBatches (r : Round) (old : BlockChain) : Nat → List BlockIndex → Progress → Verdict × Progress
  | 0, _, p => (.next, p)
  | n + 1, branch, p =>
    if branch = [] then (.next, p)
    else
      match connectBatch r old (branch.take 32) p with
      | (.next, p) => connectBatches r old n (branch.drop 32) p
      | result => result

/-- `ActivateBestChainStep` -/
def activateBestChainStep (r : Round) (active target : BlockChain) : Bool × Progress :=
  let fork := findFork active target
  let (ok, chain, calls) := disconnectLoop r.disconnects (active.drop fork.length).reverse active
  if ok then
    let branch := target.drop fork.length
    let (verdict, p) := connectBatches r active branch.length branch ⟨chain, calls, [], []⟩
    (verdict != .fail, p)
  else (false, ⟨chain, calls, [], []⟩)

/-! ### All rounds -/

section
variable (genesis : BlockIndex)

/-- The block at the tip. -/
def BlockChain.tip (c : BlockChain) : BlockIndex := c.getLastD genesis

/-- The calls after a round: all transactions it confirmed, under the new tip,
and the end of one block. -/
def notifyTip (nTxIdx : Nat) (p : Progress) : List Call :=
  (p.txChanged.mapIdx fun i t => Call.tx t.1 p.chain.height (nTxIdx + i) (p.chain.tip genesis)) ++
    [.blockEnd p.chain.height (p.chain.tip genesis)]

/-- What an activation leads to: the new chain, the calls and the blocks
connected. -/
structure Activation where
  chain : BlockChain
  calls : List Call
  connected : List (Nat × BlockIndex)

/-- `ActivateBestChain`. The position counter `nTxIdx` starts at 0 and lives
across the rounds; where the rounds run out, the node is interrupted. -/
def activateBestChain : List Round → Nat → BlockChain → Activation
  | [], _, c => ⟨c, [], []⟩
  | r :: rest, nTxIdx, c =>
    match r.mostWork with
    | none => ⟨c, [], []⟩
    | some target =>
      if target = c then ⟨c, [], []⟩
      else
        let (ok, p) := activateBestChainStep r c target
        if !ok then ⟨p.chain, p.calls, p.connected⟩
        else if target = p.chain then ⟨p.chain, p.calls ++ notifyTip genesis nTxIdx p, p.connected⟩
        else
          let more := activateBestChain rest (nTxIdx + p.txChanged.length) p.chain
          ⟨more.chain, p.calls ++ notifyTip genesis nTxIdx p ++ more.calls,
            p.connected ++ more.connected⟩

/-- One activation after the other, as blocks arrive. -/
def activations : List (List Round) → BlockChain → Activation
  | [], c => ⟨c, [], []⟩
  | rounds :: rest, c =>
    let first := activateBestChain genesis rounds 0 c
    let more := activations rest first.chain
    ⟨more.chain, first.calls ++ more.calls, first.connected ++ more.connected⟩

end

/-! ### What the token layer should see -/

/-- Is the call made by `ConnectTip` or `ActivateBestChain`? -/
def Call.isHook : Call → Bool
  | .discBegin _ _ => false
  | .discEnd _ _ => false
  | _ => true

/-- The calls of `ConnectTip` and `ActivateBestChain`. -/
def hookCalls (calls : List Call) : List Call := calls.filter Call.isHook

/-- The calls `msc_initial_scan` makes for one block. -/
def scanBlock (e : Nat × BlockIndex) : List Call :=
  .blockBegin e.1 e.2 :: (e.2.vtx.mapIdx fun i t => Call.tx t e.1 i e.2) ++ [.blockEnd e.1 e.2]

/-- The calls `msc_initial_scan` makes for a list of blocks. -/
def mscInitialScan (blocks : List (Nat × BlockIndex)) : List Call := blocks.flatMap scanBlock

end Rapids.Chain
