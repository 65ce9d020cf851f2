import Rapids.Chain.Activation
import Rapids.Lib.Run

/-!
# Rapids.Masternode.ChainView

**The masternode manager's view of the chain** (`masternodeman.cpp`,
`cyclingvector.h`, `main.cpp`): its own best height, and the hashes of the last
`CACHED_BLOCK_HASHES` blocks in a ring.

The ring is written by `ConnectTip` and `DisconnectTip`, each beside its call into
the token layer, so its contents are read off the calls that an activation makes.
The best height is written by `ProcessNewBlock`, once, behind the activation.

A call of `ProcessNewBlock` comes with what the checks in front of the activation
say, and with the rounds that its activation takes. `AcceptBlock` activates too, for
a failed parent that is a checkpoint. A call that is interrupted does not return.
-/

namespace Rapids.Masternode

open Rapids.Lib Rapids.Chain

/-! ### The ring of hashes -/

/-- `CACHED_BLOCK_HASHES` -/
def cachedBlockHashes : Nat := 200

/-- `CyclingVector`, with `CACHED_BLOCK_HASHES` places. -/
abbrev HashCache := Nat → Nat

/-- `CyclingVector::Get` -/
def HashCache.get (v : HashCache) (idx : Nat) : Nat := v (idx % cachedBlockHashes)

/-- `CyclingVector::Set` -/
def HashCache.set (v : HashCache) (idx value : Nat) : HashCache :=
  Function.update v (idx % cachedBlockHashes) value

/-- No hash is cached. -/
def HashCache.empty : HashCache := fun _ => 0

section
variable (genesis : BlockIndex)

variable (c : BlockChain)

/-- `chainActive[nHeight]` -/
def chainAt (nHeight : Nat) : Option BlockIndex := (genesis :: c)[nHeight]?

/-- What the hooks of a tip change keep: the active chain and the ring. -/
structure Watch where
  chain : BlockChain
  cvLastBlockHashes : HashCache

/-- The hash that `DisconnectTip` puts in the place of the tip's: that of the block
`CACHED_BLOCK_HASHES` below (`CacheBlockHash`), or none (`UncacheBlockHash`). -/
def replacementHash (nHeight : Nat) : Nat :=
  if cachedBlockHashes ≤ nHeight then
    ((chainAt genesis c (nHeight - cachedBlockHashes)).map BlockIndex.hash).getD 0
  else 0

/-- The ring where a tip is disconnected or connected. -/
def Watch.hear (w : Watch) : Call → Watch
  | .discBegin nHeight _ =>
    ⟨w.chain.dropLast, w.cvLastBlockHashes.set nHeight (replacementHash genesis w.chain nHeight)⟩
  | .blockBegin nHeight b => ⟨w.chain ++ [b], w.cvLastBlockHashes.set nHeight b.hash⟩
  | _ => w

/-- `LoadBlockHashesCache`: from the tip down, at most as many as there are places. -/
def loadBlockHashesCache : HashCache :=
  (List.range (min (c.height + 1) cachedBlockHashes)).foldl
    (fun v i => v.set (c.height - i) (((chainAt genesis c (c.height - i)).map BlockIndex.hash).getD 0))
    .empty

/-! ### The node -/

/-- The active chain and the manager's view of it. -/
structure ManNode where
  chain : BlockChain
  cvLastBlockHashes : HashCache
  nBestHeight : Nat

/-- A node as `init.cpp` sets it up. -/
def started : ManNode := ⟨c, loadBlockHashesCache genesis c, c.height⟩

/-- `GetHashAtHeight`; `none` where it reads above the tip. -/
def ManNode.getHashAtHeight (n : ManNode) (nHeight : Int) : Option Nat :=
  if nHeight < 0 then some 0
  else if (n.nBestHeight : Int) < nHeight then some 0
  else if (n.nBestHeight : Int) - cachedBlockHashes < nHeight then
    some (n.cvLastBlockHashes.get nHeight.toNat)
  else (chainAt genesis n.chain nHeight.toNat).map BlockIndex.hash

/-- An activation, with what the manager hears of it. -/
def ManNode.activate (n : ManNode) (rounds : List Round) : ManNode :=
  let a := activateBestChain genesis rounds 0 n.chain
  let w := a.calls.foldl (Watch.hear genesis) ⟨n.chain, n.cvLastBlockHashes⟩
  { n with chain := a.chain, cvLastBlockHashes := w.cvLastBlockHashes }

end

/-- What `ActivateBestChain` returns; `none` unless it takes just these rounds. Only
behind a round that connected its target does it flush. -/
def activationReturns (flushed : Bool) : List Round → BlockChain → Option Bool
  | [], _ => none
  | r :: rest, c =>
    match r.mostWork with
    | none => if rest = [] then some true else none
    | some target =>
      if target = c then if rest = [] then some true else none
      else if (activateBestChainStep r c target).1 = false then
        if rest = [] then some false else none
      else if target = (activateBestChainStep r c target).2.chain then
        if rest = [] then some flushed else none
      else activationReturns flushed rest (activateBestChainStep r c target).2.chain

/-- A call of `ProcessNewBlock`. -/
structure NewBlock where
  /-- Signature, parent, `CheckBlock` and `AcceptBlock`. -/
  accepted : Bool
  /-- The rounds that `AcceptBlock` takes, for a failed parent that is a checkpoint. -/
  reconsidered : List Round
  rounds : List Round
  /-- The last `FlushStateToDisk` of `ActivateBestChain`. -/
  flushed : Bool

/-- `ProcessNewBlock`. The new height is computed in front of everything. -/
def processNewBlock (genesis : BlockIndex) (fLiteMode : Bool) (n : ManNode) (k : NewBlock) : Option ManNode :=
  let newHeight := n.chain.height + 1
  if k.accepted then
    let n₁ := n.activate genesis k.reconsidered
    (activationReturns k.flushed k.rounds n₁.chain).map fun ok =>
      let n₂ := n₁.activate genesis k.rounds
      if ok && !fLiteMode then { n₂ with nBestHeight := newHeight } else n₂
  else some n

end Rapids.Masternode
