import Rapids.Chain.FlushStateSound

/-!
# Rapids.Chain.StakeInputs

**The inputs of a coinstake when its block is stored** (`AcceptBlock`, `main.cpp`, and
`CPivStake::InitFromTxIn`, `stakeinput.cpp`).

An index entry is given by its blocks, so a node has every block tree at once: its active
chain with the coins of its tip, and which entries it knows, holds the block of, or has
marked. A coin is **unspent at an entry** if the blocks of that branch, replayed without
any check, create it and do not spend it again; the coins of the active tip are of this
kind (`unspentAt_of_haveCoin`).

For a block on the tip the inputs are looked up in the coins. For a block on a fork the
blocks back to the split are searched for spends of them, and that is all: what remains
open is what `founded` says of the coins at the split and of those that the fork created.
-/

namespace Rapids.Chain

open Rapids.Lib

/-! ### Coins of a branch -/

/-- The outpoint is a spendable output of the transaction. -/
def Transaction.creates (tx : Transaction) (o : OutPoint) : Bool :=
  tx.hash = o.hash && (tx.vout[o.n]?).any fun out => !isUnspendable out.scriptPubKey

/-- The outpoint is an input of the transaction. -/
def Transaction.hasInput (tx : Transaction) (o : OutPoint) : Bool := tx.vin.any fun i => i.prevout = o

/-- Is the coin unspent after the transactions, given whether it was before them? -/
def unspentAfter (o : OutPoint) (txs : List Transaction) (unspent : Bool) : Bool :=
  txs.foldl (fun v tx => tx.creates o || (v && (tx.isCoinBase || !tx.hasInput o))) unspent

/-- **The coin exists and is unspent** at an index entry, on its own branch. -/
def unspentAt : List CBlock → OutPoint → Bool
  | [], _ => false
  | b :: rest, o => unspentAfter o b.vtx (unspentAt rest o)

/-! ### The node -/

/-- The active chain with the coins of its tip, and the index. -/
structure StakeNode (P : ChainParams) where
  chain : List CBlock
  tip : ChainTip
  connected : connectChain P chain = some tip
  /-- `mapBlockIndex` -/
  known : List CBlock → Bool
  /-- `BLOCK_HAVE_DATA` -/
  haveData : List CBlock → Bool
  /-- `BLOCK_FAILED_MASK` -/
  failed : List CBlock → Bool

/-- What a call meets besides. An index entry is given by the chain that ends there. -/
structure AcceptWorld where
  node : NodeState
  /-- `CheckWork` -/
  work : List CBlock → Bool
  /-- `GetTransaction`, with the block where the transaction was found, if any. -/
  getTransaction : Nat → Option (Transaction × Option (List CBlock))
  /-- `ContextCheck`, `CheckKernelHash` and the signature of the first input, for the
  output that is staked. -/
  kernel : CBlock → TxOut → Bool
  /-- `ContextualCheckBlockHeader` -/
  header : List CBlock → Bool
  /-- The rest of `CheckBlock`, and `ContextualCheckBlock`. -/
  contents : List CBlock → Bool
  /-- A block that fails these may be corrupted. -/
  corruption : List CBlock → Bool
  /-- `ReadBlockFromDisk` -/
  readable : List CBlock → Bool
  /-- `-maxreorg` -/
  maxReorg : Int
  /-- There is space, and the file can be written. -/
  disk : Bool

namespace StakeNode

variable {P : ChainParams} (n : StakeNode P) (A : AcceptWorld)

/-- `chainActive.Contains` -/
def contains (entry : List CBlock) : Bool := entry <:+ n.chain

variable (parent : List CBlock) (b : CBlock)

/-- `CheckProofOfStake`, with `InitFromTxIn` for the first input: its transaction must be
found, in a block of the active chain. -/
def checkProofOfStake : Bool :=
  ((b.vtx[1]?).bind fun tx => tx.vin[0]?).any fun i =>
    !i.isZerocoinSpend && (A.getTransaction i.prevout.hash).any fun r =>
      r.2.any n.contains && (r.1.vout[i.prevout.n]?).any (A.kernel b)

/-- The inputs of the coinstake. -/
def stakeInputs : List TxIn := ((b.vtx[1]?).map Transaction.vin).getD []

/-- An input of the coinstake is also one of another transaction of the block. -/
def spentInBlock : Bool :=
  b.vtx.any fun tx => !tx.isCoinStake && (stakeInputs b).any fun i => tx.hasInput i.prevout

/-- A transaction of the block spends one of the inputs. -/
def spendsAny (ins : List TxIn) (b : CBlock) : Bool :=
  b.vtx.any fun tx => ins.any fun i => tx.hasInput i.prevout

/-- The way back from the block before to the active chain: is no input spent on it? The
number of blocks read so far is counted. -/
def forkWalk (ins : List TxIn) : Nat → List CBlock → Bool
  | _, [] => true
  | readBlock, b :: rest =>
    if n.contains (b :: rest) then true
    else if ((readBlock + 1 : Nat) : Int) = A.maxReorg then false
    else if spendsAny ins b then false
    else if !A.readable rest then false
    else forkWalk ins (readBlock + 1) rest

/-- The checks of the coinstake's inputs for a block on an entry. Zerocoin spends do not
come here: `CheckBlock` refuses them. -/
def checkStakeInputs : Bool :=
  let isBlockFromFork := n.chain ≠ parent
  !spentInBlock b &&
    (!isBlockFromFork || (A.readable parent && n.forkWalk A (stakeInputs b) 0 parent)) &&
    (stakeInputs b).all fun i =>
      !((n.tip.coins.accessCoin i.prevout).isSpent && !isBlockFromFork)

/-- The index with an entry. -/
def addEntry (entry : List CBlock) : StakeNode P :=
  { n with known := fun e => e = entry || n.known e }

/-- The end of `AcceptBlock`, for an entry that the header led to: is the block stored, and
the node. -/
def acceptContents : Bool × StakeNode P :=
  let entry := b :: parent
  if n.haveData entry then (false, n)
  else if !(checkBlock P A.node (parent.length + 1) b && A.contents entry) then
    (false, if A.corruption entry then n else { n with failed := fun e => e = entry || n.failed e })
  else if b.isProofOfStake && !n.checkStakeInputs A parent b then (false, n)
  else if !A.disk then (false, n)
  else (true, { n with haveData := fun e => e = entry || n.haveData e })

/-- `AcceptBlock` -/
def acceptBlock : Bool × StakeNode P :=
  let entry := b :: parent
  if !n.known parent || n.failed parent then (false, n)
  else if !A.work entry then (false, n)
  else if b.isProofOfStake && !n.checkProofOfStake A b then (false, n)
  else if n.known entry then if n.failed entry then (false, n) else n.acceptContents A parent b
  else if !A.header entry then (false, n)
  else (n.addEntry entry).acceptContents A parent b

end StakeNode

/-! ### What is asked of a stored block -/

/-- **The stake of a block is unspent** at the block before it. -/
def StakeUnspent (parent : List CBlock) (b : CBlock) : Prop :=
  ∀ i ∈ StakeNode.stakeInputs b, unspentAt parent i.prevout = true

/-- The coin was unspent at the split from a chain, or is created by a block above it. -/
def foundedAt (chain : List CBlock) : List CBlock → OutPoint → Bool
  | [], _ => false
  | b :: rest, o =>
    if b :: rest <:+ chain then unspentAt (b :: rest) o
    else b.vtx.any (fun tx => tx.creates o) || foundedAt chain rest o

/-- **The stake of a block is founded**: the block is on the tip, or its inputs were unspent
at the split or are created by the fork. -/
def StakeNode.founded {P : ChainParams} (n : StakeNode P) (parent : List CBlock) (b : CBlock) : Bool :=
  n.chain = parent || (StakeNode.stakeInputs b).all fun i => foundedAt n.chain parent i.prevout

end Rapids.Chain
