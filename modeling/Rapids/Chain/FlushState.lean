import Rapids.Chain.VerifyDB

/-!
# Rapids.Chain.FlushState

**Writing the chain state to disk** (`FlushStateToDisk`, `main.cpp`) and starting from
what was written.

A call writes the block index and the money supply, and, on a **full flush** only, the
coins with their best block; each is a write of its own. After a crash the node starts
at the best block of the coins, takes the money supply as it was written, and connects
the blocks above again. So the two must have been written at chains of the same supply.

The coins in memory are those that the cache stands for, which a flush of the cache
leaves as they are. Neither the zerocoin supply nor the block files are read here, so
their writes are left out.
-/

namespace Rapids.Chain

open Rapids.Lib

/-! ### A call -/

/-- `FlushStateMode` -/
inductive FlushStateMode
  | ifNeeded
  | periodic
  | always
  deriving DecidableEq

/-- A call, with what it finds outside the chain state. -/
structure FlushCall where
  mode : FlushStateMode
  /-- `GetTimeMicros` -/
  nNow : Int
  /-- `pcoinsTip->DynamicMemoryUsage` -/
  coinsUsage : Int
  /-- `nCoinCacheUsage` -/
  nCoinCacheUsage : Int
  nMempoolUsage : Int
  nMempoolSizeMax : Int
  /-- `CheckDiskSpace` before the first write. -/
  diskSpace : Bool
  /-- `CheckDiskSpace` before the coins are written. -/
  diskSpaceCoins : Bool

/-- `DATABASE_WRITE_INTERVAL`, in microseconds -/
def databaseWriteInterval : Int := 60 * 60 * 1000000

/-- `DATABASE_FLUSH_INTERVAL`, in microseconds -/
def databaseFlushInterval : Int := 24 * 60 * 60 * 1000000

/-- `DB_PEAK_USAGE_FACTOR` -/
def dbPeakUsageFactor : Int := 2

/-- `MAX_BLOCK_COINSDB_USAGE` -/
def maxBlockCoinsDBUsage : Int := 10 * dbPeakUsageFactor

/-- The writes that are read again. -/
inductive DatabaseWrite
  | blockIndex
  | moneySupply
  | coins
  deriving DecidableEq

namespace FlushCall

variable (F : FlushCall)

def cacheSize : Int := F.coinsUsage * dbPeakUsageFactor

def nTotalSpace : Int := F.nCoinCacheUsage + max (F.nMempoolSizeMax - F.nMempoolUsage) 0

def fCacheLarge : Bool :=
  F.mode = .periodic &&
    max ((9 * F.nTotalSpace).tdiv 10) (F.nTotalSpace - maxBlockCoinsDBUsage * 1024 * 1024) < F.cacheSize

/-- The size is compared as an unsigned 32-bit number. -/
def fCacheCritical : Bool := F.mode = .ifNeeded && F.nCoinCacheUsage < F.cacheSize % 4294967296

def fPeriodicWrite (nLastWrite : Int) : Bool :=
  F.mode = .periodic && nLastWrite + databaseWriteInterval < F.nNow

def fPeriodicFlush (nLastFlush : Int) : Bool :=
  F.mode = .periodic && nLastFlush + databaseFlushInterval < F.nNow

def fDoFullFlush (nLastFlush : Int) : Bool :=
  F.mode = .always || F.fCacheLarge || F.fCacheCritical || F.fPeriodicFlush nLastFlush

/-- What a call writes, in this order. Too little disk space ends it early. -/
def writes (nLastWrite nLastFlush : Int) : List DatabaseWrite :=
  if (F.fDoFullFlush nLastFlush || F.fPeriodicWrite nLastWrite) && F.diskSpace then
    [.blockIndex, .moneySupply] ++
      if F.fDoFullFlush nLastFlush && F.diskSpaceCoins then [.coins] else []
  else []

end FlushCall

/-! ### The node -/

/-- What is on disk. An index entry is given by the chain that ends there. -/
structure Databases where
  blockIndex : List CBlock → Bool
  /-- `DB_MONEY_SUPPLY` -/
  moneySupply : Option Int
  /-- The coins and their best block. -/
  coins : Option (List CBlock × Coins)
  /-- The chain whose supply was written. Nothing reads it: it is kept to speak about. -/
  suppliedAt : List CBlock

/-- The node while it runs: the active chain above the genesis block, the tip in memory,
the times of the last writes, and the disk. -/
structure FlushNode where
  chain : List CBlock
  tip : ChainTip
  nLastWrite : Int
  nLastFlush : Int
  disk : Databases

/-- What happens to a node. A crash comes before the first write of a call, between two,
or after the last. -/
inductive FlushEvent
  | connect (N : NodeState) (b : CBlock)
  | flush (F : FlushCall)
  /-- The node stops after `k` writes of a call and starts again. Where no supply was
  written, it is `legacy`. -/
  | crash (F : FlushCall) (k : Nat) (legacy : List CBlock → Int) (now : Int)

namespace FlushNode

variable (P : ChainParams)

/-- After the first start: the genesis block is indexed and connected, and its coins are
not written. -/
def start (now : Int) : FlushNode where
  chain := []
  tip := ⟨∅, P.hashGenesisBlock, 0⟩
  nLastWrite := now
  nLastFlush := now
  disk := ⟨fun e => e = [], some 0, none, []⟩

/-- One write. -/
def write (n : FlushNode) (d : Databases) : DatabaseWrite → Databases
  | .blockIndex => { d with blockIndex := fun e => decide (e <:+ n.chain) || d.blockIndex e }
  | .moneySupply => { d with moneySupply := some n.tip.nMoneySupply, suppliedAt := n.chain }
  | .coins => { d with coins := some (n.chain, n.tip.coins) }

/-- The first call after a start counts as a write. -/
def lastTime (nLast nNow : Int) : Int := if nLast = 0 then nNow else nLast

variable (n : FlushNode)

/-- The writes of a call. -/
def writesOf (F : FlushCall) : List DatabaseWrite :=
  F.writes (lastTime n.nLastWrite F.nNow) (lastTime n.nLastFlush F.nNow)

/-- The disk after `k` writes of a call. -/
def interrupted (F : FlushCall) (k : Nat) : Databases :=
  ((n.writesOf F).take k).foldl n.write n.disk

/-- `FlushStateToDisk` -/
def flushStateToDisk (F : FlushCall) : FlushNode :=
  { n with
    nLastWrite := if .moneySupply ∈ n.writesOf F then F.nNow else lastTime n.nLastWrite F.nNow
    nLastFlush := if .coins ∈ n.writesOf F then F.nNow else lastTime n.nLastFlush F.nNow
    disk := (n.writesOf F).foldl n.write n.disk }

/-- Starting from a disk: at the best block of the coins, or from the genesis block. No
node starts whose best block is not in its index. -/
def restart (legacy : List CBlock → Int) (now : Int) (d : Databases) : Option FlushNode :=
  match d.coins with
  | none => some { start P now with
      disk := { (start P now).disk with blockIndex := fun e => e = [] || d.blockIndex e } }
  | some (chain, coins) =>
    if d.blockIndex chain then
      some ⟨chain, ⟨coins, tipHash P chain, d.moneySupply.getD (legacy chain)⟩, 0, 0, d⟩
    else none

/-- A step; a block that is refused is none. -/
def step : FlushEvent → Option FlushNode
  | .connect N b =>
    if b.hash = P.hashGenesisBlock then none
    else
      (connectBlock P N (n.chain.length + 1) (tipHash P n.chain) b n.tip).map fun r =>
        { n with chain := b :: n.chain, tip := r.2 }
  | .flush F => some (n.flushStateToDisk F)
  | .crash F k legacy now => restart P legacy now (n.interrupted F k)

end FlushNode

/-! ### The supply of a chain -/

/-- The tip of a node that connects the blocks of a chain and never stops. -/
def connectChain (P : ChainParams) : List CBlock → Option ChainTip
  | [] => some ⟨∅, P.hashGenesisBlock, 0⟩
  | b :: rest =>
    (connectChain P rest).bind fun s =>
      if b.hash = P.hashGenesisBlock then none
      else (connectCore P (rest.length + 1) (tipHash P rest) b s).map Prod.snd

/-- What a block adds to the supply of the chain it extends. -/
def blockMint (P : ChainParams) (b : CBlock) (rest : List CBlock) : Int :=
  ((connectChain P rest).bind fun s => connectTxs P (rest.length + 1) b.vtx ⟨s.coins, 0, 0, 0⟩).elim 0
    fun r => r.2.nValueOut - r.2.nValueIn

/-- What the blocks of a chain add to the supply. -/
def chainMint (P : ChainParams) : List CBlock → Int
  | [] => 0
  | b :: rest => blockMint P b rest + chainMint P rest

/-- **The disk is settled**: no coins were written, or the chain at which the supply was
last written has blocks that add as much as those of the coins' chain. -/
def Databases.settled (P : ChainParams) (d : Databases) : Bool :=
  d.coins.all fun c => toI64 (chainMint P d.suppliedAt - chainMint P c.1) = 0

/-- A crash leaves a settled disk. -/
def FlushNode.crashesSettled (P : ChainParams) (n : FlushNode) : FlushEvent → Bool
  | .crash F k _ _ => (n.interrupted F k).settled P
  | _ => true

end Rapids.Chain
