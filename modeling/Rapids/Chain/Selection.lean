import Mathlib.Data.List.MinMax
import Mathlib.Data.Prod.Lex
import Mathlib.Logic.Embedding.Basic
import Rapids.Chain.Activation

/-!
# Rapids.Chain.Selection

**Selecting the active chain** (`main.cpp`): the block index, the candidates for
a new tip, and the functions that fill, prune and walk the set of candidates.

A header names its parent by hash, so a header fixes all of its ancestors. An index
entry is therefore named by its **lineage**, the hashes from the block down to, and
without, the genesis block: the genesis block is `[]`, the parent of `h :: p` is `p`,
the height is the length and the ancestors are the tails. `chainActive` holds the
ancestors of its tip, which is all that is kept of it.

What other modules decide is input here. Whether `ConnectBlock` finds a block valid
is fixed for a tree of blocks (`BlockTree`); what the checks of `AcceptBlock` say
comes with the block (`Delivery`); and each call may meet disk and database errors
(`Faults`). A loop without a bound of its own takes fuel, and a function that runs
out of fuel or violates an assertion has no result.

Not modelled: the memory pool, the notifications, `pindexBestInvalid` and
`pindexBestHeader`, which serve warnings and downloads, and the locks.
-/

namespace Rapids.Chain

/-! ### Blocks -/

/-- An index entry, by the hashes from its block down to the genesis block. -/
abbrev Lineage := List Nat

/-- What is fixed about the blocks there can be. -/
structure BlockTree where
  /-- Where the index entry of a block is allocated; entries are never freed. -/
  address : Lineage ↪ Nat
  /-- `GetBlockProof` -/
  proof : Lineage → Nat
  /-- Does `ConnectBlock` find the block valid? -/
  connects : Lineage → Bool
  /-- Is the block a checkpoint (`Checkpoints::CheckBlock` with an exact match)? -/
  checkpoint : Lineage → Bool

/-- `BLOCK_VALID_TREE` -/
def blockValidTree : Nat := 2

/-- `BLOCK_VALID_TRANSACTIONS` -/
def blockValidTransactions : Nat := 3

/-- `BLOCK_VALID_SCRIPTS` -/
def blockValidScripts : Nat := 5

/-- The fields of `CBlockIndex` that selection reads. `nStatus` is split into the
level of validity, `BLOCK_HAVE_DATA` and the two marks of failure. -/
structure IndexEntry where
  nChainWork : Nat
  nTx : Nat
  nChainTx : Nat
  nSequenceId : Nat
  validity : Nat
  haveData : Bool
  failedValid : Bool
  failedChild : Bool
  deriving DecidableEq

/-- `nStatus & BLOCK_FAILED_MASK` -/
def IndexEntry.failed (e : IndexEntry) : Bool := e.failedValid || e.failedChild

/-- `IsValid` -/
def IndexEntry.isValid (e : IndexEntry) (nUpTo : Nat) : Bool := !e.failed && decide (nUpTo ≤ e.validity)

/-- `RaiseValidity` -/
def IndexEntry.raiseValidity (e : IndexEntry) (nUpTo : Nat) : IndexEntry :=
  if e.failed then e else if e.validity < nUpTo then { e with validity := nUpTo } else e

/-- Take the marks of failure from an entry. -/
def IndexEntry.unfail (e : IndexEntry) : IndexEntry := { e with failedValid := false, failedChild := false }

/-- No entry: nothing is known of the block. -/
def IndexEntry.blank : IndexEntry := ⟨0, 0, 0, 0, 0, false, false, false⟩

/-- The state of selection. -/
structure Selection where
  /-- The entries of `mapBlockIndex`. -/
  nodes : List Lineage
  entry : Lineage → IndexEntry
  /-- `setBlockIndexCandidates` -/
  candidates : List Lineage
  /-- `mapBlocksUnlinked` -/
  unlinked : List (Lineage × Lineage)
  nBlockSequenceId : Nat
  /-- `chainActive.Tip()` -/
  tip : Lineage

namespace Selection

variable (T : BlockTree) (f : Faults) (s : Selection) (b e : Lineage)

/-- Change an entry. -/
def modify (f : IndexEntry → IndexEntry) : Selection :=
  { s with entry := Function.update s.entry e (f (s.entry e)) }

/-- `setBlockIndexCandidates.insert` -/
def insertCandidate : Selection :=
  { s with candidates := s.candidates.insert e }

/-- `setBlockIndexCandidates.erase` -/
def eraseCandidate : Selection :=
  { s with candidates := s.candidates.filter (· ≠ e) }

/-- `chainActive.Contains` -/
def contains : Bool := decide (e <:+ s.tip)

/-- `CBlockIndexWorkComparator` -/
def workComparator (T : BlockTree) (s : Selection) (pa pb : Lineage) : Bool :=
  -- First sort by most total work, ...
  if (s.entry pa).nChainWork > (s.entry pb).nChainWork then false
  else if (s.entry pa).nChainWork < (s.entry pb).nChainWork then true
  -- ... then by earliest time received, ...
  else if (s.entry pa).nSequenceId < (s.entry pb).nSequenceId then false
  else if (s.entry pa).nSequenceId > (s.entry pb).nSequenceId then true
  -- ... and by address.
  else if T.address pa < T.address pb then false
  else if T.address pa > T.address pb then true
  else false

/-- The order that `workComparator` decides, by what it sorts by. -/
def sortKey : Nat ×ₗ Natᵒᵈ ×ₗ Natᵒᵈ :=
  toLex ((s.entry e).nChainWork, toLex (OrderDual.toDual (s.entry e).nSequenceId,
    OrderDual.toDual (T.address e)))

/-- `setBlockIndexCandidates.rbegin()`: the last candidate in that order. -/
def bestCandidate : Option Lineage :=
  s.candidates.argmax (sortKey T s)

/-! ### Blocks arrive -/

/-- The loop of `ReceivedBlockTransactions` over its queue. A block is put in the
queue when it leaves `mapBlocksUnlinked`, so the fuel given below is enough. -/
def linkQueue (T : BlockTree) : Nat → List Lineage → Selection → Selection
  | 0, _, s => s
  | _ + 1, [], s => s
  | n + 1, q :: queue, s =>
    let parentTx := match q with
      | [] => 0
      | _ :: p => (s.entry p).nChainTx
    let s₁ := s.modify q fun e =>
      { e with nChainTx := (parentTx + e.nTx) % 2 ^ 32, nSequenceId := s.nBlockSequenceId }
    let s₂ := if workComparator T s₁ q s₁.tip then s₁ else s₁.insertCandidate q
    linkQueue T n (queue ++ (s.unlinked.filter (·.1 = q)).map Prod.snd)
      { s₂ with
        unlinked := s.unlinked.filter (·.1 ≠ q)
        nBlockSequenceId := (s.nBlockSequenceId + 1) % 2 ^ 32 }

/-- What `ReceivedBlockTransactions` records of the block itself. -/
def recordData (nTx : Nat) : Selection :=
  s.modify b fun e =>
    { e with nTx := nTx, nChainTx := 0, haveData := true }.raiseValidity blockValidTransactions

/-- `ReceivedBlockTransactions` -/
def receivedBlockTransactions (nTx : Nat) : Selection :=
  let s₁ := s.recordData b nTx
  if b = [] ∨ (s₁.entry b.tail).nChainTx ≠ 0 then linkQueue T (1 + s₁.unlinked.length) [b] s₁
  else if (s₁.entry b.tail).isValid blockValidTree then
    { s₁ with unlinked := s₁.unlinked ++ [(b.tail, b)] }
  else s₁

/-- `AddToBlockIndex`, for a block that is not in the index. -/
def addToBlockIndex : Selection :=
  let parentWork := match b with
    | [] => 0
    | _ :: p => (s.entry p).nChainWork
  { s with
    nodes := b :: s.nodes
    entry := Function.update s.entry b
      { IndexEntry.blank with
        nChainWork := (parentWork + T.proof b) % 2 ^ 256
        validity := blockValidTree } }

/-- What `CheckBlock` and `ContextualCheckBlock` say: the block is refused for good,
or refused in a way that leaves no mark (it may have been corrupted on the way). -/
inductive Contents
  | valid
  | invalid
  | corrupt
  deriving DecidableEq

/-- A block given to `AcceptBlock`, with what the checks say about it. -/
structure Delivery where
  block : Lineage
  /-- `vtx.size()` -/
  nTx : Nat
  /-- `CheckWork` and `CheckProofOfStake` -/
  workValid : Bool
  /-- `CheckBlockHeader` and `ContextualCheckBlockHeader` -/
  headerValid : Bool
  contents : Contents
  /-- The checks on the inputs of the coinstake. -/
  stakeValid : Bool
  /-- `FindBlockPos` and `WriteBlockToDisk` -/
  written : Bool

/-- `AcceptBlockHeader` -/
def acceptBlockHeader (d : Delivery) : Bool × Selection :=
  if d.block ∈ s.nodes then (!(s.entry d.block).failed, s)
  else if !d.headerValid then (false, s)
  else if d.block ≠ [] ∧ (d.block.tail ∉ s.nodes ∨ (s.entry d.block.tail).failed) then (false, s)
  else (true, addToBlockIndex T s d.block)

/-- The part of `AcceptBlock` behind the look at the previous block. -/
def acceptBlockData (d : Delivery) : Bool × Selection :=
  if d.block ≠ [] ∧ !d.workValid then (false, s)
  else
    match acceptBlockHeader T s d with
    | (false, s) => (false, s)
    | (true, s) =>
      if (s.entry d.block).haveData then (true, s)
      else
        match d.contents with
        | .invalid => (false, s.modify d.block fun e => { e with failedValid := true })
        | .corrupt => (false, s)
        | .valid =>
          if !d.stakeValid || !d.written then (false, s)
          else (true, receivedBlockTransactions T s d.block d.nTx)

/-! ### The chain with the most work -/

/-- The blocks of a branch above the active chain, the last one first. -/
def offActive : List Lineage := e.tails.takeWhile fun a => !s.contains a

/-- Is the block failed, or its data missing? -/
def unusable (s : Selection) (a : Lineage) : Bool := (s.entry a).failed || !(s.entry a).haveData

/-- Remove the chain from its end down to an unusable block from the candidates. -/
def removeChain (path : List Lineage) (pindexTest : Lineage) : Selection :=
  let above := path.takeWhile (· ≠ pindexTest)
  let s₁ : Selection :=
    if (s.entry pindexTest).failed then
      { s with entry := fun a => if a ∈ above then { s.entry a with failedChild := true } else s.entry a }
    else { s with unlinked := s.unlinked ++ above.map fun a => (a.tail, a) }
  { s₁ with candidates := s₁.candidates.filter fun a => !(a ∈ above || a = pindexTest) }

/-- The loop of `FindMostWorkChain`. -/
def findMostWork (T : BlockTree) : Nat → Selection → Option (Option Lineage × Selection)
  | 0, _ => none
  | n + 1, s =>
    match bestCandidate T s with
    | none => some (none, s)
    | some pindexNew =>
      let path := s.offActive pindexNew
      -- The assertion is about the blocks that are looked at.
      if (path.take (path.findIdx s.unusable + 1)).all fun a => (s.entry a).nChainTx ≠ 0 || a = [] then
        match path.find? s.unusable with
        | none => some (some pindexNew, s)
        | some pindexTest => findMostWork T n (s.removeChain path pindexTest)
      else none

/-- `FindMostWorkChain`. Each turn but the last removes a candidate. -/
def findMostWorkChain : Option (Option Lineage × Selection) :=
  findMostWork T (s.candidates.length + 1) s

/-- `PruneBlockIndexCandidates`, with the assertion that a candidate is left. -/
def pruneBlockIndexCandidates : Option Selection :=
  let kept := s.candidates.filter fun e => !workComparator T s e s.tip
  if kept = [] then none else some { s with candidates := kept }

/-! ### Activation -/

/-- Disk and database errors of one call. -/
structure Faults where
  disconnect : Lineage → Bool
  connect : Lineage → Bool
  /-- The last `FlushStateToDisk` of `ActivateBestChain` fails. -/
  flush : Bool

/-- Nothing goes wrong with blocks. -/
def Faults.Absent : Prop := ∀ b, f.disconnect b = false ∧ f.connect b = false

/-- Does `DisconnectTip` succeed? There is no undo data of the genesis block. -/
def Faults.disconnects (tip : Lineage) : Bool := tip ≠ [] && !f.disconnect tip

/-- `ConnectTip`, with `InvalidBlockFound`. -/
def connectTip : ConnectResult × Selection :=
  if f.connect b then (.error, s)
  else if T.connects b then
    (.ok, { s.modify b fun e => e.raiseValidity blockValidScripts with tip := b })
  else (.invalid, (s.modify b fun e => { e with failedValid := true }).eraseCandidate b)

/-- `chainActive.FindFork` -/
def findFork (s : Selection) : Lineage → Lineage
  | [] => []
  | h :: p => if s.contains (h :: p) then h :: p else s.findFork p

/-- Disconnect down to the fork; the first argument is the tip. -/
def disconnectTo (f : Faults) (fork : Lineage) : Lineage → Selection → Bool × Selection
  | [], s => (fork = [], s)
  | h :: p, s =>
    if h :: p = fork then (true, s)
    else if f.disconnects (h :: p) then disconnectTo f fork p { s with tip := p }
    else (false, s)

/-- The loop over `vpindexToConnect`. -/
def connectBatch (T : BlockTree) (f : Faults) (oldTip : Lineage) :
    List Lineage → Selection → Option (Verdict × Selection)
  | [], s => some (.next, s)
  | b :: rest, s =>
    match connectTip T f s b with
    | (.invalid, s) => some (.stop, s)
    | (.error, s) => some (.fail, s)
    | (.ok, s) =>
      match pruneBlockIndexCandidates T s with
      | none => none
      | some s =>
        if (s.entry s.tip).nChainWork > (s.entry oldTip).nChainWork then some (.stop, s)
        else connectBatch T f oldTip rest s

/-- The loop around it, 32 blocks at a time; `n` bounds the number of batches. -/
def connectBatches (T : BlockTree) (f : Faults) (oldTip : Lineage) :
    Nat → List Lineage → Selection → Option (Verdict × Selection)
  | 0, _, s => some (.next, s)
  | n + 1, branch, s =>
    if branch = [] then some (.next, s)
    else
      match connectBatch T f oldTip (branch.take 32) s with
      | some (.next, s) => connectBatches T f oldTip n (branch.drop 32) s
      | result => result

/-- The blocks of a branch above one of its ancestors, the lowest first. -/
def branchAbove (fork e : Lineage) : List Lineage := (e.tails.take (e.length - fork.length)).reverse

/-- `ActivateBestChainStep` -/
def activateBestChainStep (pindexMostWork : Lineage) :
    Option (Bool × Selection) :=
  let fork := s.findFork pindexMostWork
  match disconnectTo f fork s.tip s with
  | (false, s') => some (false, s')
  | (true, s') =>
    let branch := branchAbove fork pindexMostWork
    (connectBatches T f s.tip branch.length branch s').map fun r => (r.1 != .fail, r.2)

/-- `ActivateBestChain`: whether it succeeds, and the state it leaves. -/
def activateBestChain (T : BlockTree) (f : Faults) : Nat → Selection → Option (Bool × Selection)
  | 0, _ => none
  | n + 1, s =>
    match findMostWorkChain T s with
    | none => none
    | some (none, s) => some (true, s)
    | some (some pindexMostWork, s) =>
      if pindexMostWork = s.tip then some (true, s)
      else
        match activateBestChainStep T f s pindexMostWork with
        | none => none
        | some (false, s) => some (false, s)
        | some (true, s) =>
          if pindexMostWork = s.tip then some (!f.flush, s) else activateBestChain T f n s

/-! ### Invalidation by hand -/

/-- Mark and disconnect the tip while the active chain contains the block; the
first argument after the block is the tip. -/
def invalidateLoop (f : Faults) (pindex : Lineage) : Lineage → Selection → Bool × Selection
  | tip, s =>
    if pindex <:+ tip then
      let s₁ := (s.modify tip fun e => { e with failedChild := true }).eraseCandidate tip
      if f.disconnects tip then
        match tip with
        | [] => (false, s₁)
        | _ :: p => invalidateLoop f pindex p { s₁ with tip := p }
      else (false, s₁)
    else (true, s)

/-- `InvalidateBlock` -/
def invalidateBlock (pindex : Lineage) : Bool × Selection :=
  let s₁ := (s.modify pindex fun e => { e with failedValid := true }).eraseCandidate pindex
  match invalidateLoop f pindex s₁.tip s₁ with
  | (false, s) => (false, s)
  | (true, s) =>
    let again := s.nodes.filter fun e =>
      (s.entry e).isValid blockValidTransactions && (s.entry e).nChainTx ≠ 0 &&
        !workComparator T s e s.tip
    (true, { s with candidates := s.candidates ++ again.filter (· ∉ s.candidates) })

/-- `ReconsiderBlock` -/
def reconsiderBlock (pindex : Lineage) : Selection :=
  -- The block and all its descendants.
  let below := s.nodes.filter fun e =>
    !(s.entry e).isValid blockValidTransactions && decide (pindex <:+ e)
  let s₁ : Selection :=
    { s with entry := fun a => if a ∈ below then (s.entry a).unfail else s.entry a }
  let again := below.filter fun e =>
    (s₁.entry e).isValid blockValidTransactions && (s₁.entry e).nChainTx ≠ 0 &&
      workComparator T s₁ s₁.tip e
  -- The ancestors lose their marks too.
  { s₁ with
    candidates := s₁.candidates ++ again.filter (· ∉ s₁.candidates)
    entry := fun a => if a <:+ pindex then (s₁.entry a).unfail else s₁.entry a }

/-! ### Calls -/

/-- `AcceptBlock` -/
def acceptBlock (fuel : Nat) (s : Selection) (d : Delivery) :
    Option (Bool × Selection) :=
  match d.block with
  | [] => some (acceptBlockData T s d)
  | _ :: pindexPrev =>
    if pindexPrev ∉ s.nodes then some (false, s)
    else if (s.entry pindexPrev).failed then
      if T.checkpoint pindexPrev then
        (activateBestChain T f fuel (reconsiderBlock T s pindexPrev)).map fun r => (true, r.2)
      else some (false, s)
    else some (acceptBlockData T s d)

/-- A call of one of the four functions. -/
inductive Request
  | accept (d : Delivery)
  | activate
  | invalidate (pindex : Lineage)
  | reconsider (pindex : Lineage)

/-- Answer a call. -/
def perform (fuel : Nat) (s : Selection) : Request → Option (Bool × Selection)
  | .accept d => acceptBlock T f fuel s d
  | .activate => activateBestChain T f fuel s
  | .invalidate pindex => some (invalidateBlock T f s pindex)
  | .reconsider pindex => some (true, reconsiderBlock T s pindex)

/-- The state `InitBlockIndex` leaves: the genesis block alone, and active. -/
def initial : Selection where
  nodes := [[]]
  entry := Function.update (fun _ => IndexEntry.blank) []
    ⟨T.proof [] % 2 ^ 256, 1, 1, 1, blockValidTransactions, true, false, false⟩
  candidates := [[]]
  unlinked := []
  nBlockSequenceId := 2
  tip := []

end Selection

end Rapids.Chain
