import Rapids.Chain.ConnectSound
import Rapids.Chain.Work
import Rapids.Lib.Run

/-!
# Rapids.Chain.BlockStore

**Storing blocks and reading them back** (`AcceptBlock`, `FindBlockPos`,
`WriteBlockToDisk`, `ReadBlockFromDisk`, `main.cpp`).

`AcceptBlock` checks a block in many ways. What is modelled of that is its
control flow, the test of the work and everything about index entries and block
files; the other checks (the kernel, the header's time, the contents of the
block, the inputs of the coinstake) are given with the block that arrives,
whatever they say. A file is what was written to it, the last write at a place
counting, so that overlapping writes would be seen.

They never overlap (`Laid`), so a read finds the block that was stored. But
reading repeats a test of the hash that storing does not make: what can be read
back are the proof-of-stake blocks and the blocks that pass `CheckProofOfWork`
(`stored_block_readable_iff`).
-/

namespace Rapids.Chain

open Rapids.Lib OrdMap

variable {s s' : BlockStore} {W : WorkParams}

/-! ### Blocks and files -/

/-- `CBlock` as it is deserialized, with its header and its size. The
signature is part of the format for proof-of-stake blocks only. -/
structure WireBlock extends CBlock where
  hashPrevBlock : Nat
  nTime : UInt32
  nBits : UInt32
  vchBlockSig : List UInt8
  /-- `GetSerializeSize` -/
  nSize : Nat
  sig_nil : toCBlock.isProofOfStake = false → vchBlockSig = []
  header_le : 80 ≤ nSize
  deriving DecidableEq

/-- `CDiskBlockPos` -/
structure CDiskBlockPos where
  nFile : Nat
  nPos : Nat
  deriving DecidableEq

/-- A record of a block file: eight bytes, then the block. -/
structure FileWrite where
  pos : CDiskBlockPos
  block : WireBlock
  deriving DecidableEq

/-- Where the record ends. -/
def FileWrite.stop (w : FileWrite) : Nat := w.pos.nPos + 8 + w.block.nSize

/-- `BLOCK_HAVE_DATA`, `BLOCK_FAILED_MASK` and the place of an index entry, with
the headers below it. -/
structure BlockEntry where
  branch : Branch
  haveData : Bool
  failed : Bool
  pos : CDiskBlockPos
  deriving DecidableEq

/-- The index and the block files. -/
structure BlockStore where
  /-- `mapBlockIndex` -/
  index : OrdMap Nat BlockEntry := ∅
  /-- `vinfoBlockFile`, the sizes. -/
  sizes : List Nat := []
  nLastBlockFile : Nat := 0
  /-- What was written, the last write first. -/
  disk : List FileWrite := []

/-! ### Reading -/

/-- The byte at a place: of which block and where in it, or of none. -/
def byteAt (nFile q : Nat) : List FileWrite → Option (WireBlock × Nat)
  | [] => none
  | w :: rest =>
    if w.pos.nFile = nFile ∧ w.pos.nPos ≤ q ∧ q < w.stop then
      if q < w.pos.nPos + 8 then none else some (w.block, q - (w.pos.nPos + 8))
    else byteAt nFile q rest

/-- Read a block's bytes. -/
def readBytes (disk : List FileWrite) (pos : CDiskBlockPos) : Option WireBlock :=
  match byteAt pos.nFile pos.nPos disk with
  | some (b, _) =>
    if (List.range b.nSize).all fun i => decide (byteAt pos.nFile (pos.nPos + i) disk = some (b, i)) then some b
    else none
  | none => none

/-- `ReadBlockFromDisk` -/
def readBlockFromDisk (W : WorkParams) (s : BlockStore) (hash : Nat) (e : BlockEntry) : Option WireBlock :=
  if e.haveData then
    match readBytes s.disk e.pos with
    | none => none
    | some b =>
      if !b.isProofOfStake && !checkProofOfWork W b.hash b.nBits then none
      else if b.hash ≠ hash then none
      else some b
  else none

/-! ### Writing -/

/-- `MAX_BLOCKFILE_SIZE` -/
def maxBlockFileSize : Nat := 0x8000000

/-- `resize`, if there are fewer. -/
def padded (sizes : List Nat) (n : Nat) : List Nat := sizes ++ List.replicate (n - sizes.length) 0

/-- The loop of `FindBlockPos`: how many files are left behind. -/
def leaveFiles (nAddSize : Nat) : List Nat → Nat
  | [] => 0
  | nSize :: rest => if maxBlockFileSize ≤ nSize + nAddSize then leaveFiles nAddSize rest + 1 else 0

/-- `FindBlockPos`; a block that fits no file would keep its loop going. -/
def findBlockPos (s : BlockStore) (nAddSize : Nat) : Option CDiskBlockPos → Option (CDiskBlockPos × BlockStore)
  | some pos =>
    let sizes := padded s.sizes (pos.nFile + 1)
    some (pos, { s with
      nLastBlockFile := pos.nFile
      sizes := sizes.set pos.nFile (max (pos.nPos + nAddSize) (sizes.getD pos.nFile 0)) })
  | none =>
    if maxBlockFileSize ≤ nAddSize then none
    else
      let sizes := padded s.sizes (s.nLastBlockFile + 1)
      let nFile := s.nLastBlockFile + leaveFiles nAddSize (sizes.drop s.nLastBlockFile)
      let sizes := padded sizes (nFile + 1)
      let nPos := sizes.getD nFile 0
      some (⟨nFile, nPos⟩,
        { s with nLastBlockFile := nFile, sizes := sizes.set nFile (nPos + nAddSize) })

/-- `WriteBlockToDisk`: the place of the block behind the record's header. -/
def writeBlockToDisk (s : BlockStore) (b : WireBlock) (pos : CDiskBlockPos) : CDiskBlockPos × BlockStore :=
  (⟨pos.nFile, pos.nPos + 8⟩, { s with disk := ⟨pos, b⟩ :: s.disk })

/-- `ReceivedBlockTransactions`, as far as the entry itself goes. -/
def receivedBlockTransactions (s : BlockStore) (b : WireBlock) (e : BlockEntry) (pos : CDiskBlockPos) :
    BlockStore :=
  { s with index := s.index.insert b.hash { e with haveData := true, pos := pos } }

/-! ### Accepting -/

/-- What `CheckBlock` and `ContextualCheckBlock` say. -/
inductive CheckOutcome
  | ok
  | invalid
  | corrupt
  deriving DecidableEq

/-- A block that arrives, and what the checks that are not modelled say. -/
structure Arrival where
  block : WireBlock
  /-- Where the block was found, when block files are imported. -/
  dbp : Option CDiskBlockPos := none
  /-- `CheckProofOfStake` -/
  proofOfStake : Bool := true
  /-- `ContextualCheckBlockHeader` -/
  header : Bool := true
  contents : CheckOutcome := .ok
  /-- The inputs of the coinstake are not spent twice. -/
  stakeInputs : Bool := true
  /-- There is space, and the file can be opened. -/
  disk : Bool := true

/-- The branch of the previous block, none below the genesis block. -/
def prevBranch (W : WorkParams) (s : BlockStore) (b : WireBlock) : Option Branch :=
  if b.hash = W.hashGenesisBlock then some []
  else
    match s.index.find? b.hashPrevBlock with
    | none => none
    | some e => if e.failed then none else some e.branch

/-- `AddToBlockIndex`. From height 915001 on the stake modifier is taken from
the second transaction's first input, and `none` is a read outside the block. -/
def addToBlockIndex (s : BlockStore) (c : Branch) (b : WireBlock) : Option (BlockEntry × BlockStore) :=
  let e : BlockEntry :=
    { branch := ⟨b.hash, b.nTime, b.nBits, b.isProofOfStake⟩ :: c
      haveData := false
      failed := false
      pos := ⟨0, 0⟩ }
  if 915000 < c.length && ((b.vtx[1]?).bind fun tx => tx.vin[0]?).isNone then none
  else some (e, { s with index := s.index.insert b.hash e })

/-- `AcceptBlockHeader`: the entry, unless the block is refused. -/
def acceptBlockHeader (W : WorkParams) (s : BlockStore) (c : Branch) (a : Arrival) :
    Option (Option BlockEntry × BlockStore) :=
  match s.index.find? a.block.hash with
  | some e => some (if e.failed then none else some e, s)
  | none =>
    if a.header || a.block.hash = W.hashGenesisBlock then
      (addToBlockIndex s c a.block).map fun (e, s) => (some e, s)
    else some (none, s)

/-- Find a place, write the block unless it is imported, and mark the entry. -/
def storeBlock (s : BlockStore) (a : Arrival) (e : BlockEntry) : Option (Bool × BlockStore) :=
  match findBlockPos s (a.block.nSize + 8) a.dbp with
  | none => none
  | some (pos, s) =>
    if !a.disk then some (false, s)
    else
      match a.dbp with
      | some _ => some (true, receivedBlockTransactions s a.block e pos)
      | none =>
        let (pos, s) := writeBlockToDisk s a.block pos
        some (true, receivedBlockTransactions s a.block e pos)

/-- `AcceptBlock`: is the block stored, and the new state. A failed previous block
that is reconsidered leads to no storing either. -/
def acceptBlock (W : WorkParams) (s : BlockStore) (a : Arrival) : Option (Bool × BlockStore) :=
  let b := a.block
  match prevBranch W s b with
  | none => some (false, s)
  | some c =>
    if b.hash ≠ W.hashGenesisBlock && !checkWork W c b.nBits b.isProofOfStake then some (false, s)
    else if b.isProofOfStake && !a.proofOfStake then some (false, s)
    else
      match acceptBlockHeader W s c a with
      | none => none
      | some (none, s) => some (false, s)
      | some (some e, s) =>
        if e.haveData then some (false, s)
        else
          match a.contents with
          | .invalid => some (false, { s with index := s.index.insert b.hash { e with failed := true } })
          | .corrupt => some (false, s)
          | .ok => if b.isProofOfStake && !a.stakeInputs then some (false, s) else storeBlock s a e

/-- What happens to the store: blocks arrive, and blocks are marked invalid or
reconsidered. -/
inductive StoreEvent
  | arrive (a : Arrival)
  | mark (failed : Nat → Bool)

/-- Set the failure flags. -/
def markFailed (failed : Nat → Bool) (s : BlockStore) : BlockStore :=
  { s with index := s.index.entries.foldl (fun m e => m.insert e.1 { e.2 with failed := failed e.1 }) s.index }

def storeStep (W : WorkParams) (s : BlockStore) : StoreEvent → Option BlockStore
  | .arrive a => (acceptBlock W s a).map Prod.snd
  | .mark failed => some (markFailed failed s)

/-! ### The layout of the files -/

/-- Records lie inside their files, and later ones behind earlier ones. -/
structure Laid (s : BlockStore) : Prop where
  fits : ∀ w ∈ s.disk, w.stop ≤ s.sizes.getD w.pos.nFile 0
  apart : s.disk.Pairwise fun newer older => newer.pos.nFile = older.pos.nFile → older.stop ≤ newer.pos.nPos

theorem byteAt_of_mem {disk : List FileWrite} {w : FileWrite} {q : Nat}
    (hd : disk.Pairwise fun newer older => newer.pos.nFile = older.pos.nFile → older.stop ≤ newer.pos.nPos)
    (hw : w ∈ disk) (hq : w.pos.nPos + 8 ≤ q) (hq' : q < w.stop) :
    byteAt w.pos.nFile q disk = some (w.block, q - (w.pos.nPos + 8)) := by
  induction disk with
  | nil => cases hw
  | cons first rest ih =>
    obtain ⟨hfirst, hrest⟩ := List.pairwise_cons.mp hd
    rw [byteAt]
    rcases List.mem_cons.mp hw with rfl | hw
    · rw [if_pos ⟨rfl, by omega, hq'⟩, if_neg (by omega)]
    · rw [if_neg, ih hrest hw]
      rintro ⟨hfile, hle, -⟩
      have hbehind := hfirst w hw hfile
      omega

theorem readBytes_of_mem {w : FileWrite} (hl : Laid s) (hw : w ∈ s.disk) :
    readBytes s.disk ⟨w.pos.nFile, w.pos.nPos + 8⟩ = some w.block := by
  have hpos := w.block.header_le
  have hbyte : ∀ i, i < w.block.nSize →
      byteAt w.pos.nFile (w.pos.nPos + 8 + i) s.disk = some (w.block, i) := by
    intro i hi
    rw [byteAt_of_mem hl.apart hw (by omega) (by rw [FileWrite.stop]; omega)]
    simp
  have hall : ((List.range w.block.nSize).all fun i =>
      decide (byteAt w.pos.nFile (w.pos.nPos + 8 + i) s.disk = some (w.block, i))) = true := by
    refine List.all_eq_true.mpr fun i hi => decide_eq_true ?_
    exact hbyte i (List.mem_range.mp hi)
  have hfirst := hbyte 0 (by omega)
  rw [Nat.add_zero] at hfirst
  rw [readBytes, hfirst]
  simp [hall]

theorem getD_padded (sizes : List Nat) (n i : Nat) : (padded sizes n).getD i 0 = sizes.getD i 0 := by
  rw [padded, List.getD_eq_getElem?_getD, List.getD_eq_getElem?_getD, List.getElem?_append]
  split
  · rfl
  · rename_i hi
    rw [List.getElem?_eq_none (Nat.not_lt.mp hi), List.getElem?_replicate]
    split
    · rfl
    · rfl

theorem getD_set_padded (sizes : List Nat) (n i x : Nat) :
    ((padded sizes (n + 1)).set n x).getD i 0 = if i = n then x else sizes.getD i 0 := by
  have hlen : n < (padded sizes (n + 1)).length := by
    rw [padded, List.length_append, List.length_replicate]
    omega
  rw [List.getD_eq_getElem?_getD, List.getElem?_set]
  by_cases hi : i = n
  · rw [if_pos hi.symm, if_pos hlen, if_pos hi]
    rfl
  · rw [if_neg (Ne.symm hi), if_neg hi, ← getD_padded sizes (n + 1), List.getD_eq_getElem?_getD]

theorem findBlockPos_spec {nAddSize : Nat} {dbp : Option CDiskBlockPos} {pos : CDiskBlockPos}
    (h : findBlockPos s nAddSize dbp = some (pos, s')) :
    s'.index = s.index ∧ s'.disk = s.disk ∧ (∀ i, s.sizes.getD i 0 ≤ s'.sizes.getD i 0) ∧
      (dbp = none → s.sizes.getD pos.nFile 0 ≤ pos.nPos ∧ pos.nPos + nAddSize ≤ s'.sizes.getD pos.nFile 0) := by
  cases dbp with
  | some known =>
    cases h
    refine ⟨rfl, rfl, fun i => ?_, fun h => (nomatch h)⟩
    rw [getD_set_padded, getD_padded]
    split
    · rename_i hi
      rw [hi]
      exact Nat.le_max_right _ _
    · exact Nat.le_refl _
  | none =>
    rw [findBlockPos] at h
    split at h
    · cases h
    · cases h
      refine ⟨rfl, rfl, fun i => ?_, fun _ => ⟨?_, ?_⟩⟩
      · rw [getD_set_padded, getD_padded, getD_padded, getD_padded]
        split
        · rename_i hi
          rw [hi]
          exact Nat.le_add_right _ _
        · exact Nat.le_refl _
      · rw [getD_padded, getD_padded]
      · rw [getD_set_padded, if_pos rfl]

/-! ### What a step keeps -/

/-- Entries with data keep their place, records stay, and the layout with them. -/
structure Grows (s s' : BlockStore) : Prop where
  entries : ∀ h e, s.index.find? h = some e → e.haveData = true →
    ∃ e', s'.index.find? h = some e' ∧ e'.haveData = true ∧ e'.pos = e.pos
  disk : ∀ w ∈ s.disk, w ∈ s'.disk
  laid : Laid s → Laid s'

theorem Grows.refl (s : BlockStore) : Grows s s :=
  ⟨fun _ e he hd => ⟨e, he, hd, rfl⟩, fun _ hw => hw, id⟩

theorem Grows.trans {s₁ s₂ : BlockStore} (h1 : Grows s s₁) (h2 : Grows s₁ s₂) : Grows s s₂ := by
  refine ⟨fun h e he hd => ?_, fun w hw => h2.disk w (h1.disk w hw), fun hl => h2.laid (h1.laid hl)⟩
  obtain ⟨e₁, he1, hd1, hp1⟩ := h1.entries h e he hd
  obtain ⟨e₂, he2, hd2, hp2⟩ := h2.entries h e₁ he1 hd1
  exact ⟨e₂, he2, hd2, hp2.trans hp1⟩

/-- The block's entry points to a record of the block. -/
def Placed (s : BlockStore) (b : WireBlock) : Prop :=
  ∃ w e, w.block = b ∧ w ∈ s.disk ∧ s.index.find? b.hash = some e ∧ e.haveData = true ∧
    e.pos = ⟨w.pos.nFile, w.pos.nPos + 8⟩

theorem Placed.grows {b : WireBlock} (hb : Placed s b) (hg : Grows s s') : Placed s' b := by
  obtain ⟨w, e, hw, hmem, he, hd, hp⟩ := hb
  obtain ⟨e', he', hd', hp'⟩ := hg.entries _ e he hd
  exact ⟨w, e', hw, hg.disk w hmem, he', hd', hp'.trans hp⟩

theorem Laid.of_sizes (hl : Laid s) (hdisk : s'.disk = s.disk)
    (hsizes : ∀ i, s.sizes.getD i 0 ≤ s'.sizes.getD i 0) : Laid s' := by
  constructor
  · rw [hdisk]
    exact fun w hw => (hl.fits w hw).trans (hsizes _)
  · rw [hdisk]
    exact hl.apart

theorem Grows.of_insert {hash : Nat} {e : BlockEntry}
    (hnew : ∀ old, s.index.find? hash = some old → old.haveData = false)
    (hindex : s'.index = s.index.insert hash e) (hdisk : s'.disk = s.disk) (hsizes : s'.sizes = s.sizes) :
    Grows s s' := by
  refine ⟨fun h old hold hd => ?_, fun w hw => hdisk ▸ hw, fun hl => ?_⟩
  · have hne : h ≠ hash := by
      rintro rfl
      rw [hnew old hold] at hd
      cases hd
    rw [hindex, find?_insert_ne _ _ hne]
    exact ⟨old, hold, hd, rfl⟩
  · exact hl.of_sizes hdisk fun i => Nat.le_of_eq (by rw [hsizes])

theorem acceptBlockHeader_spec {c : Branch} {a : Arrival}
    {r : Option BlockEntry} (h : acceptBlockHeader W s c a = some (r, s')) :
    Grows s s' ∧ ∀ e, r = some e → s'.index.find? a.block.hash = some e := by
  unfold acceptBlockHeader at h
  split at h
  · rename_i e hf
    cases h
    refine ⟨Grows.refl s, fun e' he' => ?_⟩
    split at he'
    · cases he'
    · cases he'
      exact hf
  · rename_i hf
    split at h
    · rw [Option.map_eq_some_iff] at h
      obtain ⟨⟨e, s₁⟩, hadd, heq⟩ := h
      cases heq
      unfold addToBlockIndex at hadd
      split at hadd
      · cases hadd
      · cases hadd
        refine ⟨Grows.of_insert (fun old hold => ?_) rfl rfl rfl, fun e' he' => ?_⟩
        · rw [hf] at hold
          cases hold
        · cases he'
          exact find?_insert_self ..
    · cases h
      exact ⟨Grows.refl s, fun e he => (nomatch he)⟩

theorem storeBlock_spec {a : Arrival} {e : BlockEntry} {stored : Bool}
    (he : s.index.find? a.block.hash = some e) (hd : e.haveData = false)
    (h : storeBlock s a e = some (stored, s')) :
    Grows s s' ∧ (stored = true → a.dbp = none → Placed s' a.block) := by
  unfold storeBlock at h
  split at h
  · cases h
  · rename_i pos s₁ hfind
    obtain ⟨hindex, hdisk, hsizes, hplace⟩ := findBlockPos_spec hfind
    have hgrow : Grows s s₁ :=
      ⟨fun h old hold hdata => ⟨old, hindex.symm ▸ hold, hdata, rfl⟩, fun w hw => hdisk.symm ▸ hw,
        fun hl => hl.of_sizes hdisk hsizes⟩
    have hnew : ∀ old, s₁.index.find? a.block.hash = some old → old.haveData = false := by
      intro old hold
      rw [hindex, he] at hold
      cases hold
      exact hd
    split at h
    · cases h
      exact ⟨hgrow, fun h => (nomatch h)⟩
    · split at h
      · rename_i known hdbp
        cases h
        refine ⟨hgrow.trans (Grows.of_insert hnew rfl rfl rfl), fun _ hnone => ?_⟩
        rw [hdbp] at hnone
        cases hnone
      · rename_i hdbp
        cases h
        obtain ⟨hbehind, hstop⟩ := hplace hdbp
        refine ⟨⟨fun h old hold hdata => ?_, fun w hw => ?_, fun hl => ?_⟩, fun _ _ => ?_⟩
        · have hne : h ≠ a.block.hash := by
            rintro rfl
            rw [he] at hold
            cases hold
            rw [hd] at hdata
            cases hdata
          refine ⟨old, ?_, hdata, rfl⟩
          rw [← hold, ← hindex]
          exact find?_insert_ne _ _ hne
        · exact .tail _ (hgrow.disk w hw)
        · -- the new record starts where its file ended
          have hl1 := hgrow.laid hl
          refine ⟨fun w hw => ?_, List.pairwise_cons.mpr ⟨fun w hw hfile => ?_, hl1.apart⟩⟩
          · rcases List.mem_cons.mp hw with rfl | hw
            · change pos.nPos + 8 + a.block.nSize ≤ s₁.sizes.getD pos.nFile 0
              omega
            · exact hl1.fits w hw
          · rw [hdisk] at hw
            have hfits := hl.fits w hw
            have hfile' : pos.nFile = w.pos.nFile := hfile
            rw [← hfile'] at hfits
            exact hfits.trans hbehind
        · exact ⟨⟨pos, a.block⟩, _, rfl, .head _, find?_insert_self .., rfl, rfl⟩

/-- One arrival: what was there stays, and a block that is written is in its
place. -/
theorem acceptBlock_spec {a : Arrival} {stored : Bool}
    (h : acceptBlock W s a = some (stored, s')) :
    Grows s s' ∧ (stored = true → a.dbp = none → Placed s' a.block) := by
  have hsame : ∀ {t t' : BlockStore}, Grows t t' → some (false, t') = some (stored, s') →
      Grows t s' ∧ (stored = true → a.dbp = none → Placed s' a.block) := by
    intro t t' hg heq
    cases heq
    exact ⟨hg, fun h => (nomatch h)⟩
  unfold acceptBlock at h
  dsimp only at h
  split at h
  · exact hsame (Grows.refl s) h
  · split at h
    · exact hsame (Grows.refl s) h
    · split at h
      · exact hsame (Grows.refl s) h
      · split at h
        · cases h
        · rename_i s₁ hheader
          exact hsame (acceptBlockHeader_spec hheader).1 h
        · rename_i e s₁ hheader
          obtain ⟨hgrow, hfind⟩ := acceptBlockHeader_spec hheader
          have he := hfind e rfl
          split at h
          · exact hsame hgrow h
          · rename_i hdata
            have hd : e.haveData = false := by simpa using hdata
            have hnew : ∀ old, s₁.index.find? a.block.hash = some old → old.haveData = false := by
              intro old hold
              rw [he] at hold
              cases hold
              exact hd
            split at h
            · refine hsame (hgrow.trans ?_) h
              exact Grows.of_insert hnew rfl rfl rfl
            · exact hsame hgrow h
            · split at h
              · exact hsame hgrow h
              · obtain ⟨hgrow', hplaced⟩ := storeBlock_spec he hd h
                exact ⟨hgrow.trans hgrow', hplaced⟩

/-! ### Runs -/

theorem find?_markFailed (failed : Nat → Bool) (s : BlockStore) (h : Nat) :
    (markFailed failed s).index.find? h =
      (s.index.find? h).map fun e => { e with failed := failed h } := by
  have hfold := find?_foldl
    (f := fun m (e : Nat × BlockEntry) => m.insert e.1 { e.2 with failed := failed e.1 })
    (g := fun _ e => some { e.2 with failed := failed e.1 })
    (fun m e => find?_insert_self ..) (fun m e k hk => find?_insert_ne _ _ hk) s.index.sorted
  rw [markFailed, hfold]
  change (s.index.find? h).elim (s.index.find? h) _ = _
  cases s.index.find? h with
  | none => rfl
  | some e => rfl

theorem storeStep_grows {ev : StoreEvent} (h : storeStep W s ev = some s') :
    Grows s s' := by
  cases ev with
  | arrive a =>
    simp only [storeStep, Option.map_eq_some_iff] at h
    obtain ⟨⟨stored, s₁⟩, haccept, rfl⟩ := h
    exact (acceptBlock_spec haccept).1
  | mark failed =>
    cases h
    refine ⟨fun hash e he hd => ?_, fun w hw => hw, fun hl => ⟨hl.fits, hl.apart⟩⟩
    exact ⟨{ e with failed := failed hash }, by rw [find?_markFailed, he]; rfl, hd, rfl⟩

theorem run_grows {evs : List StoreEvent}
    (h : run (storeStep W) s evs = some s') : Grows s s' :=
  run_invariant (fun _ _ _ hg hs => hg.trans (storeStep_grows hs)) (Grows.refl s) h

/-- A block in its place is read back if and only if it is a proof-of-stake block
or its hash meets its target. -/
theorem Placed.read_iff {b : WireBlock} (hb : Placed s b) (hl : Laid s) :
    ∃ e, s.index.find? b.hash = some e ∧ e.haveData = true ∧
      (readBlockFromDisk W s b.hash e = some b ↔
        b.isProofOfStake = true ∨ checkProofOfWork W b.hash b.nBits = true) := by
  obtain ⟨w, e, rfl, hmem, he, hd, hp⟩ := hb
  refine ⟨e, he, hd, ?_⟩
  have hread : readBytes s.disk e.pos = some w.block := by
    rw [hp]
    exact readBytes_of_mem hl hmem
  rw [readBlockFromDisk, if_pos hd, hread]
  dsimp only
  cases hpos : w.block.isProofOfStake with
  | true => simp
  | false =>
    cases hwork : checkProofOfWork W w.block.hash w.block.nBits with
    | true => simp
    | false => simp

theorem laid_empty : Laid {} := ⟨fun _ hw => (nomatch hw), List.Pairwise.nil⟩

/-- **Stored blocks and reading.** In every state after a block was written, its
entry has data, and reading it gives the block if and only if the block is one of
proof of stake or passes `CheckProofOfWork`. -/
theorem stored_block_readable_iff {W : WorkParams} {before after : List StoreEvent} {a : Arrival}
    {s₁ s₂ s₃ : BlockStore} (hbefore : run (storeStep W) {} before = some s₁)
    (hstored : acceptBlock W s₁ a = some (true, s₂)) (hwritten : a.dbp = none)
    (hafter : run (storeStep W) s₂ after = some s₃) :
    ∃ e, s₃.index.find? a.block.hash = some e ∧ e.haveData = true ∧
      (readBlockFromDisk W s₃ a.block.hash e = some a.block ↔
        a.block.isProofOfStake = true ∨ checkProofOfWork W a.block.hash a.block.nBits = true) := by
  obtain ⟨hgrow, hplaced⟩ := acceptBlock_spec hstored
  have hgrow' := run_grows hafter
  have hl : Laid s₃ := hgrow'.laid (hgrow.laid ((run_grows hbefore).laid laid_empty))
  exact ((hplaced rfl hwritten).grows hgrow').read_iff hl

/-- A block of one transaction. -/
def oneTxBlock (hash hashPrevBlock : Nat) (nBits : UInt32) : WireBlock where
  hash := hash
  vtx := [coinbaseTx]
  hashPrevBlock := hashPrevBlock
  nTime := 1542153600
  nBits := nBits
  vchBlockSig := []
  nSize := 200
  sig_nil := fun _ => rfl
  header_le := by decide

/-- The main network's genesis block, and a first block over it with the hash. -/
def genesisArrival : Arrival := { block := oneTxBlock mainWork.hashGenesisBlock 0 0x1e0ffff0 }

def firstArrival (hash : Nat) : Arrival := { block := oneTxBlock hash mainWork.hashGenesisBlock 0x1e0fffff }

/-- Store the two. -/
def storeFirst (hash : Nat) : Option (Bool × BlockStore) :=
  (run (storeStep mainWork) {} [.arrive genesisArrival]).bind fun s => acceptBlock mainWork s (firstArrival hash)

theorem storeFirst_eq_some (hash : Nat) (h : (storeFirst hash).map Prod.fst = some true) :
    ∃ s₁ s₂, run (storeStep mainWork) {} [.arrive genesisArrival] = some s₁ ∧
      acceptBlock mainWork s₁ (firstArrival hash) = some (true, s₂) := by
  rw [Option.map_eq_some_iff] at h
  obtain ⟨⟨stored, s₂⟩, h, rfl⟩ := h
  obtain ⟨s₁, h1, h2⟩ := Option.bind_eq_some_iff.mp h
  exact ⟨s₁, s₂, h1, h2⟩

/-- A first block with a small hash is read back. -/
theorem first_block_readable :
    ∃ s₁ s₂ e, run (storeStep mainWork) {} [.arrive genesisArrival] = some s₁ ∧
      acceptBlock mainWork s₁ (firstArrival 5) = some (true, s₂) ∧
      s₂.index.find? 5 = some e ∧ readBlockFromDisk mainWork s₂ 5 e = some (firstArrival 5).block := by
  obtain ⟨s₁, s₂, h₁, h₂⟩ := storeFirst_eq_some 5 (by decide +kernel)
  obtain ⟨e, he, -, hread⟩ := stored_block_readable_iff h₁ h₂ rfl (run_nil _ s₂)
  exact ⟨s₁, s₂, e, h₁, h₂, he, hread.mpr (.inr (by decide +kernel))⟩

/-- A first block with a hash beyond every target passes the checks of a block and
the test of the work, is stored, and cannot be read. -/
theorem workless_block_unreadable :
    checkBlock mainParams syncedNode 1 (firstArrival (2 ^ 255)).block.toCBlock = true ∧
      ¬ ∀ (W : WorkParams) (before after : List StoreEvent) (a : Arrival) (s₁ s₂ s₃ : BlockStore),
        run (storeStep W) {} before = some s₁ → acceptBlock W s₁ a = some (true, s₂) → a.dbp = none →
        run (storeStep W) s₂ after = some s₃ →
        ∃ e, s₃.index.find? a.block.hash = some e ∧ readBlockFromDisk W s₃ a.block.hash e = some a.block := by
  refine ⟨by decide +kernel, fun h => ?_⟩
  obtain ⟨s₁, s₂, h₁, h₂⟩ := storeFirst_eq_some (2 ^ 255) (by decide +kernel)
  obtain ⟨e, he, hread⟩ := h mainWork _ [] _ s₁ s₂ s₂ h₁ h₂ rfl (run_nil _ s₂)
  have hl : Laid s₂ := (acceptBlock_spec h₂).1.laid ((run_grows h₁).laid laid_empty)
  obtain ⟨e', he', -, hiff⟩ := ((acceptBlock_spec h₂).2 rfl rfl).read_iff hl
  cases he.symm.trans he'
  rcases hiff.mp hread with hstake | hwork
  · revert hstake
    decide +kernel
  · revert hwork
    decide +kernel

end Rapids.Chain
