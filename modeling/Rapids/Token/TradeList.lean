import Rapids.Lib.Text
import Rapids.Token.State

/-!
# Rapids.Token.TradeList

**The trades database** (`CMPTradeList`, `dbtradelist.cpp`), and its rollback.

An order has a record under its transaction, and each of its matches one under the two
transactions, the resting order's first. A record is text: fields with a colon between them.
A rollback goes through the database in key order and looks for the block in the fields, at
a place that the number of fields tells. But the block is a variable of the whole loop, and
the number that is looked for in a match is one less than a match has had since fees are
recorded: a match is taken for one of the block of the last order before it.

A rollback is exact if and only if that makes no difference: wherever a match stands behind
an order, both are on the same side of the block (`delete_above_block_exact_iff`). In key
order a match stands behind its resting order, so what fails are matches of orders that had
been placed before the rollback's block.
-/

namespace Rapids.Token

open Rapids.Lib OrdMap

/-! ### Records -/

/-- A key: a transaction, or two with a plus sign between them. Transactions are written with
64 hexadecimal digits, so the key of an order comes right before those of its matches. -/
structure TradeKey where
  txid1 : Hash
  txid2 : Option Hash
  deriving DecidableEq, Repr

instance : LinearOrder TradeKey :=
  LinearOrder.lift' (fun k => (toLex (k.txid1, k.txid2) : Hash ×ₗ WithBot Hash)) fun a b h => by
    obtain ⟨_, _⟩ := a
    obtain ⟨_, _⟩ := b
    obtain ⟨h1, h2⟩ := Prod.mk.inj (toLex.injective h)
    exact congrArg₂ TradeKey.mk h1 h2

/-- The arguments of `recordNewTrade`. -/
structure NewTrade where
  txid : Hash
  address : Address
  propertyIdForSale : PropertyId
  propertyIdDesired : PropertyId
  blockNum : Int
  blockIndex : Int
  deriving DecidableEq

/-- The arguments of `recordMatchedTrade`. -/
structure MatchedTrade where
  txid1 : Hash
  txid2 : Hash
  address1 : Address
  address2 : Address
  prop1 : PropertyId
  prop2 : PropertyId
  amount1 : Int
  amount2 : Int
  blockNum : Int
  fee : Int
  deriving DecidableEq

/-- What is recorded by one call. -/
inductive TradeRecord
  | new (t : NewTrade)
  | matched (t : MatchedTrade)
  deriving DecidableEq

namespace TradeRecord

def key : TradeRecord → TradeKey
  | .new t => ⟨t.txid, none⟩
  | .matched t => ⟨t.txid1, some t.txid2⟩

def blockNum : TradeRecord → Int
  | .new t => t.blockNum
  | .matched t => t.blockNum

def isMatched : TradeRecord → Bool
  | .new _ => false
  | .matched _ => true

def fields : TradeRecord → List (List Char)
  | .new t =>
    [t.address.toList, intText t.propertyIdForSale, intText t.propertyIdDesired, intText t.blockNum,
      intText t.blockIndex]
  | .matched t =>
    [t.address1.toList, t.address2.toList, intText t.prop1, intText t.prop2, intText t.amount1,
      intText t.amount2, intText t.blockNum, intText t.fee]

/-- The value that is written. -/
def text (r : TradeRecord) : List Char := joinFields ':' r.fields

/-- Addresses are not empty, and there is no colon in them. -/
def Addressed : TradeRecord → Prop
  | .new t => IsField ':' t.address.toList
  | .matched t => IsField ':' t.address1.toList ∧ IsField ':' t.address2.toList

instance (r : TradeRecord) : Decidable r.Addressed :=
  match r with
  | .new t => inferInstanceAs (Decidable (IsField ':' t.address.toList))
  | .matched t => inferInstanceAs (Decidable (IsField ':' t.address1.toList ∧ IsField ':' t.address2.toList))

theorem splitFields_text {r : TradeRecord} (h : r.Addressed) : splitFields ':' r.text = r.fields := by
  have hint : ∀ i, IsField ':' (intText i) := intText_isField (by decide) (by decide)
  refine splitFields_joinFields (by cases r <;> exact List.cons_ne_nil _ _) fun field hfield => ?_
  cases r with
  | new t =>
    simp only [fields, List.mem_cons, List.not_mem_nil, or_false] at hfield
    rcases hfield with rfl | rfl | rfl | rfl | rfl
    · exact h
    all_goals exact hint _
  | matched t =>
    simp only [fields, List.mem_cons, List.not_mem_nil, or_false] at hfield
    rcases hfield with rfl | rfl | rfl | rfl | rfl | rfl | rfl | rfl
    · exact h.1
    · exact h.2
    all_goals exact hint _

end TradeRecord

/-- A record as the callers of the database make it. -/
abbrev ListedRecord := { r : TradeRecord // r.Addressed }

/-- The database: texts in key order. -/
abbrev TradeDB := OrdMap TradeKey (List Char)

/-- `recordNewTrade` and `recordMatchedTrade` -/
def recordTrade (db : TradeDB) (r : TradeRecord) : TradeDB := db.insert r.key r.text

variable (records : List ListedRecord)

/-- The database after a sequence of calls. -/
def tradeDB : TradeDB :=
  records.foldl (fun db r => recordTrade db r.1) ∅

/-- The records that stand in it: the last one of each key. -/
def storedTrades : OrdMap TradeKey ListedRecord :=
  records.foldl (fun m r => m.insert r.1.key r) ∅

/-- Records as the database has them. -/
def recordTexts (m : OrdMap TradeKey ListedRecord) : TradeDB := m.mapVal fun r => r.1.text

theorem tradeDB_eq : tradeDB records = recordTexts (storedTrades records) := by
  have hfold : ∀ m : OrdMap TradeKey ListedRecord,
      records.foldl (fun db r => recordTrade db r.1) (recordTexts m) =
        recordTexts (records.foldl (fun m r => m.insert r.1.key r) m) := by
    induction records with
    | nil => intro m; rfl
    | cons r rest ih =>
      intro m
      rw [List.foldl_cons, List.foldl_cons, ← ih, recordTrade, recordTexts, recordTexts, mapVal_insert]
  exact hfold ∅

/-! ### The rollback -/

/-- The variable `block`, after a record has been looked at. -/
def blockOf (block : Int) (value : List Char) : Int :=
  let vstr := splitFields ':' value
  let block := if 7 = vstr.length then atoi (vstr.getD 6 []) else block
  if 5 = vstr.length then atoi (vstr.getD 3 []) else block

/-- The loop of `deleteAboveBlock`, over what the database held when it began. -/
def deleteLoop (blockNum : Int) : List (TradeKey × List Char) → Int → Nat × TradeDB → Nat × TradeDB
  | [], _, found => found
  | (key, value) :: rest, block, (nFound, db) =>
    let block := blockOf block value
    if blockNum ≤ block then deleteLoop blockNum rest block (nFound + 1, db.erase key)
    else deleteLoop blockNum rest block (nFound, db)

/-- `deleteAboveBlock`: the number of records it removes, and the database. -/
def deleteAboveBlock (db : TradeDB) (blockNum : Int) : Nat × TradeDB :=
  deleteLoop blockNum db.entries 0 (0, db)

theorem blockOf_text (block : Int) {r : TradeRecord} (h : r.Addressed) :
    blockOf block r.text = if r.isMatched then block else r.blockNum := by
  rw [blockOf, TradeRecord.splitFields_text h]
  cases r with
  | new t => simp [TradeRecord.fields, TradeRecord.isMatched, TradeRecord.blockNum]
  | matched t => simp [TradeRecord.fields, TradeRecord.isMatched]

section Taken

variable {blockNum : Int}

/-- The block of the last order among records, 0 if there is none. -/
def lastOrderBlock (l : List (TradeKey × ListedRecord)) : Int :=
  ((l.filter fun e => !e.2.1.isMatched).getLast?.map fun e => e.2.1.blockNum).getD 0

variable (before : List (TradeKey × ListedRecord))

/-- The block that the loop takes a record for, behind others. -/
def takenBlock (r : ListedRecord) : Int :=
  if r.1.isMatched then lastOrderBlock before else r.1.blockNum

theorem lastOrderBlock_snoc (e : TradeKey × ListedRecord) :
    lastOrderBlock (before ++ [e]) = takenBlock before e.2 := by
  rw [lastOrderBlock, takenBlock, List.filter_append]
  cases h : e.2.1.isMatched <;> simp [h, lastOrderBlock]

/-- The keys that the loop removes, behind records that it has seen. -/
def removedKeys (blockNum : Int) (before : List (TradeKey × ListedRecord)) :
    List (TradeKey × ListedRecord) → List TradeKey
  | [] => []
  | e :: rest =>
    (if blockNum ≤ takenBlock before e.2 then [e.1] else []) ++ removedKeys blockNum (before ++ [e]) rest

theorem deleteLoop_eq (l : List (TradeKey × ListedRecord)) (nFound : Nat) (db : TradeDB) :
    deleteLoop blockNum (l.map fun e => (e.1, e.2.1.text)) (lastOrderBlock before) (nFound, db) =
      (nFound + (removedKeys blockNum before l).length, (removedKeys blockNum before l).foldl (·.erase ·) db) := by
  induction l generalizing before nFound db with
  | nil => rfl
  | cons e rest ih =>
    have hblock : blockOf (lastOrderBlock before) e.2.1.text = lastOrderBlock (before ++ [e]) := by
      rw [blockOf_text _ e.2.2, lastOrderBlock_snoc, takenBlock]
    rw [List.map_cons, deleteLoop, removedKeys, hblock, ih, ih, lastOrderBlock_snoc]
    split_ifs
    · rw [List.length_append, List.foldl_append, List.length_singleton, Nat.add_assoc]
      rfl
    · rfl

/-- A key is removed for a record that is taken for one of the block or a later one. -/
theorem mem_removedKeys {before l : List (TradeKey × ListedRecord)} {k : TradeKey} :
    k ∈ removedKeys blockNum before l ↔
      ∃ seen r rest, l = seen ++ (k, r) :: rest ∧ blockNum ≤ takenBlock (before ++ seen) r := by
  induction l generalizing before with
  | nil => simp [removedKeys]
  | cons e tail ih =>
    rw [removedKeys, List.mem_append, ih]
    constructor
    · intro h
      rcases h with h | h
      · by_cases hle : blockNum ≤ takenBlock before e.2
        · rw [if_pos hle, List.mem_singleton] at h
          exact ⟨[], e.2, tail, by rw [h]; rfl, by rwa [List.append_nil]⟩
        · rw [if_neg hle] at h
          cases h
      · obtain ⟨seen, r, rest, rfl, hle⟩ := h
        exact ⟨e :: seen, r, rest, rfl, by rwa [List.append_assoc] at hle⟩
    · rintro ⟨seen, r, rest, heq, hle⟩
      cases seen with
      | nil =>
        obtain ⟨rfl, rfl⟩ := List.cons.inj heq
        rw [List.append_nil] at hle
        exact .inl (by rw [if_pos hle]; exact List.mem_singleton_self _)
      | cons first seen =>
        obtain ⟨rfl, rfl⟩ := List.cons.inj heq
        exact .inr ⟨seen, r, rest, rfl, by rwa [List.append_assoc]⟩

end Taken

/-! ### When it is exact -/

/-- Wherever a match stands, it is on the same side of the block as the last order before it. -/
def SameSides (blockNum : Int) (m : OrdMap TradeKey ListedRecord) : Prop :=
  ∀ before e behind, m.entries = before ++ e :: behind → e.2.1.isMatched = true →
    (blockNum ≤ lastOrderBlock before ↔ blockNum ≤ e.2.1.blockNum)

theorem find?_deleteAboveBlock (m : OrdMap TradeKey ListedRecord) (blockNum : Int) (k : TradeKey) :
    (deleteAboveBlock (recordTexts m) blockNum).2.find? k =
      if k ∈ removedKeys blockNum [] m.entries then none else (m.find? k).map fun r => r.1.text := by
  have hentries : (recordTexts m).entries = m.entries.map fun e => (e.1, e.2.1.text) := rfl
  have hstart : (0 : Int) = lastOrderBlock [] := rfl
  rw [deleteAboveBlock, hentries, hstart, deleteLoop_eq, find?_foldl_erase (fun k => k), recordTexts,
    find?_mapVal]
  simp

theorem mem_removedKeys_of_split {m : OrdMap TradeKey ListedRecord} {blockNum : Int} {k : TradeKey}
    {r : ListedRecord} {before behind : List (TradeKey × ListedRecord)} (h : m.entries = before ++ (k, r) :: behind) :
    k ∈ removedKeys blockNum [] m.entries ↔ blockNum ≤ takenBlock before r := by
  rw [mem_removedKeys]
  constructor
  · rintro ⟨seen, r', rest, heq, hle⟩
    -- keys ascend strictly, so there is one place for a key
    have hsorted := m.sorted
    rw [h] at hsorted heq
    obtain ⟨-, hright, hleft⟩ := List.pairwise_append.mp hsorted
    have hbehind := (List.pairwise_cons.mp hright).1
    have hmem : (k, r') ∈ before ++ (k, r) :: behind := by
      rw [heq]
      exact List.mem_append_right _ (.head _)
    have hbefore : (k, r') ∉ before := fun hb => lt_irrefl k (hleft _ hb _ (.head _))
    have hafter : (k, r') ∉ behind := fun hb => lt_irrefl k (hbehind _ hb)
    obtain ⟨rfl, hr, -⟩ := (List.append_cons_inj_of_notMem hbefore hafter).mp heq
    rw [List.nil_append] at hle
    rwa [(Prod.mk.inj hr).2]
  · intro hle
    exact ⟨before, r, behind, h, by rwa [List.nil_append]⟩

/-- **A rollback removes exactly the records of its block and later ones** if every match is on the
side of the order before it, and only then. -/
theorem delete_above_block_exact_iff (records : List ListedRecord) (blockNum : Int) :
    (deleteAboveBlock (tradeDB records) blockNum).2 =
        recordTexts ((storedTrades records).filter fun e => decide (e.2.1.blockNum < blockNum)) ↔
      SameSides blockNum (storedTrades records) := by
  rw [tradeDB_eq]
  generalize storedTrades records = m
  -- one record: it is kept or removed as it should
  have hrecord : ∀ before k r behind, m.entries = before ++ (k, r) :: behind →
      ((deleteAboveBlock (recordTexts m) blockNum).2.find? k =
          (recordTexts (m.filter fun e => decide (e.2.1.blockNum < blockNum))).find? k ↔
        (blockNum ≤ takenBlock before r ↔ blockNum ≤ r.1.blockNum)) := by
    intro before k r behind hsplit
    have hfind : m.find? k = some r := by
      rw [← mem_entries_iff, hsplit]
      exact List.mem_append_right _ (.head _)
    have hremoved := @mem_removedKeys_of_split m blockNum k r before behind hsplit
    rw [find?_deleteAboveBlock, recordTexts, find?_mapVal, find?_filter, hfind]
    by_cases htaken : blockNum ≤ takenBlock before r <;> by_cases hown : blockNum ≤ r.1.blockNum <;>
      simp [hremoved, htaken, hown, Option.filter]
  constructor
  · intro h before e behind hsplit hmatched
    have hiff := (hrecord before e.1 e.2 behind hsplit).mp (by rw [h])
    rwa [takenBlock, if_pos hmatched] at hiff
  · intro h
    refine ext_find? fun k => ?_
    cases hfind : m.find? k with
    | none =>
      rw [find?_deleteAboveBlock, recordTexts, find?_mapVal, find?_filter, hfind]
      simp
    | some r =>
      obtain ⟨before, behind, hsplit⟩ := List.append_of_mem (mem_entries_iff.mpr hfind)
      refine (hrecord before k r behind hsplit).mpr ?_
      rw [takenBlock]
      split_ifs with hmatched
      · exact h before (k, r) behind hsplit hmatched
      · exact Iff.rfl

/-- An order of block 5, and one of block 7 that takes it. -/
def lateMatch : List ListedRecord :=
  [⟨.new ⟨1, "seller", 3, 4, 5, 0⟩, by decide +kernel⟩, ⟨.new ⟨2, "buyer", 4, 3, 7, 0⟩, by decide +kernel⟩,
    ⟨.matched ⟨1, 2, "seller", "buyer", 4, 3, 10, 10, 7, 0⟩, by decide +kernel⟩]

/-- Going back to block 6 leaves a match of block 7. -/
theorem late_match_stays :
    (TradeRecord.matched ⟨1, 2, "seller", "buyer", 4, 3, 10, 10, 7, 0⟩) ∈ lateMatch.map Subtype.val ∧
    (deleteAboveBlock (tradeDB lateMatch) 6).2.contains ⟨1, some 2⟩ = true ∧
    (deleteAboveBlock (tradeDB lateMatch) 6).2 ≠
      recordTexts ((storedTrades lateMatch).filter fun e => decide (e.2.1.blockNum < 6)) := by
  have hkept : (deleteAboveBlock (tradeDB lateMatch) 6).2.contains ⟨1, some 2⟩ = true := by decide +kernel
  refine ⟨by decide +kernel, hkept, fun heq => ?_⟩
  rw [heq] at hkept
  exact absurd hkept (by decide +kernel)

end Rapids.Token
