import Mathlib.Data.List.Range
import Rapids.Lib.Run
import Rapids.Lib.Text
import Rapids.Token.State

/-!
# Rapids.Token.FeeHistory

**The database of fee distributions** (`CTokenFeeHistory`, `dbfees.cpp`).

A distribution is stored under the number of records plus one. That number is free only as long
as the records are numbered without a gap, and a rollback, which removes the records of its
block and later ones, leaves none only if these are the last ones. They are, when blocks do not
decrease, and start again at the rollback's block after it: then the database is the list of the
distributions that were recorded and not rolled back, in their order (`fee_history_kept`).

A record is text with three separators, one inside the other: fields with a colon, the recipients
with a comma, and what a recipient gets behind an equals sign. No address contains one of them.
-/

namespace Rapids.Token

open Rapids.Lib OrdMap

/-! ### Records -/

/-- A set of recipients, each with its amount. -/
abbrev FeeRecipients := OrdMap (Address ×ₗ Int) Unit

/-- The arguments of `RecordFeeDistribution`. -/
structure FeeRecord where
  propertyId : PropertyId
  block : Int
  total : Int
  feeRecipients : FeeRecipients

/-- Numbers fit their types, and addresses are letters and digits. -/
structure FeeRecord.Typed (r : FeeRecord) : Prop where
  propertyId : r.propertyId < 4294967296
  block : InI32 r.block
  total : InI64 r.total
  recipients : ∀ e ∈ r.feeRecipients.entries, IsWord (ofLex e.1).1.toList ∧ InI64 (ofLex e.1).2

/-- A distribution as the caller makes it. -/
abbrev TypedFees := { r : FeeRecord // r.Typed }

/-- A recipient and its amount. -/
def itemText (item : Address ×ₗ Int) : List Char := joinFields '=' [(ofLex item).1.toList, intText (ofLex item).2]

namespace FeeRecord

/-- The recipients, each with a comma behind it; the last comma is cut off. -/
def feeRecipientsStr (r : FeeRecord) : List Char :=
  (r.feeRecipients.entries.flatMap fun e => itemText e.1 ++ [',']).dropLast

/-- The value that is written. -/
def value (r : FeeRecord) : List Char :=
  joinFields ':' [intText r.block, intText r.propertyId, intText r.total, r.feeRecipientsStr]

end FeeRecord

/-- The database: texts by number. What is done with it does not depend on the order of its keys. -/
abbrev CTokenFeeHistory := OrdMap Nat (List Char)

namespace CTokenFeeHistory

/-! ### The functions -/

def countRecords (db : CTokenFeeHistory) : Nat := db.entries.length

def recordFeeDistribution (db : CTokenFeeHistory) (r : FeeRecord) : CTokenFeeHistory :=
  db.insert (countRecords db + 1) r.value

/-- One turn of the loop of `RollBackHistory`; a block that is no number throws. -/
def rollBackOne (block : Int) (db : CTokenFeeHistory) (e : Nat × List Char) : Option CTokenFeeHistory :=
  let vFeeHistoryDetail := splitFields ':' e.2
  if 4 ≠ vFeeHistoryDetail.length then some db
  else
    (lexicalCast (-2147483648) 2147483647 (vFeeHistoryDetail.getD 0 [])).map fun feeBlock =>
      if block ≤ feeBlock then db.erase e.1 else db

/-- `RollBackHistory`, over what the database held when it began. -/
def rollBackHistory (db : CTokenFeeHistory) (block : Int) : Option CTokenFeeHistory :=
  db.entries.foldlM (rollBackOne block) db

/-- `GetDistributionData`: the property, block and total, or `none` for `false`; the outer `none`
is an exception. -/
def getDistributionData (db : CTokenFeeHistory) (id : Nat) : Option (Option (PropertyId × Int × Int)) :=
  match db.find? id with
  | none => some none
  | some strValue =>
    let vFeeHistoryDetail := splitFields ':' strValue
    if 4 ≠ vFeeHistoryDetail.length then some none
    else do
      let block ← lexicalCast (-2147483648) 2147483647 (vFeeHistoryDetail.getD 0 [])
      let propertyId ← lexicalCast 0 4294967295 (vFeeHistoryDetail.getD 1 [])
      let total ← lexicalCast i64Min i64Max (vFeeHistoryDetail.getD 2 [])
      some (some (propertyId.toNat, block, total))

/-- One turn of the loop of `GetFeeDistribution`. -/
def readItem (sFeeHistoryItems : FeeRecipients) (text : List Char) : Option FeeRecipients :=
  let vFeeHistoryItem := splitFields '=' text
  if 2 ≠ vFeeHistoryItem.length then some sFeeHistoryItems
  else
    (lexicalCast i64Min i64Max (vFeeHistoryItem.getD 1 [])).map fun amount =>
      sFeeHistoryItems.insertNew (toLex (String.ofList (vFeeHistoryItem.getD 0 []), amount)) ()

def getFeeDistribution (db : CTokenFeeHistory) (id : Nat) : Option FeeRecipients :=
  match db.find? id with
  | none => some ∅
  | some strValue =>
    let vFeeHistoryDetail := splitFields ':' strValue
    if 4 ≠ vFeeHistoryDetail.length then some ∅
    else (splitFields ',' (vFeeHistoryDetail.getD 3 [])).foldlM readItem ∅

end CTokenFeeHistory

/-! ### Reading a record -/

section Read

variable {r : FeeRecord}

theorem itemText_eq (item : Address ×ₗ Int) :
    itemText item = (ofLex item).1.toList ++ '=' :: intText (ofLex item).2 := by
  simp [itemText, joinFields]

theorem feeRecipientsStr_eq (r : FeeRecord) :
    r.feeRecipientsStr = joinFields ',' (r.feeRecipients.entries.map fun e => itemText e.1) := by
  rw [FeeRecord.feeRecipientsStr, ← dropLast_flatMap_eq_joinFields, List.flatMap_map]

theorem itemText_isField {sep : Char} {item : Address ×ₗ Int} (hword : IsWord (ofLex item).1.toList)
    (halnum : sep.isAlphanum = false) (hdigit : sep.isDigit = false) (hminus : sep ≠ '-') (heq : sep ≠ '=') :
    IsField sep (itemText item) := by
  rw [itemText_eq]
  refine ⟨by simp, fun hmem => ?_⟩
  rcases List.mem_append.mp hmem with hmem | hmem
  · exact (hword.isField halnum).not_mem hmem
  · rcases List.mem_cons.mp hmem with hmem | hmem
    · exact heq hmem
    · exact (intText_isField hdigit hminus _).not_mem hmem

theorem splitFields_value (h : r.Typed) :
    splitFields ':' r.value = [intText r.block, intText r.propertyId, intText r.total, r.feeRecipientsStr] := by
  have hint : ∀ i, IsField ':' (intText i) := intText_isField (by decide) (by decide)
  refine @splitFields_joinFields_last ':' [intText r.block, intText r.propertyId, intText r.total] _ ?_ ?_
  · intro field hfield
    simp only [List.mem_cons, List.not_mem_nil, or_false] at hfield
    rcases hfield with rfl | rfl | rfl
    all_goals exact hint _
  · intro hmem
    obtain ⟨e, he, hmem⟩ := List.mem_flatMap.mp (List.dropLast_subset _ hmem)
    rcases List.mem_append.mp hmem with hmem | hmem
    · have hfield := @itemText_isField ':' _ (h.recipients e he).1 (by decide) (by decide) (by decide) (by decide)
      exact hfield.not_mem hmem
    · exact absurd (List.mem_singleton.mp hmem) (by decide)

theorem readItems_eq (h : r.Typed) :
    (splitFields ',' r.feeRecipientsStr).foldlM CTokenFeeHistory.readItem ∅ = some r.feeRecipients := by
  have hread : ∀ (l : List ((Address ×ₗ Int) × Unit)) (m : FeeRecipients), (∀ e ∈ l, e ∈ r.feeRecipients.entries) →
      (l.map fun e => itemText e.1).foldlM CTokenFeeHistory.readItem m =
        some (l.foldl (fun m e => m.insertNew e.1 e.2) m) := by
    intro l
    induction l with
    | nil => intro m _; rfl
    | cons e rest ih =>
      intro m hsub
      obtain ⟨hword, hfits⟩ := h.recipients e (hsub e (.head _))
      have hsplit : splitFields '=' (itemText e.1) = [(ofLex e.1).1.toList, intText (ofLex e.1).2] := by
        refine splitFields_joinFields (by simp) fun field hfield => ?_
        simp only [List.mem_cons, List.not_mem_nil, or_false] at hfield
        rcases hfield with rfl | rfl
        · exact hword.isField (by decide)
        · exact intText_isField (by decide) (by decide) _
      have hone : CTokenFeeHistory.readItem m (itemText e.1) = some (m.insertNew e.1 e.2) := by
        simp [CTokenFeeHistory.readItem, hsplit, lexicalCast_intText hfits.1 hfits.2]
      rw [List.map_cons, List.foldlM_cons, hone, List.foldl_cons]
      exact ih _ fun x hx => hsub x (.tail _ hx)
  rw [feeRecipientsStr_eq]
  by_cases hempty : r.feeRecipients.entries = []
  · -- no recipients: one empty text, which is no recipient
    have hnone : r.feeRecipients = ∅ := by
      refine ext_find? fun k => ?_
      rw [find?, hempty]
      rfl
    rw [hempty, hnone]
    decide
  · rw [splitFields_joinFields (by simpa using hempty) fun field hfield => ?_]
    · rw [hread _ _ fun e he => he, foldl_copy (List.Perm.refl _)]
    · obtain ⟨e, he, rfl⟩ := List.mem_map.mp hfield
      exact itemText_isField (h.recipients e he).1 (by decide) (by decide) (by decide) (by decide)

end Read

/-! ### The list that the database holds -/

/-- The numbers from 1 on hold the distributions of a list. -/
def Stores (db : CTokenFeeHistory) (l : List TypedFees) : Prop :=
  ∀ id, db.find? id = if id = 0 then none else (l[id - 1]?).map fun r => r.1.value

/-- Blocks do not decrease. -/
def ByBlock (l : List TypedFees) : Prop := l.Pairwise fun r r' => r.1.block ≤ r'.1.block

section Stored

variable {db : CTokenFeeHistory} {l : List TypedFees}

theorem Stores.isSome_iff (h : Stores db l) (id : Nat) : (db.find? id).isSome = true ↔ 1 ≤ id ∧ id ≤ l.length := by
  rw [h id]
  by_cases h0 : id = 0
  · simp [h0]
  · rw [if_neg h0, Option.isSome_map]
    simp only [isSome_getElem?]
    omega

theorem Stores.countRecords (h : Stores db l) : CTokenFeeHistory.countRecords db = l.length := by
  have hkeys : (db.entries.map Prod.fst).Perm (List.range' 1 l.length) := by
    refine (List.perm_ext_iff_of_nodup ?_ List.nodup_range').mpr fun id => ?_
    · rw [List.nodup_iff_pairwise_ne, List.pairwise_map]
      exact db.sorted.imp fun hlt => ne_of_lt hlt
    · have hmem : id ∈ db.entries.map Prod.fst ↔ (db.find? id).isSome = true := by
        rw [List.mem_map, Option.isSome_iff_exists]
        constructor
        · rintro ⟨⟨k, v⟩, hentry, rfl⟩
          exact ⟨v, mem_entries_iff.mp hentry⟩
        · rintro ⟨v, hfind⟩
          exact ⟨(id, v), mem_entries_iff.mpr hfind, rfl⟩
      rw [hmem, h.isSome_iff, List.mem_range'_1]
      omega
  rw [CTokenFeeHistory.countRecords, ← List.length_map Prod.fst, hkeys.length_eq, List.length_range']

/-- **A distribution gets a number that is free**, the next one. -/
theorem Stores.recordFeeDistribution (h : Stores db l) (r : TypedFees) :
    Stores (CTokenFeeHistory.recordFeeDistribution db r.1) (l ++ [r]) := by
  intro id
  rw [CTokenFeeHistory.recordFeeDistribution, h.countRecords, find?_insert, h id]
  by_cases hid : id = l.length + 1
  · simp [hid]
  · by_cases h0 : id = 0
    · simp [h0]
    · rw [if_neg hid, if_neg h0, if_neg h0]
      by_cases hlt : id - 1 < l.length
      · rw [List.getElem?_append_left hlt]
      · rw [List.getElem?_eq_none (by omega), List.getElem?_eq_none (by simp; omega)]

theorem ByBlock.getElem?_filter (h : ByBlock l) (block : Int) (i : Nat) :
    (l.filter fun r => decide (r.1.block < block))[i]? = (l[i]?).filter fun r => decide (r.1.block < block) := by
  induction l generalizing i with
  | nil => rfl
  | cons r rest ih =>
    obtain ⟨hfirst, hrest⟩ := List.pairwise_cons.mp h
    by_cases hlt : r.1.block < block
    · cases i with
      | zero => simp [hlt, Option.filter]
      | succ i => simpa [hlt] using ih hrest i
    · have hnone : ∀ r' ∈ r :: rest, ¬ r'.1.block < block := by
        intro r' hmem
        rcases List.mem_cons.mp hmem with rfl | hmem
        · exact hlt
        · have := hfirst r' hmem
          omega
      have hempty : (r :: rest).filter (fun r => decide (r.1.block < block)) = [] := by
        rw [List.filter_eq_nil_iff]
        intro r' hmem
        simpa using hnone r' hmem
      rw [hempty, List.getElem?_nil]
      cases hi : (r :: rest)[i]? with
      | none => rfl
      | some r' => simp [Option.filter, hnone r' (List.mem_of_getElem? hi)]

theorem foldlM_rollBackOne {block : Int} {entries : List (Nat × List Char)} (db : CTokenFeeHistory)
    (h : ∀ e ∈ entries, ∃ r : TypedFees, e.2 = r.1.value) :
    ∃ gone : List (Nat × List Char), entries.foldlM (CTokenFeeHistory.rollBackOne block) db =
        some (gone.foldl (fun db e => db.erase e.1) db) ∧
      ∀ e, e ∈ gone ↔ e ∈ entries ∧ ∃ r : TypedFees, e.2 = r.1.value ∧ block ≤ r.1.block := by
  induction entries generalizing db with
  | nil => exact ⟨[], rfl, by simp⟩
  | cons e rest ih =>
    obtain ⟨r, hr⟩ := h e (.head _)
    have hblock : ∀ r' : TypedFees, e.2 = r'.1.value → r'.1.block = r.1.block := by
      intro r' hr'
      have hfields := splitFields_value r.2
      rw [← hr, hr', splitFields_value r'.2] at hfields
      have hatoi := congrArg atoi (List.cons.inj hfields).1
      rwa [atoi_intText, atoi_intText] at hatoi
    have hone : CTokenFeeHistory.rollBackOne block db e =
        some (if block ≤ r.1.block then db.erase e.1 else db) := by
      simp [CTokenFeeHistory.rollBackOne, hr, splitFields_value r.2,
        lexicalCast_intText r.2.block.1 r.2.block.2]
    have hrest := fun db => ih db fun x hx => h x (.tail _ hx)
    rw [List.foldlM_cons, hone]
    by_cases hle : block ≤ r.1.block
    · obtain ⟨gone, heq, hgone⟩ := hrest (db.erase e.1)
      refine ⟨e :: gone, by simpa [hle] using heq, fun x => ?_⟩
      rw [List.mem_cons, List.mem_cons, hgone]
      constructor
      · intro hx
        rcases hx with rfl | hx
        · exact ⟨.inl rfl, r, hr, hle⟩
        · exact ⟨.inr hx.1, hx.2⟩
      · intro hx
        rcases hx.1 with rfl | hmem
        · exact .inl rfl
        · exact .inr ⟨hmem, hx.2⟩
    · obtain ⟨gone, heq, hgone⟩ := hrest db
      refine ⟨gone, by simpa [hle] using heq, fun x => ?_⟩
      rw [List.mem_cons, hgone]
      constructor
      · intro hx
        exact ⟨.inr hx.1, hx.2⟩
      · rintro ⟨hmem, r', hr', hle'⟩
        rcases hmem with rfl | hmem
        · rw [hblock r' hr'] at hle'
          exact absurd hle' hle
        · exact ⟨hmem, r', hr', hle'⟩

end Stored

/-- **A rollback leaves the first distributions**, numbered without a gap. -/
theorem Stores.rollBackHistory {db : CTokenFeeHistory} {l : List TypedFees} (h : Stores db l) (hl : ByBlock l)
    (block : Int) : ∃ db', CTokenFeeHistory.rollBackHistory db block = some db' ∧
      Stores db' (l.filter fun r => decide (r.1.block < block)) := by
  have hvalue : ∀ e ∈ db.entries, ∃ r : TypedFees, e.2 = r.1.value := by
    intro e he
    have hfind := mem_entries_iff.mp he
    rw [h e.1] at hfind
    split_ifs at hfind
    obtain ⟨r, -, hr⟩ := Option.map_eq_some_iff.mp hfind
    exact ⟨r, hr.symm⟩
  obtain ⟨gone, hrun, hgone⟩ := @foldlM_rollBackOne block db.entries db hvalue
  refine ⟨_, hrun, fun id => ?_⟩
  rw [find?_foldl_erase, h id]
  by_cases h0 : id = 0
  · simp [h0]
  rw [if_neg h0, if_neg h0, hl.getElem?_filter]
  cases hr : l[id - 1]? with
  | none => simp
  | some r =>
    have hfind : db.find? id = some r.1.value := by rw [h id, if_neg h0, hr, Option.map_some]
    have hmem : id ∈ gone.map Prod.fst ↔ ¬ r.1.block < block := by
      rw [List.mem_map]
      constructor
      · rintro ⟨⟨k, v⟩, he, rfl⟩
        obtain ⟨hentry, r', hr', hle⟩ := (hgone _).mp he
        have hv := mem_entries_iff.mp hentry
        have hsame : r'.1.value = r.1.value := by
          rw [← hr']
          exact Option.some.inj (hv.symm.trans hfind)
        have hfields := splitFields_value r'.2
        rw [hsame, splitFields_value r.2] at hfields
        have hatoi := congrArg atoi (List.cons.inj hfields).1
        rw [atoi_intText, atoi_intText] at hatoi
        omega
      · intro hlt
        refine ⟨(id, r.1.value), (hgone _).mpr ⟨mem_entries_iff.mpr hfind, r, rfl, ?_⟩, rfl⟩
        exact Int.not_lt.mp hlt
    by_cases hlt : r.1.block < block
    · rw [if_neg fun hid => hmem.mp hid hlt]
      simp [Option.filter, hlt]
    · rw [if_pos (hmem.mpr hlt)]
      simp [Option.filter, hlt]

/-! ### Runs -/

/-- A distribution is recorded, or the chain goes back to a block. -/
inductive HistoryCall
  | record (r : TypedFees)
  | rollBack (block : Int)

def historyStep (db : CTokenFeeHistory) : HistoryCall → Option CTokenFeeHistory
  | .record r => some (CTokenFeeHistory.recordFeeDistribution db r.1)
  | .rollBack block => CTokenFeeHistory.rollBackHistory db block

/-- The distributions that were recorded and not rolled back. -/
def keptStep (l : List TypedFees) : HistoryCall → List TypedFees
  | .record r => l ++ [r]
  | .rollBack block => l.filter fun r => decide (r.1.block < block)

/-- Blocks do not decrease from `low` on, and start again at its block after a rollback. -/
def InOrder : Int → List HistoryCall → Prop
  | _, [] => True
  | low, .record r :: rest => low ≤ r.1.block ∧ InOrder r.1.block rest
  | _, .rollBack block :: rest => InOrder block rest

/-- No block is above `low`. -/
def UpTo (low : Int) (l : List TypedFees) : Prop := ∀ r ∈ l, r.1.block ≤ low

theorem history_run {calls : List HistoryCall} {low : Int} {db : CTokenFeeHistory} {l : List TypedFees}
    (hcalls : InOrder low calls) (h : Stores db l) (hl : ByBlock l) (hlow : UpTo low l) :
    ∃ db', run historyStep db calls = some db' ∧ Stores db' (calls.foldl keptStep l) ∧
      ByBlock (calls.foldl keptStep l) := by
  induction calls generalizing low db l with
  | nil => exact ⟨db, rfl, h, hl⟩
  | cons c rest ih =>
    cases c with
    | record r =>
      have hl' : ByBlock (l ++ [r]) := by
        refine List.pairwise_append.mpr ⟨hl, List.pairwise_singleton _ _, fun r' hr' r'' hr'' => ?_⟩
        rw [List.mem_singleton.mp hr'']
        exact le_trans (hlow r' hr') hcalls.1
      have hlow' : UpTo r.1.block (l ++ [r]) := by
        intro r' hr'
        rcases List.mem_append.mp hr' with hr' | hr'
        · exact le_trans (hlow r' hr') hcalls.1
        · rw [List.mem_singleton.mp hr']
      rw [run_cons]
      exact ih hcalls.2 (h.recordFeeDistribution r) hl' hlow'
    | rollBack block =>
      obtain ⟨db', hstep, h'⟩ := h.rollBackHistory hl block
      have hlow' : UpTo block (l.filter fun r => decide (r.1.block < block)) := by
        intro r hr
        have hlt := of_decide_eq_true (List.mem_filter.mp hr).2
        omega
      obtain ⟨db'', hrun, hdb''⟩ := ih hcalls h' (hl.filter _) hlow'
      refine ⟨db'', ?_, hdb''⟩
      rw [run_cons, historyStep, hstep]
      exact hrun

theorem Stores.read {db : CTokenFeeHistory} {l : List TypedFees} (h : Stores db l) {i : Nat} {r : TypedFees}
    (hi : l[i]? = some r) :
    CTokenFeeHistory.getDistributionData db (i + 1) = some (some (r.1.propertyId, r.1.block, r.1.total)) ∧
      CTokenFeeHistory.getFeeDistribution db (i + 1) = some r.1.feeRecipients := by
  have hfind : db.find? (i + 1) = some r.1.value := by
    rw [h (i + 1), if_neg (Nat.succ_ne_zero i), Nat.add_sub_cancel, hi, Option.map_some]
  have hlast : ∀ n : Nat, n < 4294967296 → (n : Int) ≤ 4294967295 := by
    intro n hn
    omega
  have hblock := lexicalCast_intText r.2.block.1 r.2.block.2
  have htotal := lexicalCast_intText r.2.total.1 r.2.total.2
  have hid := lexicalCast_intText (Int.natCast_nonneg r.1.propertyId) (hlast _ r.2.propertyId)
  constructor
  · simp [CTokenFeeHistory.getDistributionData, hfind, splitFields_value r.2, hblock, htotal, hid]
  · simpa [CTokenFeeHistory.getFeeDistribution, hfind, splitFields_value r.2] using readItems_eq r.2

/-- **No distribution is ever overwritten**: at the end of every sequence of calls the records are
numbered from 1 on, by block; the number that the next one gets is free; and under each number
stands what was recorded. -/
theorem fee_history_kept (calls : List HistoryCall) (hcalls : InOrder (-2147483648) calls) :
    ∃ db, run historyStep ∅ calls = some db ∧
      (∀ id, db.contains id = true ↔ 1 ≤ id ∧ id ≤ (calls.foldl keptStep []).length) ∧
      ByBlock (calls.foldl keptStep []) ∧
      db.contains (CTokenFeeHistory.countRecords db + 1) = false ∧
      ∀ i r, (calls.foldl keptStep [])[i]? = some r →
        CTokenFeeHistory.getDistributionData db (i + 1) = some (some (r.1.propertyId, r.1.block, r.1.total)) ∧
        CTokenFeeHistory.getFeeDistribution db (i + 1) = some r.1.feeRecipients := by
  have hnone : Stores ∅ [] := by
    intro id
    simp
  obtain ⟨db, hrun, hstores, hsorted⟩ := history_run hcalls hnone List.Pairwise.nil fun r hr => absurd hr List.not_mem_nil
  refine ⟨db, hrun, hstores.isSome_iff, hsorted, ?_, fun i r hi => hstores.read hi⟩
  rw [hstores.countRecords, contains, hstores, if_neg (Nat.succ_ne_zero _), Nat.add_sub_cancel,
    List.getElem?_eq_none (le_refl _)]
  rfl

/-- A distribution to one owner. -/
def oneOwner (block amount : Int) : FeeRecord :=
  ⟨3, block, amount, (∅ : FeeRecipients).insert (toLex ("Rowner", amount)) ()⟩

theorem oneOwner_typed {block amount : Int} (hblock : InI32 block) (hamount : InI64 amount) :
    (oneOwner block amount).Typed := by
  have hproperty : 3 < 4294967296 := by decide
  have hword : IsWord "Rowner".toList := by
    have hletters : "Rowner".toList = ['R', 'o', 'w', 'n', 'e', 'r'] := by simp
    rw [hletters]
    decide
  refine ⟨hproperty, hblock, hamount, fun e he => ?_⟩
  rw [List.mem_singleton.mp he]
  exact ⟨hword, hamount⟩

/-- Distributions at blocks 5 and 7, back to block 6, and one at block 6. -/
def reorgCalls : List HistoryCall :=
  [.record ⟨oneOwner 5 10, oneOwner_typed (by decide) (by decide)⟩,
    .record ⟨oneOwner 7 11, oneOwner_typed (by decide) (by decide)⟩, .rollBack 6,
    .record ⟨oneOwner 6 12, oneOwner_typed (by decide) (by decide)⟩]

theorem fee_history_kept_reorg :
    ∃ db, run historyStep ∅ reorgCalls = some db ∧
      CTokenFeeHistory.getDistributionData db 1 = some (some (3, 5, 10)) ∧
      CTokenFeeHistory.getDistributionData db 2 = some (some (3, 6, 12)) := by
  obtain ⟨db, hrun, -, -, -, hread⟩ := fee_history_kept reorgCalls
    ⟨by decide, by decide, by decide, trivial⟩
  exact ⟨db, hrun, (hread 0 _ rfl).1, (hread 1 _ rfl).1⟩

end Rapids.Token
