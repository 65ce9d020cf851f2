import Rapids.Lib.Text
import Rapids.Token.State

/-!
# Rapids.Token.TxList

**The transactions database** (`CMPTxList`, `dbtxlist.cpp`), and its rollback.

A transaction has a **master record**, with its block in the second field, and there may be
sub-records beside it: one for each payment on the distributed exchange, one for each order that
it has cancelled, one for each property that it has sent on. A sub-record has no block. It
belongs to the block of its master record.

A rollback takes the second field of every record for a block. In a sub-record that is the
buyer of a payment, the property of a cancelled order or the amount of what was sent, read as
a number as far as there are digits. So a rollback is exact if and only if that number lies in
the range of blocks where the master's block does (`is_mp_in_block_range_exact_iff`).
-/

namespace Rapids.Token.TxList

open Rapids.Lib OrdMap

/-! ### Records -/

/-- A key: a transaction, `-C` behind it for what it cancels, and the number of a sub-record.
Transactions are written with 64 hexadecimal digits, so different keys are different texts. -/
structure TxKey where
  txid : Hash
  cancels : Bool
  sub : Option Int
  deriving DecidableEq, Repr

instance : LinearOrder TxKey :=
  LinearOrder.lift' (fun k => (toLex (k.txid, toLex (k.cancels, k.sub)) : Hash ×ₗ Bool ×ₗ WithBot Int)) fun a b h => by
    obtain ⟨_, _, _⟩ := a
    obtain ⟨_, _, _⟩ := b
    obtain ⟨h1, h2⟩ := Prod.mk.inj (toLex.injective h)
    obtain ⟨h3, h4⟩ := Prod.mk.inj (toLex.injective h2)
    simp_all

/-- The key of the master record. -/
def TxKey.master (k : TxKey) : TxKey := { k with sub := none }

/-- What is recorded under a key. -/
inductive TxRecord
  | master (fValid : Bool) (nBlock : Int) (type : Nat) (nValue : Nat)
  | payment (vout : Nat) (buyer seller : Address) (propertyId : PropertyId) (nValue : Nat)
  | cancelled (txidSub : Hash) (propertyId : PropertyId) (nValue : Nat)
  | sentAll (propertyId : PropertyId) (nValue : Int)
  deriving DecidableEq

namespace TxRecord

/-- The block of a master record. -/
def block? : TxRecord → Option Int
  | .master _ nBlock _ _ => some nBlock
  | _ => none

def fields : TxRecord → List (List Char)
  | .master fValid nBlock type nValue =>
    [intText fValid.toNat, intText nBlock, intText type, intText nValue]
  | .payment vout buyer seller propertyId nValue =>
    [intText vout, buyer.toList, seller.toList, intText propertyId, intText nValue]
  | .cancelled txidSub propertyId nValue => [hexText 64 txidSub, intText propertyId, intText nValue]
  | .sentAll propertyId nValue => [intText propertyId, intText nValue]

/-- The value that is written. -/
def text (r : TxRecord) : List Char := joinFields ':' r.fields

/-- Numbers fit their types, and addresses are letters and digits. -/
def Typed : TxRecord → Prop
  | .master _ nBlock _ _ => InI32 nBlock
  | .payment _ buyer seller _ _ => IsWord buyer.toList ∧ IsWord seller.toList
  | .cancelled _ propertyId _ => propertyId < 4294967296
  | .sentAll _ nValue => InI64 nValue

instance (r : TxRecord) : Decidable r.Typed :=
  match r with
  | .master _ nBlock _ _ => inferInstanceAs (Decidable (InI32 nBlock))
  | .payment _ buyer seller _ _ => inferInstanceAs (Decidable (IsWord buyer.toList ∧ IsWord seller.toList))
  | .cancelled _ propertyId _ => inferInstanceAs (Decidable (propertyId < 4294967296))
  | .sentAll _ nValue => inferInstanceAs (Decidable (InI64 nValue))

/-- The number in the second field: a block in a master record only. -/
def secondNumber : TxRecord → Int
  | .master _ nBlock _ _ => nBlock
  | .payment _ buyer _ _ _ => atoi32 buyer.toList
  | .cancelled _ propertyId _ => toI32 propertyId
  | .sentAll _ nValue => toI32 nValue

theorem splitFields_text {r : TxRecord} (h : r.Typed) : splitFields ':' r.text = r.fields := by
  have hint : ∀ i, IsField ':' (intText i) := intText_isField (by decide) (by decide)
  have hword : ∀ {t : List Char}, IsWord t → IsField ':' t := fun ht => ht.isField (by decide)
  refine splitFields_joinFields (by cases r <;> exact List.cons_ne_nil _ _) fun field hfield => ?_
  cases r with
  | master fValid nBlock type nValue =>
    simp only [fields, List.mem_cons, List.not_mem_nil, or_false] at hfield
    rcases hfield with rfl | rfl | rfl | rfl
    all_goals exact hint _
  | payment vout buyer seller propertyId nValue =>
    simp only [fields, List.mem_cons, List.not_mem_nil, or_false] at hfield
    rcases hfield with rfl | rfl | rfl | rfl | rfl
    · exact hint _
    · exact hword h.1
    · exact hword h.2
    all_goals exact hint _
  | cancelled txidSub propertyId nValue =>
    simp only [fields, List.mem_cons, List.not_mem_nil, or_false] at hfield
    rcases hfield with rfl | rfl | rfl
    · exact hword (hexText_isWord 63 txidSub)
    all_goals exact hint _
  | sentAll propertyId nValue =>
    simp only [fields, List.mem_cons, List.not_mem_nil, or_false] at hfield
    rcases hfield with rfl | rfl
    all_goals exact hint _

end TxRecord

/-- A record as the callers of the database make it. -/
abbrev TypedRecord := { r : TxRecord // r.Typed }

/-- The database: texts by key. What is done with it does not depend on the order of its keys. -/
abbrev TxDB := OrdMap TxKey (List Char)

variable (calls : List TypedCall) (m : OrdMap TxKey TypedRecord)

/-- Records as the database has them. -/
def txTexts : TxDB := m.mapVal fun r => r.1.text

/-- The records of one key are its own: master records stand under master keys. -/
def MasterKeys : Prop :=
  ∀ k r, m.find? k = some r → (r.1.block?.isSome = true ↔ k.sub = none)

/-! ### Recording -/

/-- The arguments of the recording functions. -/
inductive TxListCall
  | recordTX (txid : Hash) (fValid : Bool) (nBlock : Int) (type nValue : Nat)
  | recordPaymentTX (txid : Hash) (fValid : Bool) (nBlock : Int) (vout : Nat) (propertyId : PropertyId)
      (nValue : Nat) (buyer seller : Address)
  | recordMetaDExCancelTX (txidMaster txidSub : Hash) (fValid : Bool) (nBlock : Int)
      (propertyId : PropertyId) (nValue : Nat)
  | recordSendAllSubRecord (txid : Hash) (subRecordNumber : Int) (propertyId : PropertyId) (nValue : Int)
  deriving DecidableEq

/-- The count in the fourth field of a master record, 0 if there is none. -/
def existingNumber (db : TxDB) (key : TxKey) : Nat :=
  match db.find? key with
  | none => 0
  | some strValue =>
    let vstr := splitFields ':' strValue
    if 4 ≤ vstr.length then toU64 (atoi32 (vstr.getD 3 [])) else 0

/-- A number of 32 bits, one above a count. -/
def nextNumber (existing : Nat) : Nat := (existing + 1) % 4294967296

section Record

variable (db : TxDB)

def recordTX (txid : Hash) (fValid : Bool) (nBlock : Int) (type nValue : Nat) : TxDB :=
  db.insert ⟨txid, false, none⟩ (TxRecord.master fValid nBlock type nValue).text

def recordPaymentTX (txid : Hash) (fValid : Bool) (nBlock : Int) (vout : Nat) (propertyId : PropertyId)
    (nValue : Nat) (buyer seller : Address) : TxDB :=
  let key : TxKey := ⟨txid, false, none⟩
  let existingNumberOfPayments := existingNumber db key
  let numberOfPayments := (existingNumberOfPayments + 1) % 18446744073709551616
  let paymentNumber := nextNumber existingNumberOfPayments
  (db.insert key (TxRecord.master fValid nBlock 99999999 numberOfPayments).text).insert
    { key with sub := some paymentNumber } (TxRecord.payment vout buyer seller propertyId nValue).text

def recordMetaDExCancelTX (txidMaster txidSub : Hash) (fValid : Bool) (nBlock : Int)
    (propertyId : PropertyId) (nValue : Nat) : TxDB :=
  let key : TxKey := ⟨txidMaster, true, none⟩
  let refNumber := nextNumber (existingNumber db key)
  (db.insert key (TxRecord.master fValid nBlock 99992104 refNumber).text).insert
    { key with sub := some refNumber } (TxRecord.cancelled txidSub propertyId nValue).text

def recordSendAllSubRecord (txid : Hash) (subRecordNumber : Int) (propertyId : PropertyId) (nValue : Int) :
    TxDB :=
  db.insert ⟨txid, false, some subRecordNumber⟩ (TxRecord.sentAll propertyId nValue).text

end Record

namespace TxListCall

def perform (db : TxDB) : TxListCall → TxDB
  | .recordTX txid fValid nBlock type nValue => TxList.recordTX db txid fValid nBlock type nValue
  | .recordPaymentTX txid fValid nBlock vout propertyId nValue buyer seller =>
    TxList.recordPaymentTX db txid fValid nBlock vout propertyId nValue buyer seller
  | .recordMetaDExCancelTX txidMaster txidSub fValid nBlock propertyId nValue =>
    TxList.recordMetaDExCancelTX db txidMaster txidSub fValid nBlock propertyId nValue
  | .recordSendAllSubRecord txid subRecordNumber propertyId nValue =>
    TxList.recordSendAllSubRecord db txid subRecordNumber propertyId nValue

/-- Numbers fit their types, and addresses are letters and digits. -/
def Typed : TxListCall → Prop
  | .recordTX _ _ nBlock _ _ => InI32 nBlock
  | .recordPaymentTX _ _ nBlock _ _ _ buyer seller =>
    InI32 nBlock ∧ IsWord buyer.toList ∧ IsWord seller.toList
  | .recordMetaDExCancelTX _ _ _ nBlock propertyId _ => InI32 nBlock ∧ propertyId < 4294967296
  | .recordSendAllSubRecord _ _ _ nValue => InI64 nValue

instance (c : TxListCall) : Decidable c.Typed :=
  match c with
  | .recordTX _ _ nBlock _ _ => inferInstanceAs (Decidable (InI32 nBlock))
  | .recordPaymentTX _ _ nBlock _ _ _ buyer seller =>
    inferInstanceAs (Decidable (InI32 nBlock ∧ IsWord buyer.toList ∧ IsWord seller.toList))
  | .recordMetaDExCancelTX _ _ _ nBlock propertyId _ =>
    inferInstanceAs (Decidable (InI32 nBlock ∧ propertyId < 4294967296))
  | .recordSendAllSubRecord _ _ _ nValue => inferInstanceAs (Decidable (InI64 nValue))

end TxListCall

/-- A call with arguments of the types that the functions have. -/
abbrev TypedCall := { c : TxListCall // c.Typed }

/-- The database after a sequence of calls. -/
def txDB : TxDB := calls.foldl (fun db c => c.1.perform db) ∅

/-- A call, on records. -/
def storeCall : TypedCall → OrdMap TxKey TypedRecord
  | ⟨.recordTX txid fValid nBlock type nValue, h⟩ =>
    m.insert ⟨txid, false, none⟩ ⟨.master fValid nBlock type nValue, h⟩
  | ⟨.recordPaymentTX txid fValid nBlock vout propertyId nValue buyer seller, h⟩ =>
    let existing := existingNumber (txTexts m) ⟨txid, false, none⟩
    (m.insert ⟨txid, false, none⟩
        ⟨.master fValid nBlock 99999999 ((existing + 1) % 18446744073709551616), h.1⟩).insert
      ⟨txid, false, some (nextNumber existing)⟩ ⟨.payment vout buyer seller propertyId nValue, h.2⟩
  | ⟨.recordMetaDExCancelTX txidMaster txidSub fValid nBlock propertyId nValue, h⟩ =>
    let refNumber := nextNumber (existingNumber (txTexts m) ⟨txidMaster, true, none⟩)
    (m.insert ⟨txidMaster, true, none⟩ ⟨.master fValid nBlock 99992104 refNumber, h.1⟩).insert
      ⟨txidMaster, true, some refNumber⟩ ⟨.cancelled txidSub propertyId nValue, h.2⟩
  | ⟨.recordSendAllSubRecord txid subRecordNumber propertyId nValue, h⟩ =>
    m.insert ⟨txid, false, some subRecordNumber⟩ ⟨.sentAll propertyId nValue, h⟩

/-- The records that stand in the database: the last one of each key. -/
def storedTx : OrdMap TxKey TypedRecord := calls.foldl storeCall ∅

theorem txTexts_storeCall (c : TypedCall) :
    txTexts (storeCall m c) = c.1.perform (txTexts m) := by
  obtain ⟨c, h⟩ := c
  cases c with
  | recordTX => simp only [storeCall, txTexts, mapVal_insert]; rfl
  | recordPaymentTX => simp only [storeCall, txTexts, mapVal_insert]; rfl
  | recordMetaDExCancelTX => simp only [storeCall, txTexts, mapVal_insert]; rfl
  | recordSendAllSubRecord => simp only [storeCall, txTexts, mapVal_insert]; rfl

/-- **The database holds the texts of the records.** -/
theorem txDB_eq : txDB calls = txTexts (storedTx calls) := by
  have hfold : ∀ m : OrdMap TxKey TypedRecord,
      calls.foldl (fun db c => c.1.perform db) (txTexts m) = txTexts (calls.foldl storeCall m) := by
    induction calls with
    | nil => intro m; rfl
    | cons c rest ih =>
      intro m
      rw [List.foldl_cons, List.foldl_cons, ← ih, txTexts_storeCall]
  exact hfold ∅

theorem MasterKeys.insert {m : OrdMap TxKey TypedRecord} (hm : MasterKeys m) {k : TxKey} {r : TypedRecord}
    (h : r.1.block?.isSome = true ↔ k.sub = none) : MasterKeys (m.insert k r) := by
  intro k' r' hfind
  rw [find?_insert] at hfind
  split_ifs at hfind with hk
  · cases hfind
    rwa [hk]
  · exact hm k' r' hfind

theorem storeCall_masterKeys {m : OrdMap TxKey TypedRecord} (hm : MasterKeys m) (c : TypedCall) :
    MasterKeys (storeCall m c) := by
  obtain ⟨c, h⟩ := c
  cases c with
  | recordTX => exact hm.insert (by simp [TxRecord.block?])
  | recordPaymentTX =>
    exact (hm.insert (by simp [TxRecord.block?])).insert (by simp [TxRecord.block?])
  | recordMetaDExCancelTX =>
    exact (hm.insert (by simp [TxRecord.block?])).insert (by simp [TxRecord.block?])
  | recordSendAllSubRecord => exact hm.insert (by simp [TxRecord.block?])

theorem storedTx_masterKeys : MasterKeys (storedTx calls) := by
  have hfold : ∀ m, MasterKeys m → MasterKeys (calls.foldl storeCall m) := by
    induction calls with
    | nil => intro m hm; exact hm
    | cons c rest ih =>
      intro m hm
      exact ih _ (storeCall_masterKeys hm c)
  exact hfold ∅ (by intro k r h; simp at h)

/-! ### The rollback -/

/-- Is the second field a number of the range? -/
def foundInRange (starting_block ending_block : Int) (strvalue : List Char) : Bool :=
  let vstr := splitFields ':' strvalue
  let block := atoi32 (vstr.getD 1 [])
  decide (2 ≤ vstr.length ∧ starting_block ≤ block ∧ block ≤ ending_block)

/-- The loop of `isMPinBlockRange`, over what the database held when it began. -/
def blockRangeLoop (starting_block ending_block : Int) (bDeleteFound : Bool) :
    List (TxKey × List Char) → Nat × TxDB → Nat × TxDB
  | [], found => found
  | (skey, svalue) :: rest, (n_found, db) =>
    if foundInRange starting_block ending_block svalue then
      blockRangeLoop starting_block ending_block bDeleteFound rest
        (n_found + 1, if bDeleteFound then db.erase skey else db)
    else blockRangeLoop starting_block ending_block bDeleteFound rest (n_found, db)

/-- `isMPinBlockRange`: was anything found, and the database. -/
def isMPinBlockRange (db : TxDB) (starting_block ending_block : Int) (bDeleteFound : Bool) : Bool × TxDB :=
  let (n_found, db) := blockRangeLoop starting_block ending_block bDeleteFound db.entries (0, db)
  (decide (n_found ≠ 0), db)

section Range

variable {a b : Int}

theorem blockRangeLoop_eq (l : List (TxKey × List Char)) (n : Nat) (db : TxDB) :
    blockRangeLoop a b true l (n, db) =
      (n + (l.filter fun e => foundInRange a b e.2).length,
        (l.filter fun e => foundInRange a b e.2).foldl (fun db e => db.erase e.1) db) := by
  induction l generalizing n db with
  | nil => rfl
  | cons e rest ih =>
    rw [blockRangeLoop]
    by_cases h : foundInRange a b e.2 = true
    · rw [if_pos h, ih]
      simp [h, Nat.add_assoc, Nat.add_comm 1]
    · rw [if_neg h, ih]
      simp [h]

theorem isMPinBlockRange_eq (db : TxDB) :
    (isMPinBlockRange db a b true).2 = db.filter fun e => !foundInRange a b e.2 := by
  refine ext_find? fun k => ?_
  have hmem : k ∈ (db.entries.filter fun e => foundInRange a b e.2).map Prod.fst ↔
      ∃ v, db.find? k = some v ∧ foundInRange a b v = true := by
    simp only [List.mem_map, List.mem_filter]
    constructor
    · rintro ⟨⟨k', v⟩, ⟨hentry, hfound⟩, rfl⟩
      exact ⟨v, mem_entries_iff.mp hentry, hfound⟩
    · rintro ⟨v, hfind, hfound⟩
      exact ⟨(k, v), ⟨mem_entries_iff.mpr hfind, hfound⟩, rfl⟩
  rw [isMPinBlockRange, blockRangeLoop_eq, find?_foldl_erase, find?_filter]
  simp only [hmem]
  cases hfind : db.find? k with
  | none => simp
  | some v => cases hfound : foundInRange a b v <;> simp [hfound, Option.filter]

theorem inI64_of_word {n : Nat} (h : n < 4294967296) : InI64 n := by
  constructor
  · rw [i64Min]
    omega
  · rw [i64Max]
    omega

theorem foundInRange_text {r : TxRecord} (h : r.Typed) :
    foundInRange a b r.text = decide (a ≤ r.secondNumber ∧ r.secondNumber ≤ b) := by
  rw [Bool.eq_iff_iff, decide_eq_true_iff, foundInRange, TxRecord.splitFields_text h]
  cases r with
  | master fValid nBlock type nValue =>
    simp [TxRecord.fields, TxRecord.secondNumber, atoi32_intText_of_inI32 h]
  | payment vout buyer seller propertyId nValue =>
    simp [TxRecord.fields, TxRecord.secondNumber]
  | cancelled txidSub propertyId nValue =>
    simp [TxRecord.fields, TxRecord.secondNumber, atoi32_intText (inI64_of_word h)]
  | sentAll propertyId nValue =>
    simp [TxRecord.fields, TxRecord.secondNumber, atoi32_intText h]

end Range

/-! ### When it is exact -/

/-- The block of the transaction that a key belongs to: the one of its master record. -/
def blockOfTx (k : TxKey) : Option Int :=
  (m.find? k.master).bind fun r => r.1.block?

/-- Does a key belong to a transaction that was recorded at a block of the range? -/
def recordedIn (a b : Int) (m : OrdMap TxKey TypedRecord) (k : TxKey) : Bool :=
  (blockOfTx m k).any fun block => decide (a ≤ block ∧ block ≤ b)

/-- The number in the second field of a sub-record lies in the range if and only if the block
of its transaction does. -/
def SubRecordsAgree (a b : Int) (m : OrdMap TxKey TypedRecord) : Prop :=
  ∀ k r, m.find? k = some r → k.sub ≠ none →
    (a ≤ r.1.secondNumber ∧ r.1.secondNumber ≤ b ↔ recordedIn a b m k = true)

theorem recordedIn_master {a b : Int} {m : OrdMap TxKey TypedRecord} (hm : MasterKeys m) {k : TxKey}
    {r : TypedRecord} (hfind : m.find? k = some r) (hsub : k.sub = none) :
    a ≤ r.1.secondNumber ∧ r.1.secondNumber ≤ b ↔ recordedIn a b m k = true := by
  have hself : k.master = k := by
    obtain ⟨txid, cancels, sub⟩ := k
    simp only at hsub
    simp [TxKey.master, hsub]
  have hblock := (hm k r hfind).mpr hsub
  rw [recordedIn, blockOfTx, hself, hfind, Option.bind_some]
  obtain ⟨r, hr⟩ := r
  cases r with
  | master fValid nBlock type nValue => simp [TxRecord.secondNumber, TxRecord.block?]
  | payment | cancelled | sentAll => simp [TxRecord.block?] at hblock

/-- Two selections of records leave the same texts if they agree on every record. -/
theorem txTexts_filter_eq_iff {m : OrdMap TxKey TypedRecord} {f g : TxKey × TypedRecord → Bool} :
    txTexts (m.filter f) = txTexts (m.filter g) ↔ ∀ k r, m.find? k = some r → f (k, r) = g (k, r) := by
  have hfind : ∀ (f : TxKey × TypedRecord → Bool) k,
      (txTexts (m.filter f)).find? k = ((m.find? k).filter fun r => f (k, r)).map fun r => r.1.text := by
    intro f k
    rw [txTexts, find?_mapVal, find?_filter]
  constructor
  · intro h k r hr
    have hk : (txTexts (m.filter f)).find? k = (txTexts (m.filter g)).find? k := by rw [h]
    rw [hfind, hfind, hr] at hk
    cases hf : f (k, r) <;> cases hg : g (k, r) <;> simp [hf, hg, Option.filter] at hk ⊢
  · intro h
    refine ext_find? fun k => ?_
    rw [hfind, hfind]
    cases hr : m.find? k with
    | none => rfl
    | some r => simp [Option.filter, h k r hr]

/-- **A rollback removes exactly the records of transactions of its blocks** if the second fields
of sub-records agree with the blocks of their transactions, and only then. -/
theorem is_mp_in_block_range_exact_iff (calls : List TypedCall) (a b : Int) :
    (isMPinBlockRange (txDB calls) a b true).2 =
        txTexts ((storedTx calls).filter fun e => !recordedIn a b (storedTx calls) e.1) ↔
      SubRecordsAgree a b (storedTx calls) := by
  have hmaster := storedTx_masterKeys calls
  rw [txDB_eq]
  generalize storedTx calls = m at hmaster ⊢
  have hkept : (isMPinBlockRange (txTexts m) a b true).2 =
      txTexts (m.filter fun e => !foundInRange a b e.2.1.text) := by
    rw [isMPinBlockRange_eq]
    refine ext_find? fun k => ?_
    rw [find?_filter, txTexts, txTexts, find?_mapVal, find?_mapVal, find?_filter]
    cases m.find? k with
    | none => rfl
    | some r => cases h : foundInRange a b r.1.text <;> simp [h, Option.filter]
  rw [hkept, txTexts_filter_eq_iff]
  -- one record: it is found if and only if its number lies in the range
  have hone : ∀ (k : TxKey) (r : TypedRecord), ((!foundInRange a b r.1.text) = !recordedIn a b m k) ↔
      (a ≤ r.1.secondNumber ∧ r.1.secondNumber ≤ b ↔ recordedIn a b m k = true) := by
    intro k r
    rw [foundInRange_text r.2, Bool.not_inj_iff, Bool.eq_iff_iff, decide_eq_true_iff]
  constructor
  · intro h k r hfind _
    exact (hone k r).mp (h k r hfind)
  · intro h k r hfind
    refine (hone k r).mpr ?_
    by_cases hsub : k.sub = none
    · exact recordedIn_master hmaster hfind hsub
    · exact h k r hfind hsub

/-- One payment, of block 5. -/
def onePayment : List TypedCall :=
  [⟨.recordPaymentTX 1 true 5 0 3 100 "Rbuyer" "Rseller", by
    have hbuyer : "Rbuyer".toList = ['R', 'b', 'u', 'y', 'e', 'r'] := by simp
    have hseller : "Rseller".toList = ['R', 's', 'e', 'l', 'l', 'e', 'r'] := by simp
    refine ⟨by decide, ?_, ?_⟩
    · rw [hbuyer]
      decide
    · rw [hseller]
      decide⟩]

/-- Going back to block 5 removes the master record of the payment, and leaves the payment. -/
theorem payment_record_stays :
    (isMPinBlockRange (txDB onePayment) 5 9 true).2.contains ⟨1, false, none⟩ = false ∧
    (isMPinBlockRange (txDB onePayment) 5 9 true).2.contains ⟨1, false, some 1⟩ = true ∧
    (isMPinBlockRange (txDB onePayment) 5 9 true).2 ≠
      txTexts ((storedTx onePayment).filter fun e => !recordedIn 5 9 (storedTx onePayment) e.1) := by
  have hkept : (isMPinBlockRange (txDB onePayment) 5 9 true).2.contains ⟨1, false, some 1⟩ = true := by
    decide +kernel
  refine ⟨by decide +kernel, hkept, fun heq => ?_⟩
  rw [heq] at hkept
  exact absurd hkept (by decide +kernel)

end Rapids.Token.TxList
