import Rapids.Token.Features

/-!
# Rapids.Token.SpRollback

**Rolling a block out of the property database** (`CMPSPInfo::popBlock`).

A block writes the database through `putSP` and `updateSP`. `popBlock` finds
the entries the block wrote last by their update hash. An entry that names the
block as its creation is deleted with the two index records it mentions; any
other is replaced by the record that `updateSP` set aside under the block's
hash and the property.

That record is **one level deep**: each update of a property in the block sets
aside the entry the previous update wrote. `popBlock_restores_iff` says exactly
which databases and call sequences come back, in terms of the entries written
under each property (`written`) and the index records made (`registered`).
-/

namespace Rapids.Token

open Rapids.Lib OrdMap

variable {h : Hash} {s : State} {p : PropertyId} {calls : List SpCall}

/-! ### Removing a block -/

/-- The traversal of `popBlock`. Reads go to the database `sp`, writes to the
batch that is committed at the end; the batch has at most one write for each
entry, so the order of the traversal does not show. -/
def popEntries (sp : CMPSPInfo) (blockHash : Hash) :
    List (PropertyId × SPEntry) → Int → CMPSPInfo → Int × CMPSPInfo
  | [], remainingSPs, batch => (remainingSPs, batch)
  | (p, info) :: rest, remainingSPs, batch =>
    if info.updateBlock = blockHash then
      if info.updateBlock = info.creationBlock then
        popEntries sp blockHash rest remainingSPs { batch with
          entries := batch.entries.erase p
          txIndex := batch.txIndex.erase info.txid
          tickerIndex := batch.tickerIndex.erase info.ticker }
      else
        match sp.prevEntries.find? (toLex (info.updateBlock, p)) with
        | some prev =>
          popEntries sp blockHash rest (remainingSPs + 1) { batch with
            entries := batch.entries.insert p prev
            prevEntries := batch.prevEntries.erase (toLex (info.updateBlock, p)) }
        -- the batch is dropped, and the caller reparses
        | none => (-3, sp)
    else popEntries sp blockHash rest (remainingSPs + 1) batch

/-- Undo what a block wrote: the number of properties left, or a negative code.
Entries always deserialize and the commit always succeeds. -/
def popBlock (s : State) (blockHash : Hash) : Int × State :=
  let r := popEntries s.sp blockHash s.sp.entries.entries 0 s.sp
  (r.1, { s with sp := r.2 })

/-! ### The calls of a block -/

/-- A write to the property database. -/
inductive SpCall
  | put (ecosystem : Nat) (info : SPEntry)
  | update (p : PropertyId) (info : SPEntry)

/-- The entry a call carries. -/
def SpCall.info : SpCall → SPEntry
  | .put _ info => info
  | .update _ info => info

/-- Perform a call; an update of a reserved property changes nothing. -/
def SpCall.perform (s : State) : SpCall → State
  | .put ecosystem info => (putSP s ecosystem info).2
  | .update p info => (updateSP s p info).getD s

/-- The calls of a block, in order. -/
def performAll (s : State) (calls : List SpCall) : State :=
  calls.foldl SpCall.perform s

/-- Does the call carry the hashes that block `h` writes? -/
def SpCall.OfBlock (h : Hash) : SpCall → Prop
  | .put _ info => info.updateBlock = h ∧ info.creationBlock = h
  | .update _ info => info.updateBlock = h

/-- The identifier a call writes under: a new property gets the next one of its
ecosystem, and the reserved ones are never updated. -/
def SpCall.target (s : State) : SpCall → Option PropertyId
  | .put ecosystem _ => some (peekNextSPID s ecosystem)
  | .update p _ => if p = propertyMSC ∨ p = propertyTMSC then none else some p

/-- The entries that calls write under a property, in order. -/
def written (p : PropertyId) : State → List SpCall → List SPEntry
  | _, [] => []
  | s, c :: rest =>
    (if c.target s = some p then [c.info] else []) ++ written p (c.perform s) rest

/-- The identifier a call stores in the index of field `key` under `x`: only new
properties are indexed. -/
def SpCall.indexes {κ : Type} [DecidableEq κ] (key : SPEntry → κ) (x : κ) (s : State) :
    SpCall → Option PropertyId
  | .put ecosystem info => if key info = x then some (peekNextSPID s ecosystem) else none
  | .update _ _ => none

/-- The identifier the calls leave in the index of field `key` under `x`, if they
store one. -/
def registered {κ : Type} [DecidableEq κ] (key : SPEntry → κ) (x : κ) :
    State → List SpCall → Option PropertyId
  | _, [] => none
  | s, c :: rest => (registered key x (c.perform s) rest).or (c.indexes key x s)

/-! ### When a block comes out again -/

/-- An entry that block `h` updated last and did not create. -/
def SPEntry.UpdatedBy (h : Hash) (e : SPEntry) : Prop := e.updateBlock = h ∧ e.creationBlock ≠ h

/-- An entry that block `h` created and updated last. -/
def SPEntry.CreatedBy (h : Hash) (e : SPEntry) : Prop := e.updateBlock = h ∧ e.creationBlock = h

instance (h : Hash) (e : SPEntry) : Decidable (e.CreatedBy h) :=
  inferInstanceAs (Decidable (_ ∧ _))

/-- Does removing block `h` bring back what was stored under one property? `old`
is what was stored, `aside` the record already set aside for the block, and
`ws` what the block wrote.

An untouched entry must not be one that `h` wrote. A new property must end as
one that `h` created. A property that existed must not, and the entry held just
before the last write must be the old one: with two updates the second must
find what the first one found. -/
def EntryRestorable (h : Hash) (old aside : Option SPEntry) (ws : List SPEntry) : Prop :=
  match old, ws.getLast? with
  | none, none => True
  | some e, none => e.updateBlock = h → e.creationBlock ≠ h ∧ aside = some e
  | none, some last => last.creationBlock = h
  | some e, some last => last.creationBlock ≠ h ∧ (e :: ws).dropLast.getLast? = some e

/-- The entry under a property at the end of the block is one that the block
created. -/
def EndsCreated (h : Hash) (old : Option SPEntry) (ws : List SPEntry) (e : SPEntry) : Prop :=
  ws.getLast?.or old = some e ∧ e.CreatedBy h

/-- Does removing block `h` bring back one index record? A record that a property
created by the block mentions goes, so there must have been none; any other
keeps what the block stored, so that must be what was there. -/
def IndexRestorable {κ : Type} [LinearOrder κ] (key : SPEntry → κ) (index : OrdMap κ PropertyId)
    (h : Hash) (s : State) (calls : List SpCall) (x : κ) : Prop :=
  ((∃ p e, EndsCreated h (s.sp.entries.find? p) (written p s calls) e ∧ key e = x) →
      index.find? x = none) ∧
    ((¬ ∃ p e, EndsCreated h (s.sp.entries.find? p) (written p s calls) e ∧ key e = x) →
      ∀ p, registered key x s calls = some p → index.find? x = some p)

/-- The condition on a database and the calls of a block under which the block
comes out again. -/
structure Restorable (h : Hash) (s : State) (calls : List SpCall) : Prop where
  entry : ∀ p, EntryRestorable h (s.sp.entries.find? p)
    (s.sp.prevEntries.find? (toLex (h, p))) (written p s calls)
  txid : ∀ x, IndexRestorable SPEntry.txid s.sp.txIndex h s calls x
  ticker : ∀ x, IndexRestorable SPEntry.ticker s.sp.tickerIndex h s calls x

/-- `popBlock` succeeds, and the entries and both indexes are those of `s`. -/
structure Restores (s : State) (result : Int × State) : Prop where
  succeeds : 0 ≤ result.1
  entries : result.2.sp.entries = s.sp.entries
  txIndex : result.2.sp.txIndex = s.sp.txIndex
  tickerIndex : result.2.sp.tickerIndex = s.sp.tickerIndex

/-! ### What the calls store -/

theorem performAll_cons (s : State) (c : SpCall) (rest : List SpCall) :
    performAll s (c :: rest) = performAll (c.perform s) rest := rfl

theorem find?_perform_entries (s : State) (c : SpCall) (p : PropertyId) :
    (c.perform s).sp.entries.find? p =
      if c.target s = some p then some c.info else s.sp.entries.find? p := by
  cases c with
  | put ecosystem info =>
    simp [SpCall.perform, SpCall.target, SpCall.info, find?_insert, eq_comm]
  | update q info =>
    by_cases hq : q = propertyMSC ∨ q = propertyTMSC
    · simp [SpCall.perform, SpCall.target, updateSP, hq]
    · simp [SpCall.perform, SpCall.target, SpCall.info, updateSP, if_neg hq, find?_insert,
      eq_comm]

theorem find?_performAll_entries (s : State) (calls : List SpCall) (p : PropertyId) :
    (performAll s calls).sp.entries.find? p =
      (written p s calls).getLast?.or (s.sp.entries.find? p) := by
  induction calls generalizing s with
  | nil => rfl
  | cons c rest ih =>
    rw [performAll_cons, ih, find?_perform_entries, written]
    split_ifs with ht
    · rw [List.singleton_append, List.getLast?_cons, Option.some_or]
      cases (written p (c.perform s) rest).getLast? <;> rfl
    · rfl

/-- The transaction index and the ticker index are kept alike: a new property
adds one record, and an update none. -/
theorem find?_performAll_index {κ : Type} [LinearOrder κ] {key : SPEntry → κ}
    {index : CMPSPInfo → OrdMap κ PropertyId}
    (hput : ∀ s ecosystem info, index (putSP s ecosystem info).2.sp =
      (index s.sp).insert (key info) (peekNextSPID s ecosystem))
    (hupdate : ∀ s p info, index ((updateSP s p info).getD s).sp = index s.sp)
    (s : State) (calls : List SpCall) (x : κ) :
    (index (performAll s calls).sp).find? x =
      (registered key x s calls).or ((index s.sp).find? x) := by
  induction calls generalizing s with
  | nil => rfl
  | cons c rest ih =>
    rw [performAll_cons, ih, registered, Option.or_assoc]
    congr 1
    cases c with
    | put ecosystem info =>
      simp only [SpCall.perform, SpCall.indexes, hput, find?_insert]
      by_cases hx : key info = x
      · simp [hx]
      · simp [hx, Ne.symm hx]
    | update p info => simp [SpCall.perform, SpCall.indexes, hupdate]

theorem updateSP_getD_indexes (s : State) (p : PropertyId) (info : SPEntry) :
    ((updateSP s p info).getD s).sp.txIndex = s.sp.txIndex ∧
      ((updateSP s p info).getD s).sp.tickerIndex = s.sp.tickerIndex := by
  unfold updateSP
  split_ifs
  · exact ⟨rfl, rfl⟩
  · exact ⟨rfl, rfl⟩

theorem find?_performAll_txIndex (s : State) (calls : List SpCall) (x : Hash) :
    (performAll s calls).sp.txIndex.find? x =
      (registered SPEntry.txid x s calls).or (s.sp.txIndex.find? x) := by
  refine find?_performAll_index (fun s ecosystem info => ?_)
    (fun s p info => (updateSP_getD_indexes s p info).1) s calls x
  unfold putSP
  split_ifs <;> rfl

theorem find?_performAll_tickerIndex (s : State) (calls : List SpCall) (x : String) :
    (performAll s calls).sp.tickerIndex.find? x =
      (registered SPEntry.ticker x s calls).or (s.sp.tickerIndex.find? x) := by
  refine find?_performAll_index (fun s ecosystem info => ?_)
    (fun s p info => (updateSP_getD_indexes s p info).2) s calls x
  unfold putSP
  split_ifs <;> rfl

/-! ### What the calls set aside -/

theorem find?_perform_prevEntries_of_ne {c : SpCall}
    (hc : c.target s ≠ some p) (h : Hash) :
    (c.perform s).sp.prevEntries.find? (toLex (h, p)) =
      s.sp.prevEntries.find? (toLex (h, p)) := by
  cases c with
  | put ecosystem info =>
    simp only [SpCall.perform, putSP]
    split_ifs <;> rfl
  | update q info =>
    by_cases hq : q = propertyMSC ∨ q = propertyTMSC
    · simp [SpCall.perform, updateSP, hq]
    · have hpq : p ≠ q := by
        rintro rfl
        exact hc (if_neg hq)
      simp only [SpCall.perform, updateSP, if_neg hq, Option.getD_some]
      cases s.sp.entries.find? q with
      | none => rfl
      | some old =>
        refine find?_insert_ne _ _ fun heq => hpq ?_
        exact (Prod.ext_iff.mp (toLex_inj.mp heq)).2

/-- A write that does not claim to create the property is an update, and sets
aside the entry it finds. -/
theorem find?_perform_prevEntries_self {c : SpCall}
    (hblock : c.OfBlock h) (hc : c.target s = some p) (hne : c.info.creationBlock ≠ h) :
    (c.perform s).sp.prevEntries.find? (toLex (h, p)) =
      (s.sp.entries.find? p).or (s.sp.prevEntries.find? (toLex (h, p))) := by
  cases c with
  | put ecosystem info => exact absurd hblock.2 hne
  | update q info =>
    have hupdate : info.updateBlock = h := hblock
    by_cases hq : q = propertyMSC ∨ q = propertyTMSC
    · simp [SpCall.target, hq] at hc
    · have hqp : q = p := by simpa [SpCall.target, hq] using hc
      subst hqp
      simp only [SpCall.perform, updateSP, if_neg hq, Option.getD_some, hupdate]
      cases s.sp.entries.find? q with
      | none => rfl
      | some old => simp

theorem find?_performAll_prevEntries_of_nil (hws : written p s calls = []) (h : Hash) :
    (performAll s calls).sp.prevEntries.find? (toLex (h, p)) =
      s.sp.prevEntries.find? (toLex (h, p)) := by
  induction calls generalizing s with
  | nil => rfl
  | cons c rest ih =>
    obtain ⟨hc, hrest⟩ := List.append_eq_nil_iff.mp hws
    rw [performAll_cons, ih hrest, find?_perform_prevEntries_of_ne]
    simpa using hc

/-- After the block the record set aside for a property is the entry held just
before the last write. -/
theorem find?_performAll_prevEntries (hcalls : ∀ c ∈ calls, c.OfBlock h) {last : SPEntry}
    (hlast : (written p s calls).getLast? = some last) (hne : last.creationBlock ≠ h) :
    (performAll s calls).sp.prevEntries.find? (toLex (h, p)) =
      ((s.sp.entries.find? p).toList ++ written p s calls).dropLast.getLast?.or
        (s.sp.prevEntries.find? (toLex (h, p))) := by
  induction calls generalizing s with
  | nil => simp [written] at hlast
  | cons c rest ih =>
    have hc := hcalls c (.head _)
    have hrest := fun c' hc' => hcalls c' (List.mem_cons_of_mem c hc')
    rw [performAll_cons]
    by_cases ht : c.target s = some p
    · have hentry := find?_perform_entries s c p
      rw [if_pos ht] at hentry
      rw [written, if_pos ht] at hlast ⊢
      by_cases hws : written p (c.perform s) rest = []
      · -- the call at hand is the last write
        rw [hws] at hlast
        have hinfo : c.info = last := by simpa using hlast
        rw [find?_performAll_prevEntries_of_nil hws,
          find?_perform_prevEntries_self hc ht (hinfo ▸ hne), hws, List.append_nil,
          List.dropLast_concat]
        cases s.sp.entries.find? p <;> rfl
      · -- a later write finds what this call stored
        obtain ⟨ws, w, hsplit⟩ := (List.eq_nil_or_concat _).resolve_left hws
        rw [List.concat_eq_append] at hsplit
        have hlast' : (written p (c.perform s) rest).getLast? = some last := by
          rw [hsplit, ← List.append_assoc, List.getLast?_concat] at hlast
          rw [hsplit, List.getLast?_concat]
          exact hlast
        rw [ih hrest hlast', hentry, hsplit]
        simp only [Option.toList_some, ← List.append_assoc, List.dropLast_concat,
          List.getLast?_append, List.getLast?_singleton, Option.or_some, Option.some_or]
    · rw [written, if_neg ht] at hlast ⊢
      rw [List.nil_append] at hlast ⊢
      rw [ih hrest hlast, find?_perform_entries, if_neg ht, find?_perform_prevEntries_of_ne ht]

/-! ### What the traversal removes -/

theorem popEntries_fails {sp : CMPSPInfo} {l : List (PropertyId × SPEntry)} {e : SPEntry} (hmem : (p, e) ∈ l) (he : e.UpdatedBy h)
    (hprev : sp.prevEntries.find? (toLex (h, p)) = none) (n : Int) (batch : CMPSPInfo) :
    popEntries sp h l n batch = (-3, sp) := by
  induction l generalizing n batch with
  | nil => simp at hmem
  | cons hd rest ih =>
    obtain ⟨q, info⟩ := hd
    rw [popEntries]
    rcases List.mem_cons.mp hmem with heq | hrest
    · obtain ⟨rfl, rfl⟩ := Prod.ext_iff.mp heq
      have hne : e.updateBlock ≠ e.creationBlock := fun hc => he.2 (hc ▸ he.1)
      rw [if_pos he.1, if_neg hne, he.1, hprev]
    · split_ifs with hu hc
      · exact ih hrest _ _
      · split
        · exact ih hrest _ _
        · rfl
      · exact ih hrest _ _

/-- What the traversal does to the entry at hand. -/
def popEntry (sp : CMPSPInfo) (h : Hash) (m : OrdMap PropertyId SPEntry)
    (x : PropertyId × SPEntry) : OrdMap PropertyId SPEntry :=
  if x.2.updateBlock = h then
    if x.2.creationBlock = h then m.erase x.1
    else ((sp.prevEntries.find? (toLex (h, x.1))).map (m.insert x.1)).getD m
  else m

/-- The entries of the traversal that the block created. -/
def createdEntries (h : Hash) (l : List (PropertyId × SPEntry)) : List (PropertyId × SPEntry) :=
  l.filter fun x => decide (x.2.CreatedBy h)

/-- A traversal that is not broken off rewrites the entries one by one, and drops
the index records that the created ones mention. -/
theorem popEntries_succeeds {sp : CMPSPInfo} {l : List (PropertyId × SPEntry)}
    (hok : ∀ p e, (p, e) ∈ l → e.UpdatedBy h → sp.prevEntries.find? (toLex (h, p)) ≠ none)
    (n : Int) (batch : CMPSPInfo) :
    n ≤ (popEntries sp h l n batch).1 ∧
      (popEntries sp h l n batch).2.entries = l.foldl (popEntry sp h) batch.entries ∧
      (popEntries sp h l n batch).2.txIndex =
        (createdEntries h l).foldl (fun m x => m.erase x.2.txid) batch.txIndex ∧
      (popEntries sp h l n batch).2.tickerIndex =
        (createdEntries h l).foldl (fun m x => m.erase x.2.ticker) batch.tickerIndex := by
  induction l generalizing n batch with
  | nil => exact ⟨le_refl n, rfl, rfl, rfl⟩
  | cons x rest ih =>
    obtain ⟨p, info⟩ := x
    have hrest := fun q e hmem => hok q e (.tail _ hmem)
    rw [popEntries, List.foldl_cons, createdEntries]
    by_cases hu : info.updateBlock = h
    · by_cases hc : info.creationBlock = h
      · rw [if_pos hu, if_pos (hu.trans hc.symm),
          List.filter_cons_of_pos (by simp [SPEntry.CreatedBy, hu, hc])]
        simp only [popEntry, if_pos hu, if_pos hc]
        exact ih hrest _ _
      · have hne : info.updateBlock ≠ info.creationBlock := fun heq => hc (heq ▸ hu)
        have hsome := hok p info (.head _) ⟨hu, hc⟩
        rw [if_pos hu, if_neg hne, List.filter_cons_of_neg (by simp [SPEntry.CreatedBy, hc])]
        simp only [popEntry, if_pos hu, if_neg hc]
        rw [hu]
        cases hprev : sp.prevEntries.find? (toLex (h, p)) with
        | none => exact absurd hprev hsome
        | some prev =>
          obtain ⟨hn, hwrites⟩ := ih hrest (n + 1) { batch with
            entries := batch.entries.insert p prev
            prevEntries := batch.prevEntries.erase (toLex (h, p)) }
          exact ⟨le_trans (by omega) hn, hwrites⟩
    · rw [if_neg hu, List.filter_cons_of_neg (by simp [SPEntry.CreatedBy, hu])]
      simp only [popEntry, if_neg hu]
      obtain ⟨hn, hwrites⟩ := ih hrest (n + 1) batch
      exact ⟨le_trans (by omega) hn, hwrites⟩

/-! ### One property -/

/-- What a database without broken records holds for a property once the block is
out. -/
def poppedEntry (h : Hash) (current aside : Option SPEntry) : Option SPEntry :=
  match current with
  | none => none
  | some e => if e.updateBlock = h then if e.creationBlock = h then none else aside else some e

theorem find?_foldl_popEntry {sp : CMPSPInfo}
    (hok : ∀ p e, (p, e) ∈ sp.entries.entries → e.UpdatedBy h →
      sp.prevEntries.find? (toLex (h, p)) ≠ none) (p : PropertyId) :
    (sp.entries.entries.foldl (popEntry sp h) sp.entries).find? p =
      poppedEntry h (sp.entries.find? p) (sp.prevEntries.find? (toLex (h, p))) := by
  rw [find?_foldl
    (g := fun o x => if x.2.updateBlock = h then
        if x.2.creationBlock = h then none else (sp.prevEntries.find? (toLex (h, x.1))).or o
      else o) ?_ ?_ sp.entries.sorted]
  · show (sp.entries.find? p).elim (sp.entries.find? p) _ = _
    cases he : sp.entries.find? p with
    | none => rfl
    | some e =>
      simp only [Option.elim_some, poppedEntry]
      split_ifs with hu hc
      · rfl
      · have hsome := hok p e (mem_entries_iff.mpr he) ⟨hu, hc⟩
        cases hprev : sp.prevEntries.find? (toLex (h, p)) with
        | none => exact absurd hprev hsome
        | some prev => rfl
      · rfl
  · rintro m ⟨q, e⟩
    simp only [popEntry]
    split_ifs
    · exact find?_erase_self m q
    · cases sp.prevEntries.find? (toLex (h, q)) with
      | none => rfl
      | some prev => exact find?_insert_self m q prev
    · rfl
  · rintro m ⟨q, e⟩ k hk
    simp only [popEntry]
    split_ifs
    · exact find?_erase_ne m hk
    · cases sp.prevEntries.find? (toLex (h, q)) with
      | none => rfl
      | some prev => exact find?_insert_ne m prev hk
    · rfl

/-- The condition on one property is that its rollback neither breaks off nor
leaves anything else than the old entry. `aside'` is the record set aside at the
end of the block. -/
theorem entryRestorable_iff {old aside aside' : Option SPEntry} {ws : List SPEntry}
    (hblock : ∀ w ∈ ws, w.updateBlock = h) (hnil : ws = [] → aside' = aside)
    (hupdate : ∀ last, ws.getLast? = some last → last.creationBlock ≠ h →
      aside' = (old.toList ++ ws).dropLast.getLast?.or aside) :
    EntryRestorable h old aside ws ↔
      (∀ e, ws.getLast?.or old = some e → e.UpdatedBy h → aside' ≠ none) ∧
        poppedEntry h (ws.getLast?.or old) aside' = old := by
  cases hlast : ws.getLast? with
  | none =>
    have haside := hnil (List.getLast?_eq_none_iff.mp hlast)
    subst haside
    cases old with
    | none => simp [EntryRestorable, hlast, poppedEntry]
    | some e =>
      simp only [EntryRestorable, hlast, Option.none_or, Option.some.injEq, poppedEntry]
      by_cases hu : e.updateBlock = h
      · by_cases hc : e.creationBlock = h
        · simp [hu, hc]
        · simp only [hu, hc, if_true, if_false, ne_eq, not_false_eq_true, true_and,
            forall_const]
          constructor
          · rintro rfl
            exact ⟨fun _ _ _ => Option.some_ne_none _, rfl⟩
          · exact fun hr => hr.2
      · simp only [hu, if_false, false_implies, true_iff]
        refine ⟨?_, trivial⟩
        rintro e' rfl hup
        exact absurd hup.1 hu
  | some last =>
    have hu : last.updateBlock = h := hblock last (List.mem_of_getLast? hlast)
    have hws : ws ≠ [] := by
      rintro rfl
      simp at hlast
    simp only [Option.some_or, Option.some.injEq, forall_eq', poppedEntry, hu, if_true]
    cases old with
    | none =>
      simp only [EntryRestorable, hlast]
      by_cases hc : last.creationBlock = h
      · simp [hc, SPEntry.UpdatedBy]
      · simp only [hc, if_false, false_iff, not_and]
        intro hsome hnone
        exact hsome ⟨hu, hc⟩ hnone
    | some e =>
      simp only [EntryRestorable, hlast]
      by_cases hc : last.creationBlock = h
      · simp [hc]
      · have haside := hupdate last hlast hc
        obtain ⟨prev, hprev⟩ : ∃ prev, (e :: ws).dropLast.getLast? = some prev := by
          rw [List.dropLast_cons_of_ne_nil hws, List.getLast?_cons]
          exact ⟨_, rfl⟩
        rw [Option.toList_some, List.singleton_append, hprev, Option.some_or] at haside
        simp [hc, hprev, haside]

theorem endsCreated_iff {κ : Type} [LinearOrder κ]
    (key : SPEntry → κ) (x : κ) :
    x ∈ (createdEntries h (performAll s calls).sp.entries.entries).map (fun e => key e.2) ↔
      ∃ p e, EndsCreated h (s.sp.entries.find? p) (written p s calls) e ∧ key e = x := by
  simp [createdEntries, mem_entries_iff, find?_performAll_entries, EndsCreated, and_assoc]

/-- The condition on one index record is that its rollback leaves the old one. -/
theorem indexRestorable_iff {κ : Type} [LinearOrder κ] (key : SPEntry → κ)
    (index : OrdMap κ PropertyId) (h : Hash) (s : State) (calls : List SpCall) (x : κ) :
    IndexRestorable key index h s calls x ↔
      (if x ∈ (createdEntries h (performAll s calls).sp.entries.entries).map (fun e => key e.2)
        then none else (registered key x s calls).or (index.find? x)) = index.find? x := by
  rw [IndexRestorable, ← endsCreated_iff]
  split_ifs with hx
  · simp [hx, eq_comm]
  · simp only [hx, false_implies, not_false_eq_true, true_implies, true_and]
    cases registered key x s calls with
    | none => simp
    | some p => simp [eq_comm]

/-! ### The whole database -/

theorem updateBlock_of_mem_written (hcalls : ∀ c ∈ calls, c.OfBlock h) {w : SPEntry}
    (hw : w ∈ written p s calls) : w.updateBlock = h := by
  induction calls generalizing s with
  | nil => simp [written] at hw
  | cons c rest ih =>
    rw [written] at hw
    rcases List.mem_append.mp hw with hfirst | hrest
    · have hc := hcalls c (.head _)
      split_ifs at hfirst
      · rw [List.mem_singleton.mp hfirst]
        cases c with
        | put ecosystem info => exact hc.1
        | update q info => exact hc
      · simp at hfirst
    · exact ih (fun c' hc' => hcalls c' (List.mem_cons_of_mem c hc')) hrest

/-- Does the traversal reach the end? -/
def Poppable (h : Hash) (sp : CMPSPInfo) : Prop :=
  ∀ p e, sp.entries.find? p = some e → e.UpdatedBy h →
    sp.prevEntries.find? (toLex (h, p)) ≠ none

theorem poppable_of_succeeds (hs : 0 ≤ (popBlock s h).1) :
    Poppable h s.sp := by
  intro p e he hup hnone
  rw [popBlock, popEntries_fails (mem_entries_iff.mpr he) hup hnone] at hs
  have hneg : (0 : Int) ≤ -3 := hs
  omega

theorem restores_iff_of_poppable (hok : Poppable h (performAll s calls).sp) :
    Restores s (popBlock (performAll s calls) h) ↔
      (∀ p, poppedEntry h ((written p s calls).getLast?.or (s.sp.entries.find? p))
          ((performAll s calls).sp.prevEntries.find? (toLex (h, p))) = s.sp.entries.find? p) ∧
        (∀ x, IndexRestorable SPEntry.txid s.sp.txIndex h s calls x) ∧
        ∀ x, IndexRestorable SPEntry.ticker s.sp.tickerIndex h s calls x := by
  have hmem : ∀ p e, (p, e) ∈ (performAll s calls).sp.entries.entries → e.UpdatedBy h →
      (performAll s calls).sp.prevEntries.find? (toLex (h, p)) ≠ none :=
    fun p e he => hok p e (mem_entries_iff.mp he)
  obtain ⟨hn, hentries, htx, hticker⟩ := popEntries_succeeds hmem 0 (performAll s calls).sp
  have hentry := find?_foldl_popEntry hmem
  simp only [find?_performAll_entries] at hentry
  simp only [indexRestorable_iff, ← find?_performAll_txIndex, ← find?_performAll_tickerIndex,
    ← find?_foldl_erase, ← hentry]
  constructor
  · intro hr
    refine ⟨fun p => ?_, fun x => ?_, fun x => ?_⟩
    · rw [← hentries]
      exact congrArg (find? · p) hr.entries
    · rw [← htx]
      exact congrArg (find? · x) hr.txIndex
    · rw [← hticker]
      exact congrArg (find? · x) hr.tickerIndex
  · rintro ⟨h1, h2, h3⟩
    exact ⟨hn, hentries.trans (ext_find? h1), htx.trans (ext_find? h2),
      hticker.trans (ext_find? h3)⟩

/-- **Rollback of the property database.** For every database and every sequence
of `putSP` and `updateSP` calls of one block, `popBlock` brings back the entries
and both indexes exactly when every record of them is restorable. -/
theorem popBlock_restores_iff {h : Hash} {s : State} {calls : List SpCall}
    (hcalls : ∀ c ∈ calls, c.OfBlock h) :
    Restores s (popBlock (performAll s calls) h) ↔ Restorable h s calls := by
  have hentry : ∀ p, EntryRestorable h (s.sp.entries.find? p)
      (s.sp.prevEntries.find? (toLex (h, p))) (written p s calls) ↔
        (∀ e, (written p s calls).getLast?.or (s.sp.entries.find? p) = some e → e.UpdatedBy h →
          (performAll s calls).sp.prevEntries.find? (toLex (h, p)) ≠ none) ∧
        poppedEntry h ((written p s calls).getLast?.or (s.sp.entries.find? p))
          ((performAll s calls).sp.prevEntries.find? (toLex (h, p))) = s.sp.entries.find? p :=
    fun p => entryRestorable_iff (fun w hw => updateBlock_of_mem_written hcalls hw)
      (fun hnil => find?_performAll_prevEntries_of_nil hnil h)
      (fun last hlast hne => find?_performAll_prevEntries hcalls hlast hne)
  constructor
  · intro hr
    have hok := poppable_of_succeeds hr.succeeds
    obtain ⟨h1, h2, h3⟩ := (restores_iff_of_poppable hok).mp hr
    refine ⟨fun p => (hentry p).mpr ⟨fun e he hup => hok p e ?_ hup, h1 p⟩, h2, h3⟩
    rw [find?_performAll_entries]
    exact he
  · intro hr
    have hok : Poppable h (performAll s calls).sp := by
      intro p e he hup
      rw [find?_performAll_entries] at he
      exact ((hentry p).mp (hr.entry p)).1 e he hup
    exact (restores_iff_of_poppable hok).mpr
      ⟨fun p => ((hentry p).mp (hr.entry p)).2, hr.txid, hr.ticker⟩

/-- A managed property as the block with hash 1 creates it. -/
def managedEntry : SPEntry where
  issuer := "issuer"
  propType := propertyTypeIndivisible
  name := "Managed"
  ticker := "MNGD"
  txid := 10
  creationBlock := 1
  updateBlock := 1
  manual := true

/-- The database after that block. -/
def managedState : State := (putSP (plainState .main) propertyMSC managedEntry).2

/-- The block with hash 2 grants tokens of the property twice; every grant updates
the entry. -/
def twoGrants : List SpCall :=
  [.update 3 { managedEntry with
      updateBlock := 2
      historicalData := OrdMap.empty.insert 20 [5, 0] },
    .update 3 { managedEntry with
      updateBlock := 2
      historicalData := (OrdMap.empty.insert 20 [5, 0]).insert 21 [7, 0] }]

theorem twoGrants_ofBlock : ∀ c ∈ twoGrants, c.OfBlock 2 := by
  simp [twoGrants, SpCall.OfBlock]

theorem twoGrants_first_grant_stays :
    ¬ Restores managedState (popBlock (performAll managedState twoGrants) 2) := by
  intro hr
  have hentry := congrArg (fun m => (m.find? 3).map SPEntry.updateBlock) hr.entries
  revert hentry
  decide +kernel

theorem twoGrants_not_restorable :
    (∀ c ∈ twoGrants, c.OfBlock 2) ∧ ¬ Restorable 2 managedState twoGrants :=
  ⟨twoGrants_ofBlock, fun hr =>
    twoGrants_first_grant_stays ((popBlock_restores_iff twoGrants_ofBlock).mpr hr)⟩

theorem popBlock_loses_double_update :
    ¬ ∀ (s : State) (h : Hash) (calls : List SpCall), (∀ c ∈ calls, c.OfBlock h) →
      Restores s (popBlock (performAll s calls) h) :=
  fun hall => twoGrants_first_grant_stays (hall managedState 2 twoGrants twoGrants_ofBlock)

end Rapids.Token
