import Rapids.Token.Frozen

/-!
# Rapids.Token.Freezing

**Disabling freezing** (`disableFreezing`, `tokencore.cpp`).

The frozen addresses of a property are taken out of a set that all properties share,
ordered by address. Behind each removal an assertion is meant to say that the address is
not frozen any more. But the iterator has moved on: the assertion is about the address
behind it, which is frozen, or there is none, and the end of the set is read. So the loop
survives only if it finds nothing to remove (`unfreezeChecked_eq`).

The blocks at which freezing gets live are kept in a set as well. Only the last one of the
property is removed, and an assertion says that freezing is disabled at that block. Enabling
is refused only once freezing is live, so a notice period has room for a second entry, which
comes before the one that is removed.
-/

namespace Rapids.Token

open Rapids.Lib OrdMap

/-! ### The loop -/

/-- The loop that unfreezes all addresses for a property. Reading the end of the set is a
failure, as a failed assertion is. -/
def unfreezeChecked (p : PropertyId) : List ((Address ×ₗ PropertyId) × Unit) → State → Option State
  | [], s => some s
  | (e, _) :: rest, s =>
    if (ofLex e).2 = p then
      let s := unfreezeAddress s (ofLex e).1 (ofLex e).2
      match rest with
      | [] => none
      | (next, _) :: _ =>
        if isAddressFrozen s (ofLex next).1 (ofLex next).2 then none else unfreezeChecked p rest s
    else unfreezeChecked p rest s

/-- `disableFreezing`, where reading the end of the set is a failure. -/
def disableFreezingChecked (s : State) (p : PropertyId) : Option State := do
  let live := s.freezingEnabled.entries.filter fun e => (ofLex e.1).1 == p
  let liveBlock := (live.getLast?.map fun e => (ofLex e.1).2).getD 0
  if liveBlock = 0 then none
  else do
    let s := { s with freezingEnabled := s.freezingEnabled.erase (toLex (p, liveBlock)) }
    let s ← unfreezeChecked p s.frozen.entries s
    if isFreezingEnabled s p liveBlock then none else some s

section Loop

variable {s s' : State} {p : PropertyId}

theorem unfreezeLoop_of_checked {l : List ((Address ×ₗ PropertyId) × Unit)}
    (h : unfreezeChecked p l s = some s') : unfreezeLoop p l s = some s' := by
  induction l generalizing s with
  | nil => exact h
  | cons e rest ih =>
    rw [unfreezeChecked] at h
    rw [unfreezeLoop]
    split_ifs at h ⊢ with hp
    · cases rest with
      | nil => cases h
      | cons next rest =>
        dsimp only at h ⊢
        split_ifs at h ⊢
        exact ih h
    · exact ih h

theorem disableFreezing_of_checked (h : disableFreezingChecked s p = some s') :
    disableFreezing s p = some s' := by
  unfold disableFreezingChecked at h
  unfold disableFreezing
  dsimp only at h ⊢
  split_ifs at h ⊢
  obtain ⟨s₁, h1, h⟩ := Option.bind_eq_some_iff.mp h
  exact Option.bind_eq_some_iff.mpr ⟨s₁, unfreezeLoop_of_checked h1, h⟩

/-- **The loop fails at the first address that it unfreezes.** -/
theorem unfreezeChecked_eq {l : List ((Address ×ₗ PropertyId) × Unit)} (hsorted : SortedKeys l)
    (hfrozen : ∀ e ∈ l, s.frozen.contains e.1 = true) :
    unfreezeChecked p l s = if ∃ e ∈ l, (ofLex e.1).2 = p then none else some s := by
  induction l with
  | nil => simp [unfreezeChecked]
  | cons e rest ih =>
    obtain ⟨hfirst, hrest⟩ := List.pairwise_cons.mp hsorted
    rw [unfreezeChecked]
    by_cases hp : (ofLex e.1).2 = p
    · rw [if_pos hp, if_pos ⟨e, List.mem_cons_self, hp⟩]
      cases rest with
      | nil => rfl
      | cons next rest =>
        -- the next address is not the one that has just been unfrozen
        have hne : next.1 ≠ e.1 := (hfirst next (.head _)).ne'
        have hnext := hfrozen next (.tail _ (.head _))
        have hstill : isAddressFrozen (unfreezeAddress s (ofLex e.1).1 (ofLex e.1).2) (ofLex next.1).1
            (ofLex next.1).2 = true := by
          rw [isAddressFrozen, unfreezeAddress, contains_erase, Bool.and_eq_true]
          exact ⟨by simpa using hne, hnext⟩
        dsimp only
        rw [if_pos hstill]
    · rw [if_neg hp, ih hrest fun e' he' => hfrozen e' (List.mem_cons_of_mem _ he')]
      have hiff : (∃ e' ∈ rest, (ofLex e'.1).2 = p) ↔ ∃ e' ∈ e :: rest, (ofLex e'.1).2 = p := by
        simp [hp]
      by_cases hex : ∃ e' ∈ rest, (ofLex e'.1).2 = p
      · rw [if_pos hex, if_pos (hiff.mp hex)]
      · rw [if_neg hex, if_neg (fun h => hex (hiff.mpr h))]

theorem unfreezeChecked_frozen (s : State) (p : PropertyId) :
    unfreezeChecked p s.frozen.entries s = some s' ↔ s' = s ∧ ∀ a, isAddressFrozen s a p = false := by
  have hmem : ∀ e : (Address ×ₗ PropertyId) × Unit, e ∈ s.frozen.entries ↔ s.frozen.contains e.1 = true := by
    intro e
    rw [contains, Option.isSome_iff_exists]
    constructor
    · intro h
      exact ⟨e.2, mem_entries_iff.mp h⟩
    · rintro ⟨v, hv⟩
      exact mem_entries_iff.mpr hv
  have hnone : (∃ e ∈ s.frozen.entries, (ofLex e.1).2 = p) ↔ ∃ a, isAddressFrozen s a p = true := by
    constructor
    · rintro ⟨e, he, rfl⟩
      exact ⟨(ofLex e.1).1, (hmem e).mp he⟩
    · rintro ⟨a, ha⟩
      exact ⟨(toLex (a, p), ()), (hmem _).mpr ha, rfl⟩
  rw [unfreezeChecked_eq s.frozen.sorted fun e he => (hmem e).mp he]
  by_cases hex : ∃ e ∈ s.frozen.entries, (ofLex e.1).2 = p
  · rw [if_pos hex]
    obtain ⟨a, ha⟩ := hnone.mp hex
    refine iff_of_false (Option.some_ne_none _).symm fun h => ?_
    rw [h.2 a] at ha
    cases ha
  · rw [if_neg hex, Option.some.injEq]
    have hall : ∀ a, isAddressFrozen s a p = false := by
      intro a
      cases ha : isAddressFrozen s a p with
      | false => rfl
      | true => exact absurd (hnone.mpr ⟨a, ha⟩) hex
    exact ⟨fun h => ⟨h.symm, hall⟩, fun h => h.1.symm⟩

end Loop

/-! ### When freezing is live -/

section Live

variable {s s' : State} {p : PropertyId}

theorem isFreezingEnabled_iff {b : Nat} :
    isFreezingEnabled s p b = true ↔
      ∃ live, live ≤ b ∧ s.freezingEnabled.contains (toLex (p, live)) = true := by
  rw [isFreezingEnabled, List.any_eq_true]
  constructor
  · rintro ⟨e, he, hlive⟩
    rw [Bool.and_eq_true, beq_iff_eq, decide_eq_true_eq] at hlive
    refine ⟨(ofLex e.1).2, hlive.2, ?_⟩
    rw [← hlive.1, contains, Option.isSome_iff_exists]
    exact ⟨e.2, mem_entries_iff.mp he⟩
  · rintro ⟨live, hle, hlive⟩
    obtain ⟨v, hv⟩ := Option.isSome_iff_exists.mp hlive
    exact ⟨(toLex (p, live), v), mem_entries_iff.mpr hv, by simp [hle]⟩

/-- The block at which `disableFreezing` looks: the last one of the property, 0 if there is none. -/
def lastLive (s : State) (p : PropertyId) : Nat :=
  (((s.freezingEnabled.entries.filter fun e => (ofLex e.1).1 == p).getLast?).map fun e => (ofLex e.1).2).getD 0

theorem lastLive_spec {b : Nat} (h : s.freezingEnabled.contains (toLex (p, b)) = true) :
    b ≤ lastLive s p ∧ s.freezingEnabled.contains (toLex (p, lastLive s p)) = true := by
  obtain ⟨v, hv⟩ := Option.isSome_iff_exists.mp h
  have hmem : (toLex (p, b), v) ∈ s.freezingEnabled.entries.filter fun e => (ofLex e.1).1 == p :=
    List.mem_filter.mpr ⟨mem_entries_iff.mpr hv, by simp⟩
  have hsorted := s.freezingEnabled.sorted.sublist (List.filter_sublist (p := fun e => (ofLex e.1).1 == p))
  rw [lastLive]
  rcases List.eq_nil_or_concat' (s.freezingEnabled.entries.filter fun e => (ofLex e.1).1 == p) with hnil | hsplit
  · rw [hnil] at hmem
    cases hmem
  · obtain ⟨init, last, hlast⟩ := hsplit
    have hin : last ∈ s.freezingEnabled.entries.filter fun e => (ofLex e.1).1 == p := by
      rw [hlast]
      exact List.mem_append_right _ (List.mem_singleton_self _)
    obtain ⟨hentry, hproperty⟩ := List.mem_filter.mp hin
    rw [beq_iff_eq] at hproperty
    have hkey : toLex (p, (ofLex last.1).2) = last.1 := by rw [← hproperty]; rfl
    rw [hlast, List.getLast?_append_of_ne_nil _ (List.cons_ne_nil _ _), List.getLast?_singleton, Option.map_some,
      Option.getD_some]
    refine ⟨?_, ?_⟩
    · -- the entries before the last one have smaller keys, with the same property
      rw [hlast] at hmem hsorted
      rcases List.mem_append.mp hmem with hinit | hlast'
      · have hlt : toLex (p, b) < last.1 :=
          (List.pairwise_append.mp hsorted).2.2 _ hinit _ (List.mem_singleton_self _)
        rw [← hkey, Prod.Lex.toLex_lt_toLex] at hlt
        rcases hlt with hlt | hlt
        · exact absurd hlt (lt_irrefl p)
        · exact hlt.2.le
      · rw [← List.mem_singleton.mp hlast']
        exact le_rfl
    · rw [hkey, contains, Option.isSome_iff_exists]
      exact ⟨last.2, mem_entries_iff.mp hentry⟩

theorem contains_eraseLive {live b : Nat} {q : PropertyId} :
    (s.freezingEnabled.erase (toLex (p, live))).contains (toLex (q, b)) = true ↔
      (q, b) ≠ (p, live) ∧ s.freezingEnabled.contains (toLex (q, b)) = true := by
  rw [contains_erase, Bool.and_eq_true, Bool.not_eq_true', decide_eq_false_iff_not,
    EmbeddingLike.apply_eq_iff_eq]

theorem disableFreezingChecked_eq_some :
    disableFreezingChecked s p = some s' ↔
      lastLive s p ≠ 0 ∧ (∀ a, isAddressFrozen s a p = false) ∧
        s' = { s with freezingEnabled := s.freezingEnabled.erase (toLex (p, lastLive s p)) } ∧
        isFreezingEnabled s' p (lastLive s p) = false := by
  have hlive : ((s.freezingEnabled.entries.filter fun e => (ofLex e.1).1 == p).getLast?.map
      fun e => (ofLex e.1).2).getD 0 = lastLive s p := rfl
  unfold disableFreezingChecked
  dsimp only
  rw [hlive]
  by_cases h0 : lastLive s p = 0
  · rw [if_pos h0]
    exact iff_of_false (Option.some_ne_none _).symm fun h => h.1 h0
  · rw [if_neg h0]
    generalize hs1 : { s with freezingEnabled := s.freezingEnabled.erase (toLex (p, lastLive s p)) } = s₁
    have hsame : ∀ a, isAddressFrozen s₁ a p = isAddressFrozen s a p := by
      intro a
      rw [← hs1]
      rfl
    have hset : s₁.frozen = s.frozen := by rw [← hs1]
    rw [← hset]
    constructor
    · intro h
      obtain ⟨s₂, hloop, h⟩ := Option.bind_eq_some_iff.mp h
      obtain ⟨hsame2, hnone⟩ := (unfreezeChecked_frozen s₁ p).mp hloop
      rw [hsame2] at h
      split_ifs at h with hlive'
      cases h
      exact ⟨h0, fun a => by rw [← hsame]; exact hnone a, rfl, by simpa using hlive'⟩
    · rintro ⟨-, hnone, hs', hdead⟩
      refine Option.bind_eq_some_iff.mpr ⟨s₁, (unfreezeChecked_frozen s₁ p).mpr ⟨rfl, fun a => ?_⟩, ?_⟩
      · rw [hsame]
        exact hnone a
      · rw [← hs', hdead]
        simp

end Live

/-! ### Disabling -/

/-- Freezing is disabled for one property from a block on, and nothing happens to the others. -/
structure Disabled (s s' : State) (p : PropertyId) (block : Nat) : Prop where
  noneFrozen : ∀ a, isAddressFrozen s' a p = false
  disabled : ∀ b, block ≤ b → isFreezingEnabled s' p b = false
  othersEnabled : ∀ q b, q ≠ p →
    s'.freezingEnabled.contains (toLex (q, b)) = s.freezingEnabled.contains (toLex (q, b))
  othersFrozen : ∀ q a, q ≠ p → isAddressFrozen s' a q = isAddressFrozen s a q

/-- **The condition**: freezing has been enabled once, at a positive height, and nobody is frozen. -/
structure Disablable (s : State) (p : PropertyId) : Prop where
  once : ∃ live, 0 < live ∧ ∀ b, s.freezingEnabled.contains (toLex (p, b)) = true ↔ b = live
  noneFrozen : ∀ a, isAddressFrozen s a p = false

theorem disablable_of_checked {s s' : State} {p : PropertyId} (h : disableFreezingChecked s p = some s') :
    Disablable s p := by
  obtain ⟨h0, hnone, rfl, hdead⟩ := disableFreezingChecked_eq_some.mp h
  refine ⟨⟨lastLive s p, Nat.pos_of_ne_zero h0, fun b => ⟨fun hb => ?_, fun hb => ?_⟩⟩, hnone⟩
  · -- any other entry would still enable freezing
    by_contra hne
    have hstill := contains_eraseLive.mpr
      ⟨fun heq : (p, b) = (p, lastLive s p) => hne (Prod.mk.inj heq).2, hb⟩
    exact Bool.eq_false_iff.mp hdead (isFreezingEnabled_iff.mpr ⟨b, (lastLive_spec hb).1, hstill⟩)
  · rw [hb]
    -- the last block is not 0, so there is an entry
    by_contra hnot
    refine h0 ?_
    rw [lastLive]
    cases hlast : (s.freezingEnabled.entries.filter fun e => (ofLex e.1).1 == p).getLast? with
    | none => rfl
    | some e =>
      obtain ⟨hentry, hproperty⟩ := List.mem_filter.mp (List.mem_of_getLast? hlast)
      rw [beq_iff_eq] at hproperty
      have hin : s.freezingEnabled.contains (toLex (p, (ofLex e.1).2)) = true := by
        rw [← hproperty, contains, Option.isSome_iff_exists]
        exact ⟨e.2, mem_entries_iff.mp hentry⟩
      exact absurd (lastLive_spec hin).2 hnot

/-- With one entry and nobody frozen there is nothing that the assertions could find. -/
theorem Disablable.checked {s : State} {p : PropertyId} (h : Disablable s p) (block : Nat) :
    ∃ s', disableFreezingChecked s p = some s' ∧ Disabled s s' p block := by
  obtain ⟨⟨live, hpos, honce⟩, hnone⟩ := h
  have hlast : lastLive s p = live := (honce _).mp (lastLive_spec ((honce live).mpr rfl)).2
  have hdead : ∀ b, isFreezingEnabled
      { s with freezingEnabled := s.freezingEnabled.erase (toLex (p, live)) } p b = false := by
    intro b
    rw [Bool.eq_false_iff]
    intro hlive
    obtain ⟨b', -, hb'⟩ := isFreezingEnabled_iff.mp hlive
    obtain ⟨hne, hb'⟩ := contains_eraseLive.mp hb'
    exact hne (congrArg (Prod.mk p) ((honce b').mp hb'))
  refine ⟨_, disableFreezingChecked_eq_some.mpr ⟨by omega, hnone, by rw [hlast], hdead _⟩, hnone,
    fun b _ => hdead b, ?_, fun _ _ _ => rfl⟩
  intro q b hq
  rw [Bool.eq_iff_iff, contains_eraseLive]
  exact and_iff_right fun heq => hq (Prod.mk.inj heq).1

/-! ### The transaction -/

/-- A valid transaction 72: nothing in front of `disableFreezing` rejects it. -/
def validDisable (s : State) (tx : CMPTransaction) (env : TxEnv) : Bool :=
  !tx.rpcOnly && tx.interpreted && !isAddressFrozen s tx.sender tx.property &&
    decide (TxType.ofId tx.type = some .disableFreezing) &&
    ((managedChecks s tx env .disableFreezing).find? Prod.fst).isNone &&
    (getSP s tx.property).any (fun sp => sp.manual && !notIssuer tx sp) &&
    isFreezingEnabled s tx.property tx.block

theorem interpretPacket_disable {s : State} {tx : CMPTransaction} {env : TxEnv}
    (hvalid : validDisable s tx env = true) :
    interpretPacket s tx env = (disableFreezing s tx.property).map fun s => (0, s) := by
  simp only [validDisable, Bool.and_eq_true, Bool.not_eq_true', decide_eq_true_eq, Option.isNone_iff_eq_none,
    Option.any_eq_true] at hvalid
  obtain ⟨⟨⟨⟨⟨⟨hrpc, hint⟩, hfrozen⟩, htype⟩, hchecks⟩, sp, hsp, hmanual, hissuer⟩, hlive⟩ := hvalid
  have hhandler : logicMathDisableFreezing s tx env =
      (disableFreezing s tx.property).map fun s => (0, s) := by
    rw [logicMathDisableFreezing, reject, hchecks]
    rw [hsp, Option.bind_eq_bind, Option.bind_some, reject_pass]
    simp [hmanual, hissuer, hlive]
  rw [interpretPacket, reject_pass, htype]
  · exact hhandler
  · simp [hrpc, hint, hfrozen]

/-- **Disabling freezing completes, and does what it is for, if and only if freezing has been
enabled once, at a positive height, and no address is frozen for the property.** -/
theorem disable_freezing_iff {s : State} {tx : CMPTransaction} {env : TxEnv}
    (hvalid : validDisable s tx env = true) :
    (∃ s', disableFreezingChecked s tx.property = some s' ∧ interpretPacket s tx env = some (0, s') ∧
      Disabled s s' tx.property tx.block) ↔ Disablable s tx.property := by
  constructor
  · intro h
    obtain ⟨s', h, -⟩ := h
    exact disablable_of_checked h
  · intro h
    obtain ⟨s', hs', hdisabled⟩ := h.checked tx.block
    refine ⟨s', hs', ?_, hdisabled⟩
    rw [interpretPacket_disable hvalid, disableFreezing_of_checked hs', Option.map_some]

/-- The issuer takes it back before anybody is frozen. -/
def disableTx : CMPTransaction := frozenTx 72 7 "issuer" "" 0

theorem disable_freezing_iff_unused :
    ∃ n, run step (Node.initial regtestCfg) (frozenRun.take 5) = some n ∧
      validDisable n.state disableTx issuanceEnv = true ∧
      (interpretPacket n.state disableTx issuanceEnv).isSome = true ∧ Disablable n.state 3 := by
  have hrun : ((run step (Node.initial regtestCfg) (frozenRun.take 5)).map fun n =>
      decide (validDisable n.state disableTx issuanceEnv = true ∧
        (interpretPacket n.state disableTx issuanceEnv).isSome = true ∧
        (disableFreezingChecked n.state 3).isSome = true)) = some true := by
    decide +kernel
  obtain ⟨n, hn, hvals⟩ := Option.map_eq_some_iff.mp hrun
  obtain ⟨hvalid, hsome, hchecked⟩ := of_decide_eq_true hvals
  obtain ⟨s', hs'⟩ := Option.isSome_iff_exists.mp hchecked
  obtain ⟨s'', hs'', hdisabled⟩ := (disablable_of_checked hs').checked 1
  refine ⟨n, hn, hvalid, hsome, (disable_freezing_iff hvalid).mp ⟨s'', hs'', ?_, hdisabled⟩⟩
  rw [interpretPacket_disable hvalid]
  exact congrArg (Option.map fun s => ((0 : Int), s)) (disableFreezing_of_checked hs'')

/-- With `alice` and `bob` frozen, she is removed first, and the assertion finds him. -/
theorem disable_freezing_aborts :
    ¬ ∀ (cfg : Config) (es : List Event) (n : Node) (tx : CMPTransaction) (env : TxEnv),
      run step (Node.initial cfg) es = some n → validDisable n.state tx env = true →
      ∃ s', disableFreezingChecked n.state tx.property = some s' ∧
        Disabled n.state s' tx.property tx.block := by
  intro hall
  have hrun : ((run step (Node.initial regtestCfg)
      (frozenRun ++ [.packet (frozenTx 185 6 "issuer" "alice" 0) issuanceEnv])).map fun n =>
      decide (validDisable n.state disableTx issuanceEnv = true ∧
        (disableFreezing n.state 3).isSome = false)) = some true := by
    decide +kernel
  obtain ⟨n, hn, hvals⟩ := Option.map_eq_some_iff.mp hrun
  obtain ⟨hvalid, hnone⟩ := of_decide_eq_true hvals
  obtain ⟨s', hs', -⟩ := hall _ _ n disableTx issuanceEnv hn hvalid
  have hsome : disableFreezing n.state 3 = some s' := disableFreezing_of_checked hs'
  rw [hsome] at hnone
  cases hnone

end Rapids.Token
