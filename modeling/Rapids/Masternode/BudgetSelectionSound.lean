import Rapids.Lib.Allot
import Rapids.Masternode.BudgetSelection
import Rapids.Masternode.BudgetSound

/-!
# Rapids.Masternode.BudgetSelectionSound

**The choice between proposals** is the one that exact arithmetic makes, and it does not depend on
the order in which proposals and votes came, as far as the rules for messages allow.

A proposal is only kept with an amount that `UpdateValid` has compared with the total budget, so
the sums of the loop fit into 64 bits (`run_sized`, `budgetLoop_eq`).

A vote that comes within three minutes of another one of its masternode is refused on purpose, so
of such votes the first to come counts. The fee transaction is not part of a proposal's hash, so of
two proposals that differ only there the first to come counts too. Where votes are far enough apart
and hashes are different, and every vote comes after its proposal, a masternode's vote is the
latest one, whatever came first (`Received`), and the maps are the same
(`GoodArrivals.mapProposals_eq`).
-/

namespace Rapids.Masternode

open Rapids.Lib OrdMap Rapids.Chain

variable {s : ProposalStore}

variable {v : BudgetVote} {now : Int} {p : BudgetProposal} {msg : ProposalMessage} {hash : Nat}

/-! ### The order of proposals -/

theorem ptrHigherYes_strictWeak (valid : BudgetVote → Bool) : StrictWeak (BudgetProposal.ptrHigherYes valid) := by
  constructor
  · intro a b h
    simp only [BudgetProposal.ptrHigherYes] at h ⊢
    split_ifs at h ⊢ <;> simp only [decide_eq_true_eq, decide_eq_false_iff_not] at h ⊢ <;> omega
  · intro a b c h
    simp only [BudgetProposal.ptrHigherYes] at h ⊢
    split_ifs at h ⊢ <;> simp only [decide_eq_true_eq] at h ⊢ <;> omega

/-! ### The loop -/

namespace BudgetProposal

/-- A proposal that gets its full amount. -/
def allotted (p : BudgetProposal) : BudgetProposal := { p with nAlloted := some p.nAmount }

/-- The amount is one that a total budget may allow. -/
def Sized (p : BudgetProposal) : Prop := 0 ≤ p.nAmount ∧ p.nAmount ≤ 648000 * coin

end BudgetProposal

theorem inI64_of_budget {x : Int} (h0 : 0 ≤ x) (hx : x ≤ 2 * (648000 * coin)) : InI64 x := by
  have hlow : i64Min ≤ 0 := by decide
  have hhigh : 2 * (648000 * coin) ≤ i64Max := by decide
  exact ⟨le_trans hlow h0, le_trans hx hhigh⟩

/-- **The loop takes the passing proposals that fit**, in exact arithmetic. -/
theorem budgetLoop_eq (E : ProposalView) (now nBlockStart nBlockEnd : Int) {total spent : Int}
    (htotal : total ≤ 648000 * coin) (h0 : 0 ≤ spent) (hspent : spent ≤ total) {l : List BudgetProposal}
    (hsized : ∀ p ∈ l, p.Sized) :
    (budgetLoop E now nBlockStart nBlockEnd total spent l).1 =
      (takeFitting BudgetProposal.nAmount total spent
        (l.filter fun p => p.isPassing E now nBlockStart nBlockEnd)).map BudgetProposal.allotted := by
  induction l generalizing spent with
  | nil => rfl
  | cons p rest ih =>
    obtain ⟨hp0, hp⟩ := hsized p (.head _)
    have hrest : ∀ p ∈ rest, p.Sized := fun p hp => hsized p (.tail _ hp)
    rw [budgetLoop, List.filter_cons]
    by_cases hpass : p.isPassing E now nBlockStart nBlockEnd = true
    · rw [if_pos hpass, if_pos hpass, takeFitting]
      have hsum : InI64 (p.nAmount + spent) := inI64_of_budget (by omega) (by omega)
      rw [toI64_of_inI64 hsum, Int.add_comm spent, toI64_of_inI64 hsum]
      by_cases hfits : p.nAmount + spent ≤ total
      · rw [if_pos hfits, if_pos hfits, List.map_cons]
        exact congrArg _ (ih (by omega) hfits hrest)
      · rw [if_neg hfits, if_neg hfits]
        exact ih h0 hspent hrest
    · rw [if_neg hpass, if_neg hpass]
      exact ih h0 hspent hrest

/-! ### The choice -/

theorem getTotalBudget_of_nonneg (P : BudgetParams) {nHeight : Int} (h : 0 ≤ nHeight) :
    ∃ total, getTotalBudget P nHeight = some total := by
  rw [getTotalBudget]
  by_cases htest : P.testnet = true
  · exact ⟨_, if_pos htest⟩
  · rw [if_neg htest, if_neg (Int.not_lt.mpr h)]
    by_cases hfirst : nHeight ≤ 172800
    · exact ⟨_, if_pos hfirst⟩
    · exact ⟨_, if_neg hfirst⟩

theorem nextCycleStart_nonneg {P : BudgetParams} (hcycle : 0 < P.nBudgetCycleBlocks) {nHeight : Int} (h : 0 < nHeight) :
    0 ≤ nextCycleStart P nHeight := by
  have hmod : nHeight.tmod P.nBudgetCycleBlocks < P.nBudgetCycleBlocks := Int.tmod_lt_of_pos _ hcycle
  rw [nextCycleStart]
  omega

/-- **What `GetBudget` is for**: along an order of the passing proposals, with more net votes and
then higher hashes of fee transactions first, the ones that fit into the total budget. They get
their full amounts, and these are no more than the total budget together. -/
structure Chosen (E : ProposalView) (now nHeight total : Int) (proposals ret order : List BudgetProposal) : Prop where
  total_eq : getTotalBudget E.P (nextCycleStart E.P nHeight) = some total
  order_perm : order.Perm (proposals.filter fun p => p.isPassing E now (nextCycleStart E.P nHeight)
    (nextCycleStart E.P nHeight + E.P.nBudgetCycleBlocks - 1))
  order_sorted : order.Pairwise fun a b => BudgetProposal.ptrHigherYes E.valid b a = false
  ret_eq : ret = (takeFitting BudgetProposal.nAmount total 0 order).map BudgetProposal.allotted
  alloted : ∀ p ∈ ret, p.nAlloted = some p.nAmount
  sum_le : (ret.map BudgetProposal.nAmount).sum ≤ total

theorem getBudget_chosen (S : StdSort BudgetProposal) {E : ProposalView} (hcycle : 0 < E.P.nBudgetCycleBlocks)
    (now : Int) {nHeight : Int} (h : 0 < nHeight) {proposals : List BudgetProposal}
    (hsized : ∀ p ∈ proposals, p.Sized) :
    ∃ ret total order, getBudget S E now nHeight proposals = some ret ∧
      Chosen E now nHeight total proposals ret order := by
  obtain ⟨total, htotal⟩ := getTotalBudget_of_nonneg E.P (nextCycleStart_nonneg hcycle h)
  obtain ⟨hpos, hmax⟩ := getTotalBudget_bounds htotal
  have hweak := ptrHigherYes_strictWeak E.valid
  have hperm := S.perm _ proposals hweak
  have hloop := budgetLoop_eq E now (nextCycleStart E.P nHeight)
    (nextCycleStart E.P nHeight + E.P.nBudgetCycleBlocks - 1) hmax (le_refl 0) hpos.le
    (fun p hp => hsized p (hperm.mem_iff.mp hp))
  refine ⟨_, total, _, ?_, htotal, hperm.filter _, (S.sorted _ proposals hweak).filter _, rfl, ?_, ?_⟩
  · rw [getBudget, if_neg (by omega)]
    dsimp only
    rw [htotal, Option.map_some, hloop]
  · intro p hp
    obtain ⟨q, -, rfl⟩ := List.mem_map.mp hp
    rfl
  · rw [List.map_map]
    have hsum := @sum_takeFitting_le _ BudgetProposal.nAmount total 0 hpos.le
      ((S.sort (BudgetProposal.ptrHigherYes E.valid) proposals).filter fun p =>
        p.isPassing E now (nextCycleStart E.P nHeight) (nextCycleStart E.P nHeight + E.P.nBudgetCycleBlocks - 1))
    rw [Int.zero_add] at hsum
    exact hsum

/-! ### Amounts of the proposals -/

theorem sized_of_updateValid {E : ProposalView} {h : Int} {fCheckCollateral : Bool} {q : BudgetProposal}
    (hvalid : p.updateValid E h fCheckCollateral = some (true, q)) : p.Sized := by
  have hrest : ∀ p' : BudgetProposal, p'.updateValidRest E h = some (true, q) →
      p'.nAmount ≤ 648000 * coin := by
    intro p' hp'
    rw [BudgetProposal.updateValidRest] at hp'
    obtain ⟨-, hp'⟩ := BudgetProposal.of_ite_refuse hp'
    obtain ⟨total, htotal, hp'⟩ := Option.map_eq_some_iff.mp hp'
    by_cases hmore : total < p'.nAmount
    · rw [if_pos hmore] at hp'
      cases hp'
    · exact le_trans (Int.not_lt.mp hmore) (getTotalBudget_bounds htotal).2
  rw [BudgetProposal.updateValid] at hvalid
  obtain ⟨-, hvalid⟩ := BudgetProposal.of_ite_refuse hvalid
  obtain ⟨-, hvalid⟩ := BudgetProposal.of_ite_refuse hvalid
  obtain ⟨-, hvalid⟩ := BudgetProposal.of_ite_refuse hvalid
  obtain ⟨hamount, hvalid⟩ := BudgetProposal.of_ite_refuse hvalid
  obtain ⟨-, hvalid⟩ := BudgetProposal.of_ite_refuse hvalid
  have hcoin : 0 ≤ 10 * coin := by decide
  refine ⟨by omega, ?_⟩
  cases fCheckCollateral with
  | false => exact hrest p hvalid
  | true =>
    rw [if_pos rfl] at hvalid
    cases hcollateral : E.collateral p with
    | error strError =>
      rw [hcollateral] at hvalid
      cases hvalid
    | ok nTime =>
      rw [hcollateral] at hvalid
      exact hrest { p with nTime := nTime } hvalid

theorem sized_of_accepts {W : BudgetNode} (h : W.accepts p = true) : p.Sized := by
  rw [BudgetNode.accepts, Option.any_eq_true] at h
  obtain ⟨r, hr, haccepted⟩ := h
  obtain ⟨accepted, q⟩ := r
  obtain rfl : accepted = true := haccepted
  exact sized_of_updateValid hr

namespace ProposalStore

/-- All proposals have allowed amounts. -/
def AllSized (s : ProposalStore) : Prop := ∀ hash p, s.data.find? hash = some p → p.Sized

theorem AllSized.mapProposals (hs : s.AllSized) : ∀ p ∈ s.mapProposals, p.Sized := by
  intro p hp
  obtain ⟨e, -, he⟩ := List.mem_filterMap.mp hp
  obtain ⟨q, hq, rfl⟩ := Option.map_eq_some_iff.mp he
  exact hs e.1 q hq

theorem adds_iff {W : BudgetNode} :
    s.adds W p = true ↔ s.votes.seenItems.contains (W.getHash p) = false ∧
      ((W.checks p).collateralValid = true ∧ (W.checks p).updateValid = true ∧ (W.checks p).addValid = true) ∧
      s.votes.items.contains (W.getHash p) = false := by
  rw [adds]
  simp only [Bool.and_eq_true, Bool.not_eq_true']
  tauto

theorem AllSized.step (hs : s.AllSized) (x : BudgetNode × BudgetStep) : (s.step x).AllSized := by
  obtain ⟨W, what⟩ := x
  intro hash q hq
  cases what with
  | message now msg =>
    cases msg with
    | proposal p =>
      change (if s.adds W p then s.data.insert (W.getHash p) (W.received p) else s.data).find? hash = some q at hq
      by_cases hadds : s.adds W p = true
      · rw [if_pos hadds, find?_insert] at hq
        by_cases hk : hash = W.getHash p
        · rw [if_pos hk] at hq
          cases hq
          exact sized_of_accepts (adds_iff.mp hadds).2.1.2.2
        · rw [if_neg hk] at hq
          exact hs hash q hq
      · rw [if_neg hadds] at hq
        exact hs hash q hq
    | vote v => exact hs hash q hq
  | orphans now => exact hs hash q hq
  | newBlock =>
    change ((s.data.filter _).mapVal W.copied).find? hash = some q at hq
    rw [find?_mapVal, find?_filter] at hq
    obtain ⟨p, hp, rfl⟩ := Option.map_eq_some_iff.mp hq
    exact hs hash p (Option.filter_eq_some_iff.mp hp).1

/-- **In every run all proposals have allowed amounts.** -/
theorem run_sized (steps : List (BudgetNode × BudgetStep)) : (run steps).AllSized := by
  have hfold : ∀ s : ProposalStore, s.AllSized → (steps.foldl step s).AllSized := by
    induction steps with
    | nil => exact fun s hs => hs
    | cons x rest ih => exact fun s hs => ih _ (hs.step x)
  refine hfold empty fun hash p hp => ?_
  rw [empty, find?_empty] at hp
  cases hp

end ProposalStore

/-! ### Messages that come -/

/-- The message comes. -/
def Arrives (l : List (Int × ProposalMessage)) (msg : ProposalMessage) : Prop := ∃ now, (now, msg) ∈ l

theorem arrives_concat {pre : List (Int × ProposalMessage)} {msg' : ProposalMessage} :
    Arrives (pre ++ [(now, msg)]) msg' ↔ Arrives pre msg' ∨ msg' = msg := by
  constructor
  · rintro ⟨t, ht⟩
    rcases List.mem_append.mp ht with hold | hlast
    · exact .inl ⟨t, hold⟩
    · exact .inr (Prod.mk.inj (List.mem_singleton.mp hlast)).2
  · intro h
    rcases h with ⟨t, ht⟩ | rfl
    · exact ⟨t, List.mem_append_left _ ht⟩
    · exact ⟨now, List.mem_append_right _ (List.mem_singleton.mpr rfl)⟩

theorem Arrives.split {l : List (Int × ProposalMessage)} (h : Arrives l msg) :
    ∃ pre now post, l = pre ++ (now, msg) :: post := by
  obtain ⟨now, hmem⟩ := h
  obtain ⟨pre, post, heq⟩ := List.append_of_mem hmem
  exact ⟨pre, now, post, heq⟩

theorem Arrives.append {pre : List (Int × ProposalMessage)} (h : Arrives pre msg)
    (post : List (Int × ProposalMessage)) : Arrives (pre ++ post) msg := by
  obtain ⟨now, hmem⟩ := h
  exact ⟨now, List.mem_append_left _ hmem⟩

section Arrival

variable (W : BudgetNode) (l : List (Int × ProposalMessage))

/-- A proposal passes the checks of its message and those of `AddProposal`. -/
def BudgetNode.Passes (p : BudgetProposal) : Prop :=
  (W.checks p).collateralValid = true ∧ (W.checks p).updateValid = true ∧ (W.checks p).addValid = true

/-- A proposal with the hash comes and passes its checks. -/
def Enters (hash : Nat) : Prop := ∃ p, Arrives l (.proposal p) ∧ W.getHash p = hash ∧ W.Passes p

/-- A vote of a listed masternode comes, and is signed well. -/
def CountedVote (v : BudgetVote) : Prop :=
  Arrives l (.vote v) ∧ W.env.votes.isListed v = true ∧ W.env.votes.checkSignature v = true

/-- **Messages whose order makes no difference**: hashes tell proposals and votes apart, different votes
of a masternode on a proposal are three minutes apart, no vote is from the future, and a vote comes
after its proposal, if that comes at all. -/
structure GoodArrivals : Prop where
  oneProposal : ∀ p q, Arrives l (.proposal p) → Arrives l (.proposal q) → W.getHash p = W.getHash q → p = q
  oneVote : ∀ v w, Arrives l (.vote v) → Arrives l (.vote w) →
    W.env.votes.getHash v = W.env.votes.getHash w → v = w
  spaced : ∀ v w, CountedVote W l v → CountedVote W l w → v.nProposalHash = w.nProposalHash →
    W.env.votes.key v = W.env.votes.key w → v ≠ w →
    v.nTime + budgetVoteUpdateMin ≤ w.nTime ∨ w.nTime + budgetVoteUpdateMin ≤ v.nTime
  inTime : ∀ now v, (now, .vote v) ∈ l → v.nTime ≤ now + 60 * 60
  after : ∀ pre now v post, l = pre ++ (now, .vote v) :: post → Enters W l v.nProposalHash →
    Enters W pre v.nProposalHash

end Arrival

section Order

variable {W : BudgetNode} {l pre post : List (Int × ProposalMessage)}

theorem Enters.append (h : Enters W pre hash) (post : List (Int × ProposalMessage)) :
    Enters W (pre ++ post) hash := by
  obtain ⟨p, hp, hrest⟩ := h
  exact ⟨p, hp.append post, hrest⟩

theorem enters_concat_proposal :
    Enters W (pre ++ [(now, .proposal p)]) hash ↔ Enters W pre hash ∨ (W.getHash p = hash ∧ W.Passes p) := by
  constructor
  · rintro ⟨q, hq, hrest⟩
    rcases arrives_concat.mp hq with hold | hlast
    · exact .inl ⟨q, hold, hrest⟩
    · obtain rfl := ProposalMessage.proposal.inj hlast
      exact .inr hrest
  · intro h
    rcases h with hold | hlast
    · exact hold.append _
    · exact ⟨p, arrives_concat.mpr (.inr rfl), hlast⟩

theorem enters_concat_vote :
    Enters W (pre ++ [(now, .vote v)]) hash ↔ Enters W pre hash := by
  constructor
  · rintro ⟨q, hq, hrest⟩
    rcases arrives_concat.mp hq with hold | hlast
    · exact ⟨q, hold, hrest⟩
    · cases hlast
  · intro h
    exact h.append _

theorem CountedVote.append (h : CountedVote W pre v) (post : List (Int × ProposalMessage)) :
    CountedVote W (pre ++ post) v := ⟨h.1.append post, h.2⟩

theorem countedVote_concat_proposal :
    CountedVote W (pre ++ [(now, .proposal p)]) v ↔ CountedVote W pre v := by
  constructor
  · intro h
    rcases arrives_concat.mp h.1 with hold | hlast
    · exact ⟨hold, h.2⟩
    · cases hlast
  · intro h
    exact h.append _

theorem countedVote_concat_vote {w : BudgetVote} (h : CountedVote W (pre ++ [(now, .vote v)]) w) :
    CountedVote W pre w ∨ w = v := by
  rcases arrives_concat.mp h.1 with hold | hlast
  · exact .inl ⟨hold, h.2⟩
  · exact .inr (ProposalMessage.vote.inj hlast)

/-! ### What a message does to the maps -/

theorem checkOrphanVotes_unknown {V : Type} {K : VoteKind V} (now : Int) {m : VoteMaps V}
    (h : ∀ e ∈ m.orphanVotes.entries, m.items.find? (K.itemHash e.2) = none) : m.checkOrphanVotes K now = m := by
  have hfold : ∀ parked : List (Nat × V), (∀ e ∈ parked, m.items.find? (K.itemHash e.2) = none) →
      parked.foldl (VoteMaps.checkOrphan K now) m = m := by
    intro parked
    induction parked with
    | nil => exact fun _ => rfl
    | cons e rest ih =>
      intro hparked
      have hstep : VoteMaps.checkOrphan K now m e = m := by
        rcases VoteMaps.updateItem_cases K now false e.2 m with ⟨-, hr⟩ | ⟨mapVotes, hitem, -⟩
        · rw [VoteMaps.checkOrphan, hr]
          rfl
        · rw [hparked e List.mem_cons_self] at hitem
          cases hitem
      rw [List.foldl_cons, hstep]
      exact ih fun e he => hparked e (.tail _ he)
  exact hfold _ h

/-- What a proposal does to the maps. -/
structure ItemTaken (hash : Nat) (added : Bool) (m m' : VoteMaps BudgetVote) : Prop where
  items : m'.items = if added then m.items.insert hash ∅ else m.items
  orphanVotes : m'.orphanVotes = m.orphanVotes
  seenVotes : m'.seenVotes = m.seenVotes
  seenItems : ∀ k, m'.seenItems.contains k = true → k = hash ∨ m.seenItems.contains k = true

theorem processItem_taken (s : ProposalStore) (p : BudgetProposal) :
    ItemTaken (W.getHash p) (s.adds W p) s.votes (s.votes.processItem (W.getHash p) (W.checks p)).2 := by
  have hnew : ∀ k, (s.votes.seenItems.insertNew (W.getHash p) ()).contains k = true →
      k = W.getHash p ∨ s.votes.seenItems.contains k = true := by
    intro k hk
    rw [contains_insertNew, Bool.or_eq_true, decide_eq_true_eq] at hk
    exact hk
  rw [VoteMaps.processItem, ProposalStore.adds]
  cases hseen : s.votes.seenItems.contains (W.getHash p) with
  | true => exact ⟨by simp, rfl, rfl, fun k hk => .inr hk⟩
  | false =>
    cases hcollateral : (W.checks p).collateralValid with
    | false => exact ⟨by simp, rfl, rfl, fun k hk => .inr hk⟩
    | true =>
      cases hvalid : (W.checks p).updateValid with
      | false => exact ⟨by simp, rfl, rfl, hnew⟩
      | true =>
        cases hadd : (W.checks p).addValid with
        | false => exact ⟨by simp, rfl, rfl, hnew⟩
        | true =>
          cases hknown : s.votes.items.contains (W.getHash p) with
          | false => exact ⟨by simp, rfl, rfl, hnew⟩
          | true => exact ⟨by simp, rfl, rfl, hnew⟩

/-! ### Votes are the latest ones -/

/-- **What a node has** after the messages of `pre`, which are the first ones of `l`: the proposals that
passed their checks, and for each of them votes that came for it, none of them older than another
vote of its masternode that came. -/
structure Received (W : BudgetNode) (l pre : List (Int × ProposalMessage)) (s : ProposalStore) : Prop where
  known : ∀ hash, s.votes.items.contains hash = true ↔ Enters W pre hash
  data : ∀ hash q, s.data.find? hash = some q ↔
    ∃ p, Arrives pre (.proposal p) ∧ W.getHash p = hash ∧ W.Passes p ∧ q = W.received p
  seenItems : ∀ hash, s.votes.seenItems.contains hash = true →
    ∃ p, Arrives pre (.proposal p) ∧ W.getHash p = hash
  seenVotes : ∀ hash, s.votes.seenVotes.contains hash = true →
    ∃ v, Arrives pre (.vote v) ∧ W.env.votes.getHash v = hash
  parked : ∀ e ∈ s.votes.orphanVotes.entries, ¬ Enters W l e.2.nProposalHash
  sound : ∀ hash mapVotes, s.votes.items.find? hash = some mapVotes → ∀ k v, mapVotes.find? k = some v →
    CountedVote W pre v ∧ v.nProposalHash = hash ∧ W.env.votes.key v = k
  covers : ∀ v mapVotes, CountedVote W pre v → s.votes.items.find? v.nProposalHash = some mapVotes →
    ∃ w, mapVotes.find? (W.env.votes.key v) = some w ∧ v.nTime ≤ w.nTime

theorem received_empty : Received W l [] .empty := by
  have hnone : ∀ msg, ¬ Arrives [] msg := by
    rintro msg ⟨now, hmem⟩
    cases hmem
  refine ⟨fun hash => ?_, fun hash q => ?_, fun hash h => ?_, fun hash h => ?_, fun e he => ?_,
    fun hash mapVotes h => ?_, fun v mapVotes h => ?_⟩
  · refine iff_of_false (fun h => ?_) fun h => ?_
    · cases h
    · obtain ⟨p, hp, -⟩ := h
      exact hnone _ hp
  · refine iff_of_false (fun h => ?_) fun h => ?_
    · cases h
    · obtain ⟨p, hp, -⟩ := h
      exact hnone _ hp
  · cases h
  · cases h
  · cases he
  · cases h
  · exact absurd h.1 (hnone _)

theorem Received.no_vote_before (hl : GoodArrivals W l) (hsub : l = pre ++ post)
    (hv : Arrives pre (.vote v)) (henters : Enters W l v.nProposalHash) : Enters W pre v.nProposalHash := by
  obtain ⟨first, now, rest, hfirst⟩ := hv.split
  rw [hfirst, List.append_assoc, List.cons_append] at hsub
  rw [hfirst]
  exact (hl.after first now v _ hsub henters).append _

/-- **A proposal comes.** -/
theorem Received.proposal (hl : GoodArrivals W l)
    (hsub : l = pre ++ (now, .proposal p) :: post) (hr : Received W l pre s) :
    Received W l (pre ++ [(now, .proposal p)]) (s.receive W now (.proposal p)) := by
  have hin : Arrives l (.proposal p) := ⟨now, by rw [hsub]; simp⟩
  have hpre : ∀ {msg}, Arrives pre msg → Arrives l msg := by
    intro msg h
    rw [hsub]
    exact h.append _
  -- one that passes its checks and is not added is there
  have hbefore : s.adds W p = false → W.Passes p → Arrives pre (.proposal p) := by
    intro hnot hpass
    have hsome : ∃ q, Arrives pre (.proposal q) ∧ W.getHash q = W.getHash p := by
      by_cases hseen : s.votes.seenItems.contains (W.getHash p) = true
      · exact hr.seenItems _ hseen
      · by_cases hknown : s.votes.items.contains (W.getHash p) = true
        · obtain ⟨q, hq, hhash, -⟩ := (hr.known _).mp hknown
          exact ⟨q, hq, hhash⟩
        · rw [Bool.not_eq_true] at hseen hknown
          rw [ProposalStore.adds_iff.mpr ⟨hseen, hpass, hknown⟩] at hnot
          cases hnot
    obtain ⟨q, hq, hhash⟩ := hsome
    rwa [hl.oneProposal p q hin (hpre hq) hhash.symm]
  have htaken := processItem_taken (W := W) s p
  have hknown : ∀ hash, (s.votes.processItem (W.getHash p) (W.checks p)).2.items.contains hash = true ↔
      Enters W (pre ++ [(now, .proposal p)]) hash := by
    intro hash
    rw [htaken.items, enters_concat_proposal]
    cases hadds : s.adds W p with
    | true =>
      have hpass := (ProposalStore.adds_iff.mp hadds).2.1
      rw [if_pos rfl, contains_insert, Bool.or_eq_true, decide_eq_true_eq, hr.known]
      constructor
      · intro h
        rcases h with rfl | hold
        · exact .inr ⟨rfl, hpass⟩
        · exact .inl hold
      · intro h
        rcases h with hold | hlast
        · exact .inr hold
        · exact .inl hlast.1.symm
    | false =>
      rw [if_neg Bool.false_ne_true, hr.known]
      constructor
      · exact .inl
      · intro h
        rcases h with hold | hlast
        · exact hold
        · exact ⟨p, hbefore hadds hlast.2, hlast⟩
  have hstep : s.votes.sideStep W.env.votes now (.item (W.getHash p) (W.checks p)) =
      (s.votes.processItem (W.getHash p) (W.checks p)).2 := by
    rw [VoteMaps.sideStep]
    split_ifs
    · refine checkOrphanVotes_unknown now fun e he => ?_
      rw [htaken.orphanVotes] at he
      refine Option.not_isSome_iff_eq_none.mp fun hsome => hr.parked e he ?_
      have henters := (hknown _).mp hsome
      rw [hsub, ← List.singleton_append, ← List.append_assoc]
      exact henters.append _
    · rfl
  rw [ProposalStore.receive, hstep]
  refine ⟨hknown, fun hash q => ?_, fun hash h => ?_, fun hash h => ?_, fun e he => ?_,
    fun hash mapVotes hitem k v hv => ?_, fun v mapVotes hv hitem => ?_⟩
  · have hconcat : (∃ p', Arrives (pre ++ [(now, .proposal p)]) (.proposal p') ∧ W.getHash p' = hash ∧
          W.Passes p' ∧ q = W.received p') ↔
        (∃ p', Arrives pre (.proposal p') ∧ W.getHash p' = hash ∧ W.Passes p' ∧ q = W.received p') ∨
          (W.getHash p = hash ∧ W.Passes p ∧ q = W.received p) := by
      constructor
      · rintro ⟨p', hp', hrest⟩
        rcases arrives_concat.mp hp' with hold | hlast
        · exact .inl ⟨p', hold, hrest⟩
        · obtain rfl := ProposalMessage.proposal.inj hlast
          exact .inr hrest
      · intro h
        rcases h with ⟨p', hp', hrest⟩ | hlast
        · exact ⟨p', hp'.append _, hrest⟩
        · exact ⟨p, arrives_concat.mpr (.inr rfl), hlast⟩
    rw [hconcat]
    cases hadds : s.adds W p with
    | true =>
      obtain ⟨-, hpass, hunknown⟩ := ProposalStore.adds_iff.mp hadds
      rw [if_pos rfl, find?_insert]
      by_cases hk : hash = W.getHash p
      · rw [if_pos hk]
        constructor
        · intro h
          exact .inr ⟨hk.symm, hpass, (Option.some.inj h).symm⟩
        · intro h
          rcases h with ⟨p', hp', hhash, -, rfl⟩ | ⟨-, -, rfl⟩
          · rw [hl.oneProposal p' p (hpre hp') hin (hhash.trans hk)]
          · rfl
      · rw [if_neg hk, hr.data]
        constructor
        · exact .inl
        · intro h
          rcases h with hold | hlast
          · exact hold
          · exact absurd hlast.1.symm hk
    | false =>
      rw [if_neg Bool.false_ne_true, hr.data]
      constructor
      · exact .inl
      · intro h
        rcases h with hold | hlast
        · exact hold
        · exact ⟨p, hbefore hadds hlast.2.1, hlast⟩
  · rcases htaken.seenItems hash h with rfl | hold
    · exact ⟨p, arrives_concat.mpr (.inr rfl), rfl⟩
    · obtain ⟨q, hq, hhash⟩ := hr.seenItems hash hold
      exact ⟨q, hq.append _, hhash⟩
  · rw [htaken.seenVotes] at h
    obtain ⟨v, hv, hhash⟩ := hr.seenVotes hash h
    exact ⟨v, hv.append _, hhash⟩
  · rw [htaken.orphanVotes] at he
    exact hr.parked e he
  · rw [htaken.items] at hitem
    cases hadds : s.adds W p with
    | true =>
      rw [hadds, if_pos rfl, find?_insert] at hitem
      by_cases hk : hash = W.getHash p
      · rw [if_pos hk] at hitem
        rw [← Option.some.inj hitem, find?_empty] at hv
        cases hv
      · rw [if_neg hk] at hitem
        obtain ⟨hcounted, hrest⟩ := hr.sound hash mapVotes hitem k v hv
        exact ⟨hcounted.append _, hrest⟩
    | false =>
      rw [hadds, if_neg Bool.false_ne_true] at hitem
      obtain ⟨hcounted, hrest⟩ := hr.sound hash mapVotes hitem k v hv
      exact ⟨hcounted.append _, hrest⟩
  · rw [countedVote_concat_proposal] at hv
    rw [htaken.items] at hitem
    cases hadds : s.adds W p with
    | true =>
      obtain ⟨-, hpass, hunknown⟩ := ProposalStore.adds_iff.mp hadds
      rw [hadds, if_pos rfl, find?_insert] at hitem
      by_cases hk : v.nProposalHash = W.getHash p
      · -- a vote for the new proposal would have come too early
        have henters : Enters W l v.nProposalHash := ⟨p, hin, hk.symm, hpass⟩
        have hearly := (hr.known _).mpr (Received.no_vote_before hl hsub hv.1 henters)
        rw [hk, hunknown] at hearly
        cases hearly
      · rw [if_neg hk] at hitem
        exact hr.covers v mapVotes hv hitem
    | false =>
      rw [hadds, if_neg Bool.false_ne_true] at hitem
      exact hr.covers v mapVotes hv hitem

/-- What a vote for a known proposal does to its votes: it is refused, or entered. -/
theorem addOrUpdateVote_cases {V : Type} (K : VoteKind V) (now : Int) (v : V) (mapVotes : OrdMap Nat V) :
    (VoteMaps.isTooSoon K v mapVotes = true ∨ now + 60 * 60 < K.getTime v) ∧
        (VoteMaps.addOrUpdateVote K now v mapVotes).2 = mapVotes ∨
      VoteMaps.isTooSoon K v mapVotes = false ∧
        (VoteMaps.addOrUpdateVote K now v mapVotes).2 = mapVotes.insert (K.key v) v := by
  rw [VoteMaps.addOrUpdateVote]
  cases hsoon : VoteMaps.isTooSoon K v mapVotes with
  | true => exact .inl ⟨.inl rfl, rfl⟩
  | false =>
    rw [if_neg Bool.false_ne_true]
    by_cases hfuture : now + 60 * 60 < K.getTime v
    · rw [if_pos hfuture]
      exact .inl ⟨.inr hfuture, rfl⟩
    · rw [if_neg hfuture]
      exact .inr ⟨rfl, rfl⟩

/-- A vote comes that changes no proposal's votes, because it has no proposal or there is one that is
not older. -/
theorem Received.keepVote (hr : Received W l pre s)
    {m' : VoteMaps BudgetVote} (hitems : m'.items = s.votes.items) (hseenItems : m'.seenItems = s.votes.seenItems)
    (hseenVotes : ∀ k, m'.seenVotes.contains k = true →
      k = W.env.votes.getHash v ∨ s.votes.seenVotes.contains k = true)
    (hparked : ∀ e ∈ m'.orphanVotes.entries, ¬ Enters W l e.2.nProposalHash)
    (hcover : CountedVote W (pre ++ [(now, .vote v)]) v → ∀ mapVotes,
      s.votes.items.find? v.nProposalHash = some mapVotes →
      ∃ w, mapVotes.find? (W.env.votes.key v) = some w ∧ v.nTime ≤ w.nTime) :
    Received W l (pre ++ [(now, .vote v)]) ⟨s.data, m'⟩ := by
  refine ⟨fun hash => ?_, fun hash q => ?_, fun hash h => ?_, fun hash h => ?_, hparked,
    fun hash mapVotes hitem k w hw => ?_, fun w mapVotes hw hitem => ?_⟩
  · rw [hitems, hr.known, enters_concat_vote]
  · rw [hr.data]
    constructor
    · rintro ⟨p, hp, hrest⟩
      exact ⟨p, hp.append _, hrest⟩
    · rintro ⟨p, hp, hrest⟩
      rcases arrives_concat.mp hp with hold | hlast
      · exact ⟨p, hold, hrest⟩
      · cases hlast
  · rw [hseenItems] at h
    obtain ⟨p, hp, hhash⟩ := hr.seenItems hash h
    exact ⟨p, hp.append _, hhash⟩
  · rcases hseenVotes hash h with rfl | hold
    · exact ⟨v, arrives_concat.mpr (.inr rfl), rfl⟩
    · obtain ⟨w, hw, hhash⟩ := hr.seenVotes hash hold
      exact ⟨w, hw.append _, hhash⟩
  · rw [hitems] at hitem
    obtain ⟨hcounted, hrest⟩ := hr.sound hash mapVotes hitem k w hw
    exact ⟨hcounted.append _, hrest⟩
  · rw [hitems] at hitem
    rcases countedVote_concat_vote hw with hold | rfl
    · exact hr.covers w mapVotes hold hitem
    · exact hcover hw mapVotes hitem

theorem Received.enterVote (hr : Received W l pre s)
    (hcounted : CountedVote W (pre ++ [(now, .vote v)]) v) {mapVotes : OrdMap Nat BudgetVote}
    (hitem : s.votes.items.find? v.nProposalHash = some mapVotes)
    (hlater : ∀ old, mapVotes.find? (W.env.votes.key v) = some old → old.nTime ≤ v.nTime) :
    Received W l (pre ++ [(now, .vote v)]) ⟨s.data, { s.votes with
      seenVotes := s.votes.seenVotes.insertNew (W.env.votes.getHash v) v
      items := s.votes.items.insert v.nProposalHash (mapVotes.insert (W.env.votes.key v) v) }⟩ := by
  refine ⟨fun hash => ?_, fun hash q => ?_, fun hash h => ?_, fun hash h => ?_, hr.parked,
    fun hash mapVotes' hitem' k w hw => ?_, fun w mapVotes' hw hitem' => ?_⟩
  · rw [contains_insert, Bool.or_eq_true, decide_eq_true_eq, hr.known, enters_concat_vote]
    constructor
    · intro h
      rcases h with rfl | hold
      · rw [← hr.known, contains, hitem, Option.isSome_some]
      · exact hold
    · exact .inr
  · rw [hr.data]
    constructor
    · rintro ⟨p, hp, hrest⟩
      exact ⟨p, hp.append _, hrest⟩
    · rintro ⟨p, hp, hrest⟩
      rcases arrives_concat.mp hp with hold | hlast
      · exact ⟨p, hold, hrest⟩
      · cases hlast
  · obtain ⟨p, hp, hhash⟩ := hr.seenItems hash h
    exact ⟨p, hp.append _, hhash⟩
  · rw [contains_insertNew, Bool.or_eq_true, decide_eq_true_eq] at h
    rcases h with rfl | hold
    · exact ⟨v, hcounted.1, rfl⟩
    · obtain ⟨w, hw, hhash⟩ := hr.seenVotes hash hold
      exact ⟨w, hw.append _, hhash⟩
  · rw [find?_insert] at hitem'
    by_cases hh : hash = v.nProposalHash
    · rw [if_pos hh] at hitem'
      rw [← Option.some.inj hitem', find?_insert] at hw
      by_cases hk : k = W.env.votes.key v
      · rw [if_pos hk] at hw
        cases hw
        exact ⟨hcounted, hh.symm, hk.symm⟩
      · rw [if_neg hk] at hw
        obtain ⟨hold, hhash, hkey⟩ := hr.sound _ mapVotes hitem k w hw
        exact ⟨hold.append _, hhash.trans hh.symm, hkey⟩
    · rw [if_neg hh] at hitem'
      obtain ⟨hold, hrest⟩ := hr.sound hash mapVotes' hitem' k w hw
      exact ⟨hold.append _, hrest⟩
  · rw [find?_insert] at hitem'
    rcases countedVote_concat_vote hw with hold | rfl
    · by_cases hh : w.nProposalHash = v.nProposalHash
      · rw [if_pos hh] at hitem'
        rw [← Option.some.inj hitem', find?_insert]
        obtain ⟨old, hfind, hle⟩ := hr.covers w mapVotes hold (by rw [hh, hitem])
        by_cases hk : W.env.votes.key w = W.env.votes.key v
        · rw [if_pos hk]
          rw [hk] at hfind
          exact ⟨v, rfl, le_trans hle (hlater old hfind)⟩
        · rw [if_neg hk]
          exact ⟨old, hfind, hle⟩
      · rw [if_neg hh] at hitem'
        exact hr.covers w mapVotes' hold hitem'
    · rw [if_pos rfl] at hitem'
      rw [← Option.some.inj hitem', find?_insert_self]
      exact ⟨w, rfl, le_refl _⟩

/-- **A vote comes.** -/
theorem Received.vote (hl : GoodArrivals W l)
    (hsub : l = pre ++ (now, .vote v) :: post) (hr : Received W l pre s) :
    Received W l (pre ++ [(now, .vote v)]) (s.receive W now (.vote v)) := by
  have hin : Arrives l (.vote v) := ⟨now, by rw [hsub]; simp⟩
  have hpre : ∀ {msg}, Arrives pre msg → Arrives l msg := by
    intro msg h
    rw [hsub]
    exact h.append _
  have hwhole : l = (pre ++ [(now, .vote v)]) ++ post := by rw [hsub, List.append_assoc]; rfl
  have hcounted : ∀ {w}, CountedVote W (pre ++ [(now, .vote v)]) w → CountedVote W l w := by
    intro w hw
    rw [hwhole]
    exact hw.append _
  have hnew : ∀ k, (s.votes.seenVotes.insertNew (W.env.votes.getHash v) v).contains k = true →
      k = W.env.votes.getHash v ∨ s.votes.seenVotes.contains k = true := by
    intro k hk
    rw [contains_insertNew, Bool.or_eq_true, decide_eq_true_eq] at hk
    exact hk
  -- a vote that came before is covered
  have hcover : ∀ {w mapVotes}, CountedVote W pre w → s.votes.items.find? w.nProposalHash = some mapVotes →
      ∃ u, mapVotes.find? (W.env.votes.key w) = some u ∧ w.nTime ≤ u.nTime :=
    fun hw hitem => hr.covers _ _ hw hitem
  rw [ProposalStore.receive, VoteMaps.sideStep]
  rcases VoteMaps.processVote_cases W.env.votes now v s.votes with
    ⟨hignored, heq⟩ | ⟨-, hlisted, ⟨hbad, heq⟩ | ⟨hgood, heq⟩⟩
  · rw [heq]
    refine hr.keepVote rfl rfl (fun k hk => .inr hk) hr.parked fun hv mapVotes hitem => ?_
    rcases hignored with hseen | hunlisted
    · obtain ⟨w, hw, hhash⟩ := hr.seenVotes _ hseen
      rw [hl.oneVote w v (hpre hw) hin hhash] at hw
      exact hcover ⟨hw, hv.2⟩ hitem
    · rw [hv.2.1] at hunlisted
      cases hunlisted
  · rw [heq]
    refine hr.keepVote rfl rfl hnew hr.parked fun hv mapVotes hitem => ?_
    rw [hv.2.2] at hbad
    cases hbad
  · rw [heq, VoteMaps.updateItem]
    have hkey : W.env.votes.itemHash v = v.nProposalHash := rfl
    have hlast : CountedVote W (pre ++ [(now, .vote v)]) v := ⟨arrives_concat.mpr (.inr rfl), hlisted, hgood⟩
    rw [hkey]
    cases hitem : s.votes.items.find? v.nProposalHash with
    | none =>
      have hunknown : ¬ Enters W l v.nProposalHash := by
        intro henters
        have hsome := (hr.known _).mpr (hl.after pre now v post hsub henters)
        rw [contains, hitem] at hsome
        cases hsome
      split_ifs
      · refine hr.keepVote rfl rfl hnew (fun e he => ?_) fun _ mapVotes hsome => ?_
        · rcases mem_insertEntry he with rfl | hold
          · exact hunknown
          · exact hr.parked e hold
        · rw [hitem] at hsome
          cases hsome
      · refine hr.keepVote rfl rfl hnew hr.parked fun _ mapVotes hsome => ?_
        rw [hitem] at hsome
        cases hsome
    | some mapVotes =>
      dsimp only
      rcases addOrUpdateVote_cases W.env.votes now v mapVotes with ⟨hrefused, hsame⟩ | ⟨hnotSoon, hentered⟩
      · rw [hsame, insert_eq_self hitem]
        refine hr.keepVote rfl rfl hnew hr.parked fun _ mapVotes' hitem' => ?_
        rw [hitem] at hitem'
        cases hitem'
        rcases hrefused with hsoon | hfuture
        · rw [VoteMaps.isTooSoon, Option.any_eq_true] at hsoon
          obtain ⟨old, hold, hclose⟩ := hsoon
          refine ⟨old, hold, ?_⟩
          obtain ⟨hcold, hhash, hk⟩ := hr.sound _ mapVotes hitem _ old hold
          by_cases hvo : v = old
          · rw [hvo]
          · have hspaced := hl.spaced v old (hcounted hlast) (hcounted (hcold.append _)) hhash.symm hk.symm hvo
            rw [Bool.or_eq_true, decide_eq_true_eq, decide_eq_true_eq] at hclose
            have htimes : v.nTime < old.nTime ∨ v.nTime - old.nTime < budgetVoteUpdateMin := hclose
            omega
        · have htime := hl.inTime now v (by rw [hsub]; simp)
          exact absurd hfuture (Int.not_lt.mpr htime)
      · rw [hentered]
        refine hr.enterVote hlast hitem fun old hold => ?_
        rw [VoteMaps.isTooSoon, hold, Option.any_some] at hnotSoon
        rw [Bool.or_eq_false_iff, decide_eq_false_iff_not] at hnotSoon
        exact Int.not_lt.mp hnotSoon.1

/-- **After all messages** each masternode's vote is the latest one. -/
theorem receiveAll_received (hl : GoodArrivals W l) : Received W l l (ProposalStore.receiveAll W l) := by
  have hprefix : ∀ pre post : List (Int × ProposalMessage), l = pre ++ post →
      Received W l pre (ProposalStore.receiveAll W pre) := by
    intro pre
    induction pre using List.reverseRecOn with
    | nil => exact fun _ _ => received_empty
    | append_singleton pre e ih =>
      intro post hsub
      obtain ⟨now, msg⟩ := e
      rw [List.append_assoc, List.singleton_append] at hsub
      rw [ProposalStore.receiveAll, ProposalStore.run, List.map_append, List.foldl_append]
      cases msg with
      | proposal p => exact Received.proposal hl hsub (ih _ hsub)
      | vote v => exact Received.vote hl hsub (ih _ hsub)
  exact hprefix l [] (List.append_nil l).symm

/-! ### The order makes no difference -/

section Same

variable {l' : List (Int × ProposalMessage)} {s s' : ProposalStore}

/-- A vote that is held after the messages in one order is held after those in the other. -/
theorem Received.held (hl : GoodArrivals W l) (hr : Received W l l s) (hr' : Received W l' l' s')
    (hsame : ∀ msg, Arrives l msg ↔ Arrives l' msg) {mapVotes mapVotes' : OrdMap Nat BudgetVote}
    (hitem : s.votes.items.find? hash = some mapVotes) (hitem' : s'.votes.items.find? hash = some mapVotes')
    {k : Nat} (hv : mapVotes.find? k = some v) : mapVotes'.find? k = some v := by
  obtain ⟨hcounted, hhash, hkey⟩ := hr.sound hash mapVotes hitem k v hv
  obtain ⟨w, hw, hle⟩ := hr'.covers v mapVotes' ⟨(hsame _).mp hcounted.1, hcounted.2⟩ (by rw [hhash, hitem'])
  rw [hkey] at hw
  obtain ⟨hcounted', hhash', hkey'⟩ := hr'.sound hash mapVotes' hitem' k w hw
  have hback : CountedVote W l w := ⟨(hsame _).mpr hcounted'.1, hcounted'.2⟩
  obtain ⟨u, hu, hge⟩ := hr.covers w mapVotes hback (by rw [hhash', hitem])
  rw [hkey', hv] at hu
  cases hu
  by_cases heq : v = w
  · rw [heq, hw]
  · have hspaced := hl.spaced v w hcounted hback (hhash.trans hhash'.symm) (hkey.trans hkey'.symm) heq
    have hmin : budgetVoteUpdateMin = 180 := rfl
    omega

theorem enters_congr (hsame : ∀ msg, Arrives l msg ↔ Arrives l' msg) (hash : Nat) :
    Enters W l hash ↔ Enters W l' hash := by
  constructor
  · rintro ⟨p, hp, hrest⟩
    exact ⟨p, (hsame _).mp hp, hrest⟩
  · rintro ⟨p, hp, hrest⟩
    exact ⟨p, (hsame _).mpr hp, hrest⟩

/-- **The proposals and their votes do not depend on the order of the messages.** -/
theorem GoodArrivals.mapProposals_eq (hl : GoodArrivals W l) (hl' : GoodArrivals W l')
    (hsame : ∀ msg, Arrives l msg ↔ Arrives l' msg) :
    (ProposalStore.receiveAll W l).mapProposals = (ProposalStore.receiveAll W l').mapProposals := by
  have hr := receiveAll_received hl
  have hr' := receiveAll_received hl'
  have hsame' : ∀ msg, Arrives l' msg ↔ Arrives l msg := fun msg => (hsame msg).symm
  have hitems : (ProposalStore.receiveAll W l).votes.items = (ProposalStore.receiveAll W l').votes.items := by
    refine ext_find? fun hash => ?_
    have hknown := (hr.known hash).trans ((enters_congr hsame hash).trans (hr'.known hash).symm)
    rw [contains, contains] at hknown
    cases hitem : (ProposalStore.receiveAll W l).votes.items.find? hash with
    | none =>
      rw [hitem] at hknown
      exact (Option.not_isSome_iff_eq_none.mp fun h => Bool.false_ne_true (hknown.mpr h)).symm
    | some mapVotes =>
      rw [hitem] at hknown
      obtain ⟨mapVotes', hitem'⟩ := Option.isSome_iff_exists.mp (hknown.mp rfl)
      rw [hitem']
      refine congrArg some (ext_find? fun k => Option.ext fun v => ?_)
      constructor
      · exact hr.held hl hr' hsame hitem hitem'
      · exact hr'.held hl' hr hsame' hitem' hitem
  have hdata : (ProposalStore.receiveAll W l).data = (ProposalStore.receiveAll W l').data := by
    refine ext_find? fun hash => Option.ext fun q => ?_
    rw [hr.data, hr'.data]
    constructor
    · rintro ⟨p, hp, hrest⟩
      exact ⟨p, (hsame _).mp hp, hrest⟩
    · rintro ⟨p, hp, hrest⟩
      exact ⟨p, (hsame _).mpr hp, hrest⟩
  rw [ProposalStore.mapProposals, ProposalStore.mapProposals, hitems, hdata]

end Same

end Order

/-- **Budget selection.** After any run, and at any height, the proposals that `GetBudget` returns are
those that fit into the total budget of the next cycle, along an order by net votes and fee
transactions; at no height they are none. Messages whose order makes no difference may come in
any order. -/
theorem budget_selection (network : Network) (S : StdSort BudgetProposal) :
    (∀ (steps : List (BudgetNode × BudgetStep)) (E : ProposalView) (now nHeight : Int),
      E.P = budgetParams network →
      (nHeight ≤ 0 → getBudget S E now nHeight (ProposalStore.run steps).mapProposals = some []) ∧
      (0 < nHeight → ∃ ret total order,
        getBudget S E now nHeight (ProposalStore.run steps).mapProposals = some ret ∧
          Chosen E now nHeight total (ProposalStore.run steps).mapProposals ret order)) ∧
    ∀ (W : BudgetNode) (l l' : List (Int × ProposalMessage)), GoodArrivals W l → GoodArrivals W l' →
      (∀ msg, Arrives l msg ↔ Arrives l' msg) → ∀ (E : ProposalView) (now nHeight : Int),
      getBudget S E now nHeight (ProposalStore.receiveAll W l).mapProposals =
        getBudget S E now nHeight (ProposalStore.receiveAll W l').mapProposals := by
  constructor
  · intro steps E now nHeight hE
    constructor
    · intro h
      rw [getBudget, if_pos h]
    · intro h
      have hcycle : 0 < E.P.nBudgetCycleBlocks := by
        rw [hE]
        cases network <;> decide
      exact getBudget_chosen S hcycle now h (ProposalStore.run_sized steps).mapProposals
  · intro W l l' hl hl' hsame E now nHeight
    rw [hl.mapProposals_eq hl' hsame]

/-! ### Examples -/

/-- A sort. -/
def sortProposals : StdSort BudgetProposal where
  sort := fun less l => l.insertionSort fun a b => less b a = false
  perm := fun less l _ => List.perm_insertionSort _ l
  sorted := fun less l hless => by
    have : IsTrans BudgetProposal fun a b => less b a = false := ⟨fun a b c hab hbc => by
      by_contra hac
      rcases hless.split c b a (by simpa using hac) with h | h
      · rw [h] at hbc
        cases hbc
      · rw [h] at hab
        cases hab⟩
    have : Std.Total fun a b : BudgetProposal => less b a = false := ⟨fun a b => by
      by_cases hab : less b a = false
      · exact Or.inl hab
      · exact Or.inr (hless.asymm b a (by simpa using hab))⟩
    exact List.pairwise_insertionSort _ l

/-- A proposal is hashed to the length of its name, a vote to what it says. -/
def budgetNode : BudgetNode where
  env := { budgetEnv with
    hashVote := fun vin _ nProposalHash _ nTime => (100 * vin.prevout.hash + nProposalHash) * 10000 + nTime.toNat }
  P := budgetParams .main
  valid := fun _ => true
  mnCount := 0
  nBestHeight := 40000
  hashProposal := fun strProposalName _ _ _ _ _ => strProposalName.length
  collateral := fun _ _ => .ok 1000

/-- A proposal for one payment in the first cycle. -/
def firstProposal (strProposalName : String) (coins : Int) (nFeeTXHash : Nat) : BudgetProposal :=
  .broadcast (budgetParams .main) strProposalName "" 1 [opDup] (coins * coin) 43200 nFeeTXHash

/-- A vote of a masternode. -/
def ballot (mn nProposalHash : Nat) (nVote nTime : Int) : BudgetVote :=
  ⟨⟨⟨mn, 0⟩, []⟩, 0, nProposalHash, nVote, nTime, [1]⟩

/-- Messages that come at one time. -/
def arriving (l : List ProposalMessage) : List (Int × ProposalMessage) := l.map fun msg => (5000, msg)

/-- The budget at height 40000 after messages: the names of the proposals and what they get. -/
def budgetAfter (l : List ProposalMessage) : Option (List (String × Option Int)) :=
  (getBudget sortProposals budgetNode.view 1000000 40000
    (ProposalStore.receiveAll budgetNode (arriving l)).mapProposals).map
      (List.map fun p => (p.strProposalName, p.nAlloted))

theorem arrives_arriving {l : List ProposalMessage} : Arrives (arriving l) msg ↔ msg ∈ l := by
  constructor
  · rintro ⟨now, hmem⟩
    obtain ⟨msg', hmsg, heq⟩ := List.mem_map.mp hmem
    rwa [← (Prod.mk.inj heq).2]
  · intro h
    exact ⟨5000, List.mem_map_of_mem h⟩

theorem goodArrivals_two {w : BudgetVote} (hpass : budgetNode.Passes p)
    (hhash : budgetNode.env.votes.getHash v ≠ budgetNode.env.votes.getHash w)
    (hv : v.nProposalHash = budgetNode.getHash p ∧ v.nTime ≤ 8600)
    (hw : w.nProposalHash = budgetNode.getHash p ∧ w.nTime ≤ 8600)
    (hspaced : v.nTime + budgetVoteUpdateMin ≤ w.nTime ∨ w.nTime + budgetVoteUpdateMin ≤ v.nTime) :
    GoodArrivals budgetNode (arriving [.proposal p, .vote v, .vote w]) := by
  have hvotes : ∀ {u}, Arrives (arriving [.proposal p, .vote v, .vote w]) (.vote u) → u = v ∨ u = w := by
    intro u hu
    simpa using arrives_arriving.mp hu
  have hproposals : ∀ {q}, Arrives (arriving [.proposal p, .vote v, .vote w]) (.proposal q) → q = p := by
    intro q hq
    simpa using arrives_arriving.mp hq
  refine ⟨fun q r hq hr _ => (hproposals hq).trans (hproposals hr).symm, fun u x hu hx heq => ?_,
    fun u x hu hx _ _ hne => ?_, fun now u hu => ?_, fun pre now u post hsub _ => ?_⟩
  · rcases hvotes hu with rfl | rfl <;> rcases hvotes hx with rfl | rfl
    · rfl
    · exact absurd heq hhash
    · exact absurd heq.symm hhash
    · rfl
  · rcases hvotes hu.1 with rfl | rfl <;> rcases hvotes hx.1 with rfl | rfl
    · exact absurd rfl hne
    · exact hspaced
    · exact hspaced.symm
    · exact absurd rfl hne
  · obtain ⟨msg, -, heq⟩ := List.mem_map.mp hu
    obtain rfl : 5000 = now := (Prod.mk.inj heq).1
    rcases hvotes ⟨5000, hu⟩ with rfl | rfl
    · omega
    · omega
  · cases pre with
    | nil => cases (List.cons.inj hsub).1
    | cons e rest =>
      have hfirst : e = (5000, .proposal p) := (List.cons.inj hsub).1.symm
      refine ⟨p, ⟨5000, by rw [hfirst]; exact .head _⟩, ?_, hpass⟩
      have hu : Arrives (arriving [.proposal p, .vote v, .vote w]) (.vote u) := ⟨now, by rw [hsub]; simp⟩
      rcases hvotes hu with rfl | rfl
      · exact hv.1.symm
      · exact hw.1.symm

/-- A masternode changes its mind, and its two votes come in one order or in the other. -/
theorem budget_selection_changeOfMind :
    budgetAfter [.proposal (firstProposal "website" 1000 7), .vote (ballot 1 7 voteNo 1000),
        .vote (ballot 1 7 voteYes 2000)] =
      budgetAfter [.proposal (firstProposal "website" 1000 7), .vote (ballot 1 7 voteYes 2000),
        .vote (ballot 1 7 voteNo 1000)] := by
  have hpass : budgetNode.Passes (firstProposal "website" 1000 7) := by
    unfold BudgetNode.Passes
    decide +kernel
  have hname : budgetNode.getHash (firstProposal "website" 1000 7) = 7 := rfl
  have hgood := goodArrivals_two (v := ballot 1 7 voteNo 1000) (w := ballot 1 7 voteYes 2000) hpass
    (by decide) ⟨hname.symm, by decide⟩ ⟨hname.symm, by decide⟩ (.inl (by decide))
  have hgood' := goodArrivals_two (v := ballot 1 7 voteYes 2000) (w := ballot 1 7 voteNo 1000) hpass
    (by decide) ⟨hname.symm, by decide⟩ ⟨hname.symm, by decide⟩ (.inr (by decide))
  rw [budgetAfter, budgetAfter, (budget_selection .main sortProposals).2 budgetNode _ _ hgood hgood']
  intro msg
  rw [arrives_arriving, arrives_arriving]
  exact (List.Perm.cons _ (List.Perm.swap _ _ _)).mem_iff

/-- **The order makes a difference** where two votes of a masternode are less than three minutes apart,
where two proposals differ in their fee transactions only, and where votes come before their proposal. -/
theorem budget_selection_ordered :
    (budgetAfter [.proposal (firstProposal "website" 1000 7), .vote (ballot 1 7 voteYes 1000),
        .vote (ballot 1 7 voteNo 1100)] = some [("website", some (1000 * coin))] ∧
      budgetAfter [.proposal (firstProposal "website" 1000 7), .vote (ballot 1 7 voteNo 1100),
        .vote (ballot 1 7 voteYes 1000)] = some []) ∧
    (budgetAfter [.proposal (firstProposal "website" 400000 7), .proposal (firstProposal "website" 400000 9),
        .proposal (firstProposal "exchange" 400000 8), .vote (ballot 1 7 voteYes 1000),
        .vote (ballot 1 8 voteYes 1000)] = some [("exchange", some (400000 * coin))] ∧
      budgetAfter [.proposal (firstProposal "website" 400000 9), .proposal (firstProposal "website" 400000 7),
        .proposal (firstProposal "exchange" 400000 8), .vote (ballot 1 7 voteYes 1000),
        .vote (ballot 1 8 voteYes 1000)] = some [("website", some (400000 * coin))]) ∧
    (budgetAfter [.proposal (firstProposal "website" 1000 7), .vote (ballot 1 7 voteYes 1000),
        .vote (ballot 2 7 voteYes 1000), .vote (ballot 3 7 voteNo 1000)] = some [("website", some (1000 * coin))] ∧
      budgetAfter [.vote (ballot 1 7 voteYes 1000), .vote (ballot 2 7 voteYes 1000),
        .vote (ballot 3 7 voteNo 1000), .proposal (firstProposal "website" 1000 7)] = some []) := by
  decide +kernel

end Rapids.Masternode
