import Rapids.Chain.IndexesSound
import Rapids.Chain.VerifyDB

/-!
# Rapids.Chain.VerifyDBSound

**When checking the block database changes nothing.**

Connecting a block again leads back to the node before it was disconnected, so the walk
up retraces the walk down (`Unwound`). What remains are the blocks that the call leaves
disconnected: all it disconnected below level 4 or when it returns early, else those
from the first one on that does not connect again. Nothing is changed exactly if these
blocks mint nothing in sum, no indexed address occurs in them, and every block asks, as
far as it is connected again, for the governance entries it has.
-/

namespace Rapids.Chain

open Rapids.Lib OrdMap

/-! ### The condition -/

section
variable (P : ChainParams) (M : GovernanceParams) (keys : PubKeys) (I : IndexParams) (W : VerifyWorld)

/-- How many blocks the way down takes off, and whether it comes to its end. The
flag says that the scratch view is at the entry. -/
def descent (level lo : Int) (undo : List CBlock → Option BlockUndo) : List CBlock → Bool → Nat × Bool
  | [], _ => (0, true)
  | b :: rest, still =>
    if ((rest.length + 1 : Nat) : Int) < lo then (0, true)
    else if !checkEntry P keys W level undo b rest then (0, false)
    else
      let goes := decide (3 ≤ level) && still && W.fits (b :: rest)
      let r := if W.shutdown (b :: rest) then (0, false) else descent level lo undo rest goes
      (if goes then r.1 + 1 else r.1, r.2)

/-- Does a block that was taken off connect again? -/
def reconnects (rest : List CBlock) (b : CBlock) : Bool :=
  W.readableAgain (b :: rest) && checkBlock P W.node (rest.length + 1) b &&
    W.checks.passInputs P (rest.length + 1) b.vtx ⟨replayCoins P rest, 0, 0, 0⟩ && W.checks.control b

/-- The governance actions that connecting it again comes to. -/
def recalledActions (tip : Nat) (rest : List CBlock) (b : CBlock) : List GovernanceAction :=
  if W.readableAgain (b :: rest) && checkBlock P W.node (rest.length + 1) b then
    reachedActions P (M.atTip tip (rest.length + 1)) W.checks (rest.length + 1) b.vtx
      ⟨replayCoins P rest, 0, 0, 0⟩
  else []

/-- The blocks that stay off, the lowest first, and the chain below them. -/
def leftOver (ascends : Bool) : List CBlock → List CBlock → List CBlock × List CBlock
  | [], rest => ([], rest)
  | b :: bs, rest =>
    if ascends && reconnects P W rest b then leftOver ascends bs (b :: rest) else (b :: bs, rest)

/-- What blocks on top of a chain mint. -/
def mintedBy : List CBlock → List CBlock → Int
  | [], _ => 0
  | b :: bs, rest =>
    ((connectTxs P (rest.length + 1) b.vtx ⟨replayCoins P rest, 0, 0, 0⟩).map
      fun r => toI64 (r.2.nValueOut - r.2.nValueIn)).getD 0 + mintedBy bs (b :: rest)

/-- A transaction neither pays nor spends from an indexed address. -/
def TxView.addressFree (w : TxView) : Bool :=
  (w.tx.vout.all fun o => (addressOf I o.scriptPubKey).isNone) &&
    w.inputs.all fun e => (addressOf I e.1.2.out.scriptPubKey).isNone

/-- Nor do the transactions of blocks on top of a chain. -/
def addressFree : List CBlock → List CBlock → Bool
  | [], _ => true
  | b :: bs, rest => (blockViews P rest b).all (TxView.addressFree I) && addressFree bs (b :: rest)

end

/-- The entries that actions write at a height are the same. -/
structure SameEntries (acts acts' : List GovernanceAction) : Prop where
  cost : ∀ type, acts.findSome? (GovernanceAction.writtenCost? type) =
    acts'.findSome? (GovernanceAction.writtenCost? type)
  fee : acts.findSome? GovernanceAction.fee? = acts'.findSome? GovernanceAction.fee?
  dev : acts.findSome? GovernanceAction.dev? = acts'.findSome? GovernanceAction.dev?

section
variable (P : ChainParams) (M : GovernanceParams) (keys : PubKeys) (I : IndexParams) (W : VerifyWorld)

/-- Each block that was taken off is asked for its governance entries again. -/
def governanceKept (tip : Nat) : Bool → List CBlock → List CBlock → Prop
  | _, [], _ => True
  | ascends, b :: bs, rest =>
    SameEntries (if ascends then recalledActions P M W tip rest b else []) (blockActions P M rest b) ∧
      governanceKept tip (ascends && reconnects P W rest b) bs (b :: rest)

variable (nCheckLevel nCheckDepth : Int) (s : ChainState)

/-- The way down of a call. -/
def verifyWalk : Nat × Bool :=
  descent P keys W (checkLevel nCheckLevel) (s.chain.length - checkDepth nCheckDepth s.chain.length)
    s.undo s.chain true

/-- The blocks that a call takes off, the lowest first. -/
def takenOff : List CBlock := (s.chain.take (verifyWalk P keys W nCheckLevel nCheckDepth s).1).reverse

/-- The chain below them. -/
def belowTaken : List CBlock := s.chain.drop (verifyWalk P keys W nCheckLevel nCheckDepth s).1

/-- Does the call come to the way up? -/
def ascends : Bool := (verifyWalk P keys W nCheckLevel nCheckDepth s).2 && decide (4 ≤ checkLevel nCheckLevel)

/-- The blocks that stay off, and the chain below them. -/
def staysOff : List CBlock × List CBlock :=
  leftOver P W (ascends P keys W nCheckLevel nCheckDepth s) (takenOff P keys W nCheckLevel nCheckDepth s)
    (belowTaken P keys W nCheckLevel nCheckDepth s)

/-- **The condition** on a call in a state. -/
structure VerifyKeeps : Prop where
  minted : toI64 (mintedBy P (staysOff P keys W nCheckLevel nCheckDepth s).1
    (staysOff P keys W nCheckLevel nCheckDepth s).2) = 0
  addresses : I.fAddressIndex = true → addressFree P I (staysOff P keys W nCheckLevel nCheckDepth s).1
    (staysOff P keys W nCheckLevel nCheckDepth s).2 = true
  governance : governanceKept P M W s.chain.length (ascends P keys W nCheckLevel nCheckDepth s)
    (takenOff P keys W nCheckLevel nCheckDepth s) (belowTaken P keys W nCheckLevel nCheckDepth s)

end

/-- Nothing that the node keeps is changed. -/
structure Untouched (s s' : IndexedNode) : Prop where
  nMoneySupply : s'.core.node.tip.nMoneySupply = s.core.node.tip.nMoneySupply
  address : s'.indexes.address = s.indexes.address
  unspent : s'.indexes.unspent = s.indexes.unspent
  spent : s'.indexes.spent = s.indexes.spent
  governance : s'.core.governance = s.core.governance
  coins : s'.core.node.tip.coins = s.core.node.tip.coins
  bestBlock : s'.core.node.tip.bestBlock = s.core.node.tip.bestBlock

/-! ### The way down -/

/-- Blocks were taken off a node, the last one being the first of the list. Connecting it
again leads back to the node before. -/
inductive Unwound (P : ChainParams) (I : IndexParams) (g : Int) (n : ChainState) (x : Indexes) :
    List CBlock → ChainState → Indexes → Prop
  | top : Unwound P I g n x [] n x
  | down {bs : List CBlock} {n₁ : ChainState} {x₁ : Indexes} {b : CBlock} {rest : List CBlock}
      {t : ChainTip} {undo : BlockUndo} (hup : Unwound P I g n x bs n₁ x₁)
      (hchain : n₁.chain = b :: rest) (hundo : n₁.undo (b :: rest) = some undo)
      (hrest : Replay P g rest t) (hext : Extends P rest t b undo n₁.tip)
      (hagain : connectedIndexes P I ⟨rest, t, n₁.undo⟩ b
        (revertIndexes I (rest.length + 1) (blockViews P rest b).reverse x₁) = x₁) :
      Unwound P I g n x (b :: bs) ⟨rest, t, n₁.undo⟩
        (revertIndexes I (rest.length + 1) (blockViews P rest b).reverse x₁)

section
variable {P : ChainParams} {M : GovernanceParams} {keys : PubKeys} {I : IndexParams} {W : VerifyWorld}
  {g : Int} {n n' : ChainState} {x x' : Indexes} {bs : List CBlock}

theorem Unwound.chain (h : Unwound P I g n x bs n' x') : n.chain = bs.reverse ++ n'.chain := by
  induction h with
  | top => rfl
  | down hup hchain hundo hrest hext hagain ih =>
    rw [ih, hchain, List.reverse_cons, List.append_assoc]
    rfl

theorem Unwound.undo (h : Unwound P I g n x bs n' x') : n'.undo = n.undo := by
  induction h with
  | top => rfl
  | down hup hchain hundo hrest hext hagain ih => exact ih

theorem Unwound.spent (h : Unwound P I g n x bs n' x') : x'.spent = x.spent := by
  induction h with
  | top => rfl
  | down hup hchain hundo hrest hext hagain ih => exact ih

theorem Unwound.last {b : CBlock} (h : Unwound P I g n x (b :: bs) n' x') :
    ∃ n₁ x₁ undo, Unwound P I g n x bs n₁ x₁ ∧ n₁ = ⟨b :: n'.chain, n₁.tip, n'.undo⟩ ∧
      n'.undo (b :: n'.chain) = some undo ∧ Replay P g n'.chain n'.tip ∧
      Extends P n'.chain n'.tip b undo n₁.tip ∧ connectedIndexes P I n' b x' = x₁ ∧
      x' = revertIndexes I (n'.chain.length + 1) (blockViews P n'.chain b).reverse x₁ := by
  cases h with
  | @down _ n₁ x₁ _ rest t undo hup hchain hundo hrest hext hagain =>
    refine ⟨n₁, x₁, undo, hup, ?_, hundo, hrest, hext, hagain, rfl⟩
    rw [← hchain]

theorem Unwound.taken (h : Unwound P I g n x bs n' x') :
    (n.chain.take bs.length).reverse = bs ∧ n.chain.drop bs.length = n'.chain := by
  rw [h.chain]
  have hlen : bs.length = bs.reverse.length := List.length_reverse.symm
  constructor
  · rw [hlen, List.take_left, List.reverse_reverse]
  · rw [hlen, List.drop_left]

theorem Unwound.blocksAbove (h : Unwound P I g n x bs n' x') : blocksAbove n.chain n'.chain = bs := by
  have hlen : n.chain.length - n'.chain.length = bs.length := by
    rw [h.chain, List.length_append, List.length_reverse, Nat.add_sub_cancel]
  rw [Chain.blocksAbove, hlen, h.taken.1]

variable (hmax : P.nMaxMoneyOut ≤ i64Max) (hmature : 0 < P.nCoinbaseMaturity)
  (hzc : ∀ n < 1073741824, networkUpgradeActive P.upgradeZC n = false) (hg : InI64 g)
include hmax hmature hzc hg

variable (keys W) in
/-- The way down takes off as many blocks as `descent` says, and finds nothing unclean. -/
theorem verifyDown_unwinds {s : IndexedNode} (level lo : Int) {entries : List CBlock} (still : Bool)
    {scratch : IndexedNode} (hi : IndexedInv P M I g scratch)
    (hu : Unwound P I g s.core.node s.indexes bs scratch.core.node scratch.indexes)
    (hat : if still then scratch.core.node.chain = entries
      else entries.length < scratch.core.node.chain.length) :
    ∃ scratch' bs', verifyDown P M keys I W level lo entries ⟨scratch, false⟩ =
        ((verifyDown P M keys I W level lo entries ⟨scratch, false⟩).1, ⟨scratch', false⟩) ∧
      ((verifyDown P M keys I W level lo entries ⟨scratch, false⟩).1 = none ↔
        (descent P keys W level lo s.core.node.undo entries still).2 = true) ∧
      Unwound P I g s.core.node s.indexes bs' scratch'.core.node scratch'.indexes ∧
      bs'.length = bs.length + (descent P keys W level lo s.core.node.undo entries still).1 ∧
      IndexedInv P M I g scratch' := by
  induction entries generalizing scratch bs still with
  | nil => exact ⟨scratch, bs, rfl, by simp [verifyDown, descent], hu, rfl, hi⟩
  | cons b rest ih =>
    rw [verifyDown, descent]
    dsimp only
    rw [hu.undo]
    by_cases hlo : ((rest.length + 1 : Nat) : Int) < lo
    · rw [if_pos hlo, if_pos hlo]
      exact ⟨scratch, bs, rfl, by simp, hu, rfl, hi⟩
    rw [if_neg hlo, if_neg hlo]
    by_cases hcheck : (!checkEntry P keys W level s.core.node.undo b rest) = true
    · rw [if_pos hcheck, if_pos hcheck]
      exact ⟨scratch, bs, rfl, by simp, hu, rfl, hi⟩
    rw [if_neg hcheck, if_neg hcheck]
    have hgoes : (3 ≤ level ∧ scratch.core.node.chain = b :: rest ∧ W.fits (b :: rest) = true) ↔
        (decide (3 ≤ level) && still && W.fits (b :: rest)) = true := by
      have hstill : scratch.core.node.chain = b :: rest ↔ still = true := by
        cases still with
        | true => exact ⟨fun _ => rfl, fun _ => hat⟩
        | false =>
          refine ⟨fun heq => ?_, fun hfalse => by cases hfalse⟩
          rw [heq] at hat
          exact absurd hat (by simp)
      rw [hstill, Bool.and_eq_true, Bool.and_eq_true, decide_eq_true_eq, and_assoc]
    by_cases hgo : (decide (3 ≤ level) && still && W.fits (b :: rest)) = true
    · have hall := hgoes.mpr hgo
      obtain ⟨t, undo, hundo, hext, hviews, hcall, hnext, hagain⟩ :=
        hi.disconnect keys hmax hmature hzc hg W.zerocoins hall.2.1
      rw [if_pos hall, hcall, hgo, hviews]
      rw [hviews] at hnext hagain
      have hu' := hu.down hall.2.1 hundo hnext.grounded.chain.replay hext hagain
      cases hshut : W.shutdown (b :: rest) with
      | true => exact ⟨_, b :: bs, by simp, by simp, hu', by simp, hnext⟩
      | false =>
        obtain ⟨scratch', bs', heq, hend, hun, hlen, hinv⟩ := @ih _ true _ hnext hu' rfl
        refine ⟨scratch', bs', by simpa using heq, by simpa using hend, hun, ?_, hinv⟩
        rw [hlen, List.length_cons, if_neg Bool.false_ne_true, if_pos rfl]
        omega
    · have hnot := fun hall => hgo (hgoes.mp hall)
      rw [if_neg hnot]
      rw [Bool.not_eq_true] at hgo
      rw [hgo]
      cases hshut : W.shutdown (b :: rest) with
      | true => exact ⟨scratch, bs, by simp, by simp, hu, by simp, hi⟩
      | false =>
        have hbelow : rest.length < scratch.core.node.chain.length := by
          cases still with
          | true =>
            rw [show scratch.core.node.chain = b :: rest from hat, List.length_cons]
            exact Nat.lt_succ_self _
          | false =>
            have hlt : (b :: rest).length < scratch.core.node.chain.length := hat
            rw [List.length_cons] at hlt
            omega
        obtain ⟨scratch', bs', heq, hend, hun, hlen, hinv⟩ := @ih _ false _ hi hu hbelow
        exact ⟨scratch', bs', by simpa using heq, by simpa using hend, hun, by simpa using hlen, hinv⟩

end

/-! ### The way up -/

/-- The governance database after the way up. -/
def regoverned (P : ChainParams) (M : GovernanceParams) (W : VerifyWorld) (tip : Nat) :
    Bool → List CBlock → List CBlock → Governance → Governance
  | _, [], _, d => d
  | ascends, b :: bs, rest, d =>
    regoverned P M W tip (ascends && reconnects P W rest b) bs (b :: rest)
      ((if ascends then recalledActions P M W tip rest b else []).foldl (applyUpdate (rest.length + 1)) d)

section
variable {P : ChainParams} {M : GovernanceParams} {keys : PubKeys} {I : IndexParams} {W : VerifyWorld}
  {g : Int} {n n₁ n₂ : ChainState} {x : Indexes} {b : CBlock} {bs rest : List CBlock} {tip : Nat}

theorem regoverned_false (d : Governance) : regoverned P M W tip false bs rest d = d := by
  induction bs generalizing rest d with
  | nil => rfl
  | cons b bs ih =>
    rw [regoverned, Bool.false_and]
    exact ih _

theorem leftOver_false : leftOver P W false bs rest = (bs, rest) := by
  cases bs with
  | nil => rfl
  | cons b bs => rfl

variable {undo : BlockUndo} {tip' : ChainTip} {N : NodeState} {C : LeftOutChecks}

section
variable (hrest : Replay P g n.chain n.tip) (hext : Extends P n.chain n.tip b undo tip')
include hrest hext

theorem calledActions_again
    :
    calledActions P M N C n b =
      if checkBlock P N (n.chain.length + 1) b then
        reachedActions P M C (n.chain.length + 1) b.vtx ⟨replayCoins P n.chain, 0, 0, 0⟩
      else [] := by
  obtain ⟨hprev, ⟨-, hnone, -⟩ | ⟨hgen, hpos, -⟩⟩ := connectCore_cases hext.core
  · cases hnone
  have hloop : reachesLoop P N n b = checkBlock P N (n.chain.length + 1) b := by
    rw [reachesLoop, hprev]
    cases hup : networkUpgradeActive P.upgradePos (n.chain.length + 1) with
    | false => simp [hgen]
    | true => simp [hgen, (hpos hup).1]
  rw [calledActions, hloop, hrest.coins]

theorem connects_again
    (hstore : n.undo (b :: n.chain) = some undo) :
    connects P keys N C n b =
      if checkBlock P N (n.chain.length + 1) b &&
          C.passInputs P (n.chain.length + 1) b.vtx ⟨replayCoins P n.chain, 0, 0, 0⟩ && C.control b then
        some ⟨b :: n.chain, tip', n.undo⟩
      else none := by
  obtain ⟨-, ⟨-, hnone, -⟩ | ⟨hgen, -, -⟩⟩ := connectCore_cases hext.core
  · cases hnone
  have hundo : storeUndo n.undo (b :: n.chain) (some undo) = n.undo := by
    funext entry
    rw [storeUndo, if_neg]
    rintro ⟨rfl, hnone⟩
    rw [hstore] at hnone
    cases hnone
  rw [connects, hrest.coins, chainStep]
  rw [if_neg hgen, connectBlock, hext.core]
  cases checkBlock P N (n.chain.length + 1) b with
  | false => simp
  | true => simp [hundo]

end

theorem verifyUp_unwinds {s : IndexedNode} (hu : Unwound P I g n x bs s.core.node s.indexes) :
    ∃ s', (verifyUp P M keys I W tip bs s).2 = s' ∧
      Unwound P I g n x (leftOver P W true bs s.core.node.chain).1 s'.core.node s'.indexes ∧
      s'.core.node.chain = (leftOver P W true bs s.core.node.chain).2 ∧
      s'.core.governance = regoverned P M W tip true bs s.core.node.chain s.core.governance := by
  induction bs generalizing s with
  | nil => exact ⟨s, rfl, hu, rfl, rfl⟩
  | cons b bs ih =>
    obtain ⟨n₁, x₁, undo, hup, hn1, hundo, hrest, hext, hagain, -⟩ := hu.last
    rw [verifyUp, leftOver, regoverned, Bool.true_and, if_pos rfl, connectCall]
    rw [calledActions_again hrest hext, connects_again hrest hext hundo, reconnects, recalledActions]
    cases W.readableAgain (b :: s.core.node.chain) with
    | false => exact ⟨s, rfl, hu, rfl, (regoverned_false _).symm⟩
    | true =>
      cases hok : checkBlock P W.node (s.core.node.chain.length + 1) b &&
          W.checks.passInputs P (s.core.node.chain.length + 1) b.vtx
            ⟨replayCoins P s.core.node.chain, 0, 0, 0⟩ && W.checks.control b with
      | false =>
        refine ⟨_, rfl, ?_, ?_, ?_⟩
        · simpa [hok] using hu
        · simp [hok]
        · simp only [Bool.true_and, hok, regoverned_false]
          rfl
      | true =>
        obtain ⟨s', heq, hun, hch, hgov⟩ := ih (s := ⟨⟨n₁, _⟩, x₁⟩) hup
        rw [hn1] at heq hun hch hgov
        refine ⟨s', ?_, ?_, ?_, ?_⟩
        · simp only [if_true, hagain]
          exact heq
        · simpa [hok] using hun
        · simpa [hok] using hch
        · simpa [hok] using hgov

end

/-! ### Governance -/

/-- Two databases have the same entries at a height. -/
structure SameAt (d d' : Governance) (h : Nat) : Prop where
  cost : ∀ type, d.costs.find? (toLex (type, h)) = d'.costs.find? (toLex (type, h))
  fee : d.feeScripts.find? h = d'.feeScripts.find? h
  dev : d.devScripts.find? h = d'.devScripts.find? h

/-- A database has no entries at a height. -/
structure FreeAt (d : Governance) (h : Nat) : Prop where
  cost : ∀ type, d.costs.find? (toLex (type, h)) = none
  fee : d.feeScripts.find? h = none
  dev : d.devScripts.find? h = none

section
variable {P : ChainParams} {M : GovernanceParams} {W : VerifyWorld} {d d' d'' : Governance} {h : Nat}
  {acts acts' : List GovernanceAction} {bs rest : List CBlock} {tip : Nat}

theorem SameAt.refl (d : Governance) (h : Nat) : SameAt d d h := ⟨fun _ => rfl, rfl, rfl⟩

theorem SameAt.symm (hs : SameAt d d' h) : SameAt d' d h :=
  ⟨fun type => (hs.cost type).symm, hs.fee.symm, hs.dev.symm⟩

theorem SameAt.trans (hs : SameAt d d' h) (hs' : SameAt d' d'' h) : SameAt d d'' h :=
  ⟨fun type => (hs.cost type).trans (hs'.cost type), hs.fee.trans hs'.fee, hs.dev.trans hs'.dev⟩

theorem FreeAt.same (hd : FreeAt d h) (hd' : FreeAt d' h) : SameAt d d' h :=
  ⟨fun type => (hd.cost type).trans (hd'.cost type).symm, hd.fee.trans hd'.fee.symm,
    hd.dev.trans hd'.dev.symm⟩

theorem FreeAt.of_same (hd : FreeAt d h) (hs : SameAt d' d h) : FreeAt d' h :=
  ⟨fun type => (hs.cost type).trans (hd.cost type), hs.fee.trans hd.fee, hs.dev.trans hd.dev⟩

theorem governance_ext (hs : ∀ h, SameAt d d' h) : d = d' := by
  have hcosts : d.costs = d'.costs := by
    refine ext_find? fun key => ?_
    obtain ⟨type, k, rfl⟩ : ∃ type k, key = toLex (type, k) := ⟨_, _, rfl⟩
    exact (hs k).cost type
  have hfees : d.feeScripts = d'.feeScripts := ext_find? fun k => (hs k).fee
  have hdevs : d.devScripts = d'.devScripts := ext_find? fun k => (hs k).dev
  obtain ⟨costs, feeScripts, devScripts⟩ := d
  dsimp only at hcosts hfees hdevs
  rw [hcosts, hfees, hdevs]

theorem sameAt_update_ne {k : Nat} (hk : k ≠ h) : SameAt (acts.foldl (applyUpdate h) d) d k := by
  refine ⟨fun type => ?_, ?_, ?_⟩
  · rw [costs_update, if_neg hk]
  · rw [feeScripts_update, if_neg hk]
  · rw [devScripts_update, if_neg hk]

theorem sameAt_update (hd : FreeAt d h) (hd' : FreeAt d' h) :
    SameAt (acts.foldl (applyUpdate h) d) (acts'.foldl (applyUpdate h) d') h ↔ SameEntries acts acts' := by
  have hcost : ∀ {acts : List GovernanceAction} {d : Governance}, FreeAt d h → ∀ type,
      (acts.foldl (applyUpdate h) d).costs.find? (toLex (type, h)) =
        acts.findSome? (GovernanceAction.writtenCost? type) := by
    intro acts d hd type
    rw [costs_update, if_pos rfl, hd.cost, Option.none_or]
  have hfee : ∀ {acts : List GovernanceAction} {d : Governance}, FreeAt d h →
      (acts.foldl (applyUpdate h) d).feeScripts.find? h = acts.findSome? GovernanceAction.fee? := by
    intro acts d hd
    rw [feeScripts_update, if_pos rfl, hd.fee, Option.none_or]
  have hdev : ∀ {acts : List GovernanceAction} {d : Governance}, FreeAt d h →
      (acts.foldl (applyUpdate h) d).devScripts.find? h = acts.findSome? GovernanceAction.dev? := by
    intro acts d hd
    rw [devScripts_update, if_pos rfl, hd.dev, Option.none_or]
  constructor
  · intro hs
    refine ⟨fun type => ?_, ?_, ?_⟩
    · rw [← hcost hd, ← hcost hd']
      exact hs.cost type
    · rw [← hfee hd, ← hfee hd']
      exact hs.fee
    · rw [← hdev hd, ← hdev hd']
      exact hs.dev
  · intro hs
    refine ⟨fun type => ?_, ?_, ?_⟩
    · rw [hcost hd, hcost hd']
      exact hs.cost type
    · rw [hfee hd, hfee hd']
      exact hs.fee
    · rw [hdev hd, hdev hd']
      exact hs.dev

theorem freeAt_governanceOf (hk : rest.length < h) : FreeAt (governanceOf P M rest) h :=
  ⟨fun type => costs_above rest type hk, (top_fee rest).above hk, (top_dev rest).above hk⟩

theorem governanceOf_append (xs : List CBlock) (hk : h ≤ rest.length) :
    SameAt (governanceOf P M (xs ++ rest)) (governanceOf P M rest) h := by
  induction xs with
  | nil => exact SameAt.refl _ h
  | cons b xs ih =>
    have hlen : h ≠ (xs ++ rest).length + 1 := by
      rw [List.length_append]
      omega
    exact SameAt.trans (sameAt_update_ne hlen) ih

variable (W bs tip) in
/-- The database after the way up, from one without entries above the blocks: it is that
of the chain if each block is asked for its entries. -/
theorem regoverned_same (asc : Bool) (hfree : ∀ h, rest.length < h → FreeAt d h) :
    (∀ h, h ≤ rest.length → SameAt (regoverned P M W tip asc bs rest d) d h) ∧
      ((∀ h, rest.length < h →
          SameAt (regoverned P M W tip asc bs rest d) (governanceOf P M (bs.reverse ++ rest)) h) ↔
        governanceKept P M W tip asc bs rest) := by
  induction bs generalizing asc rest d with
  | nil =>
    refine ⟨fun h _ => SameAt.refl d h, fun _ => trivial, fun _ h hk => ?_⟩
    exact (hfree h hk).same (freeAt_governanceOf hk)
  | cons b bs ih =>
    rw [regoverned, governanceKept]
    generalize hacts : (if asc then recalledActions P M W tip rest b else []) = acts
    have hfree' : ∀ h, (b :: rest).length < h →
        FreeAt (acts.foldl (applyUpdate (rest.length + 1)) d) h := by
      intro h hk
      rw [List.length_cons] at hk
      exact (hfree h (by omega)).of_same (sameAt_update_ne (by omega))
    obtain ⟨hbelow, habove⟩ := @ih _ (b :: rest) (asc && reconnects P W rest b) hfree'
    have happend : (b :: bs).reverse ++ rest = bs.reverse ++ b :: rest := by simp
    rw [← habove, happend, ← sameAt_update (hfree (rest.length + 1) (Nat.lt_succ_self _))
      (freeAt_governanceOf (Nat.lt_succ_self rest.length))]
    -- the entries of the block itself, once those above are written
    have hself := hbelow (rest.length + 1) le_rfl
    have hchain : SameAt (governanceOf P M (bs.reverse ++ b :: rest)) (governanceOf P M (b :: rest))
        (rest.length + 1) := governanceOf_append bs.reverse le_rfl
    refine ⟨fun h hk => ?_, fun hall => ⟨?_, fun h hk => ?_⟩, fun hall h hk => ?_⟩
    · exact (hbelow h (by rw [List.length_cons]; omega)).trans (sameAt_update_ne (by omega))
    · exact (hself.symm.trans (hall _ (Nat.lt_succ_self _))).trans hchain
    · rw [List.length_cons] at hk
      exact hall h (by omega)
    · rcases Nat.lt_or_ge (rest.length + 1) h with hgt | hle
      · exact hall.2 h hgt
      · obtain rfl : h = rest.length + 1 := by omega
        exact (hself.trans hall.1).trans hchain.symm

variable (P M W bs rest tip) in
/-- The database is that of the whole chain again, exactly if each block is asked for
its entries. -/
theorem regoverned_eq_iff (asc : Bool) :
    regoverned P M W tip asc bs rest (governanceOf P M rest) = governanceOf P M (bs.reverse ++ rest) ↔
      governanceKept P M W tip asc bs rest := by
  have hfree : ∀ h, rest.length < h → FreeAt (governanceOf P M rest) h := fun h hk => freeAt_governanceOf hk
  obtain ⟨hbelow, habove⟩ := regoverned_same W bs tip asc hfree
  constructor
  · intro heq
    refine habove.mp fun h _ => ?_
    rw [heq]
    exact SameAt.refl _ h
  · intro hkept
    refine governance_ext fun h => ?_
    rcases Nat.lt_or_ge rest.length h with hgt | hle
    · exact habove.mpr hkept h hgt
    · exact (hbelow h hle).trans (governanceOf_append _ hle).symm

end

/-! ### The money supply -/

section
variable {P : ChainParams} {I : IndexParams} {g : Int} {n n' : ChainState} {x x' : Indexes}
  {bs : List CBlock}

theorem Unwound.replay (h : Unwound P I g n x bs n' x') (hn : Replay P g n.chain n.tip) :
    Replay P g n'.chain n'.tip := by
  cases h with
  | top => exact hn
  | down hup hchain hundo hrest hext hagain => exact hrest

theorem Unwound.supply (h : Unwound P I g n x bs n' x') (hs : InI64 n.tip.nMoneySupply) :
    n.tip.nMoneySupply = toI64 (n'.tip.nMoneySupply + mintedBy P bs n'.chain) := by
  induction bs generalizing n' x' with
  | nil =>
    cases h
    rw [mintedBy, Int.add_zero, toI64_of_inI64 hs]
  | cons b bs ih =>
    obtain ⟨n₁, x₁, undo, hup, hn1, -, hrest, hext, -, -⟩ := h.last
    obtain ⟨undos, t, htxs, -, -, hsupply⟩ := hext.connectTxs hrest
    have hchain : n₁.chain = b :: n'.chain := congrArg ChainState.chain hn1
    rw [ih hup, hsupply, hchain, mintedBy, htxs, Option.map_some, Option.getD_some, toI64_toI64_add,
      Int.add_assoc]

end

/-! ### The indexes -/

section
variable {P : ChainParams} {I : IndexParams} {nHeight i : Nat} {w : TxView}

/-- A transaction pays no indexed address. -/
def PaysNone (I : IndexParams) (w : TxView) : Prop :=
  ∀ e ∈ w.outputs, addressOf I e.1.scriptPubKey = none

theorem addressFree_iff :
    w.addressFree I = true ↔
      PaysNone I w ∧ ∀ e ∈ w.inputs, addressOf I e.1.2.out.scriptPubKey = none := by
  simp only [TxView.addressFree, Bool.and_eq_true, List.all_eq_true, Option.isNone_iff_eq_none]
  refine and_congr ⟨fun h e he => ?_, fun h o ho => ?_⟩ Iff.rfl
  · exact h e.1 (List.mem_of_getElem? (mem_outputs.mp he))
  · obtain ⟨j, hj⟩ := List.mem_iff_getElem?.mp ho
    exact h (o, j) (mem_outputs.mpr hj)

variable (nHeight) in
theorem disconnect_addressFree (h : w.addressFree I = true) :
    w.disconnectAddress I nHeight = [] ∧ w.disconnectUnspent I = [] := by
  obtain ⟨hout, hin⟩ := addressFree_iff.mp h
  rw [TxView.disconnectAddress, TxView.disconnectUnspent]
  simp only [List.append_eq_nil_iff, List.filterMap_eq_nil_iff, List.mem_reverse]
  refine ⟨⟨fun e he => ?_, fun e he => ?_⟩, fun e he => ?_, fun e he => ?_⟩
  · rw [hout e he, Option.map_none]
  · rw [hin e he, Option.map_none]
  · rw [hout e he, Option.map_none]
  · rw [hin e he, Option.map_none]

theorem connectUnspent_addressFree (h : w.addressFree I = true) : w.connectUnspent I nHeight = [] := by
  obtain ⟨hout, hin⟩ := addressFree_iff.mp h
  rw [TxView.connectUnspent]
  simp only [List.append_eq_nil_iff, List.filterMap_eq_nil_iff]
  refine ⟨fun e he => ?_, fun e he => ?_⟩
  · rw [hin e he, Option.map_none]
  · rw [hout e he, Option.map_none]

theorem connectUnspent_none (h : PaysNone I w) {k : AddressUnspentKey} {y : Option AddressUnspentValue}
    (hmem : (k, y) ∈ w.connectUnspent I nHeight) : y = none := by
  rcases mem_connectUnspent.mp hmem with ⟨-, -, -, -, rfl⟩ | ⟨e, he, ha, -, -⟩
  · rfl
  · rw [h e he] at ha
    cases ha

variable {hashes : List Nat} {t t' : Tally} {txs : List Transaction} {undos : List (List Coin)}

/-- Transactions that pay none but spend from an indexed address erase an entry. -/
theorem UnspentInv.erases {m : AddressUnspentKey → Option AddressUnspentValue}
    (hi : UnspentInv I hashes t.coins m) (hv : Coins.Stored t.coins) (hfresh : NewHashes hashes txs)
    (hu : Undoable nHeight txs) (h : Chain.connectTxs P nHeight txs t = some (undos, t'))
    (hpays : ∀ w ∈ connectViews P nHeight txs i t, PaysNone I w)
    (hspends : ∃ w ∈ connectViews P nHeight txs i t, ¬ w.addressFree I = true) :
    ∃ k, m k ≠ none ∧
      writeBatch ((connectViews P nHeight txs i t).flatMap (TxView.connectUnspent I nHeight)) m k = none := by
  have hnone : ∀ k y, (k, y) ∈ (connectViews P nHeight txs i t).flatMap (TxView.connectUnspent I nHeight) →
      y = none := by
    intro k y hmem
    obtain ⟨w, hw, hmem⟩ := List.mem_flatMap.mp hmem
    exact connectUnspent_none (hpays w hw) hmem
  induction txs generalizing i hashes t undos m with
  | nil =>
    obtain ⟨w, hw, -⟩ := hspends
    cases hw
  | cons tx rest ih =>
    obtain ⟨undo, t₁, undos', h1, h2, rfl⟩ := connectTxs_cons h
    rw [connectViews_cons h1] at hpays hspends hnone ⊢
    have hfirst := hpays _ (.head _)
    by_cases hfree : (viewOf t.coins i tx).addressFree I = true
    · -- the first transaction has no operations
      have hbatch : (viewOf t.coins i tx).connectUnspent I nHeight = [] :=
        connectUnspent_addressFree hfree
      have hstep := hi.connect (i := i) (hfresh.fresh tx (.head _)) h1
      rw [hbatch, writeBatch_nil] at hstep
      have hv1 := (connectTx_stored hv (hu.keepable tx (.head _))
        (hu.nodup tx (.head _)) h1).1
      rw [List.flatMap_cons, hbatch, List.nil_append] at hnone ⊢
      refine ih hstep hv1 hfresh.tail hu.tail h2 (fun w hw => hpays w (.tail _ hw)) ?_ hnone
      obtain ⟨w, hw, hnot⟩ := hspends
      rcases List.mem_cons.mp hw with rfl | hw
      · exact absurd hfree hnot
      · exact ⟨w, hw, hnot⟩
    · -- it spends a coin of an indexed address, which stood in the index
      have hex : ∃ e ∈ (viewOf t.coins i tx).inputs, addressOf I e.1.2.out.scriptPubKey ≠ none := by
        by_contra hno
        push Not at hno
        exact hfree (addressFree_iff.mpr ⟨hfirst, hno⟩)
      obtain ⟨e, he, haddr⟩ := hex
      obtain ⟨a, ha⟩ := Option.ne_none_iff_exists'.mp haddr
      have hfind := (input_have h1 he).2.2
      refine ⟨⟨a, e.1.1.prevout⟩, ?_, ?_⟩
      · have hvalue := (hv _ _ hfind).value_nonneg
        rw [hi.coins _ _ a hfind ha, unspentValue, if_neg (by omega)]
        simp
      · refine writeBatch_of_mem ?_ fun y hy => hnone _ y hy
        exact List.mem_flatMap.mpr ⟨_, .head _,
          mem_connectUnspent.mpr (.inl ⟨e, he, ha, rfl, rfl⟩)⟩

end

/-- Blocks on top of a chain pay no indexed address. -/
def BlocksPayNone (P : ChainParams) (I : IndexParams) : List CBlock → List CBlock → Prop
  | [], _ => True
  | b :: bs, rest => (∀ w ∈ blockViews P rest b, PaysNone I w) ∧ BlocksPayNone P I bs (b :: rest)

section
variable {P : ChainParams} {I : IndexParams} {g : Int} {n n' : ChainState} {x x' : Indexes}
  {bs rest : List CBlock}

theorem unspentOf_erased (hpay : BlocksPayNone P I bs rest) {k : AddressUnspentKey}
    (hk : unspentOf P I rest k = none) : unspentOf P I (bs.reverse ++ rest) k = none := by
  induction bs generalizing rest with
  | nil => exact hk
  | cons b bs ih =>
    rw [List.reverse_cons, List.append_assoc]
    refine ih hpay.2 ?_
    show unspentOf P I (b :: rest) k = none
    rw [unspentOf]
    rcases writeBatch_cases ((blockViews P rest b).flatMap (TxView.connectUnspent I (rest.length + 1)))
      (unspentOf P I rest) k with ⟨-, hsame⟩ | ⟨y, hy, hval⟩
    · rw [hsame, hk]
    · obtain ⟨w, hw, hmem⟩ := List.mem_flatMap.mp hy
      rw [hval, connectUnspent_none (hpay.1 w hw) hmem]

theorem Unwound.address_erased (hon : I.fAddressIndex = true) (h : Unwound P I g n x bs n' x')
    (k : AddressIndexKey) : x'.address k = x.address k ∨ x'.address k = none := by
  induction bs generalizing n' x' with
  | nil =>
    cases h
    exact .inl rfl
  | cons b bs ih =>
    obtain ⟨n₁, x₁, undo, hup, -, -, -, -, -, rfl⟩ := h.last
    have hval : (revertIndexes I (n'.chain.length + 1) (blockViews P n'.chain b).reverse x₁).address k =
        if k ∈ addressKeys P I n'.chain b then none else x₁.address k := by
      rw [revertIndexes_address hon]
      exact eraseAddress_apply k
    rw [hval]
    split_ifs with hmem
    · exact .inr rfl
    · exact ih hup

/-- Where the address index is as before, no block that was taken off pays an address. -/
theorem Unwound.paysNone (hon : I.fAddressIndex = true) (hrec : AddressRecords P I n.chain x.address)
    (h : Unwound P I g n x bs n' x') (heq : x'.address = x.address) : BlocksPayNone P I bs n'.chain := by
  induction bs generalizing n' x' with
  | nil => exact trivial
  | cons b bs ih =>
    obtain ⟨n₁, x₁, undo, hup, hn1, -, -, -, -, hx'⟩ := h.last
    have hval : ∀ k, x'.address k = if k ∈ addressKeys P I n'.chain b then none else x₁.address k := by
      intro k
      rw [hx', revertIndexes_address hon]
      exact eraseAddress_apply k
    have hchain : n₁.chain = b :: n'.chain := congrArg ChainState.chain hn1
    -- what was erased last was not there before either
    have hsame : x₁.address = x.address := by
      funext k
      rcases hup.address_erased hon k with hk | hk
      · exact hk
      · have hbefore := hval k
        rw [hk, ite_self, heq] at hbefore
        rw [hk, hbefore]
    have hpay := ih hup hsame
    rw [hchain] at hpay
    refine ⟨fun w hw e he => ?_, hpay⟩
    by_contra haddr
    obtain ⟨a, ha⟩ := Option.ne_none_iff_exists'.mp haddr
    have hmem : (w.activityKey (n'.chain.length + 1) a e.2 false, some e.1.nValue) ∈
        addressRecords P I n'.chain b :=
      List.mem_flatMap.mpr ⟨w, hw, mem_connectAddress.mpr (.inr ⟨e, he, ha, rfl, rfl⟩)⟩
    have hsuf : b :: n'.chain <:+ n.chain := by
      rw [hup.chain, hchain]
      exact List.suffix_append _ _
    have hsome := hrec.recorded b n'.chain hsuf _ hmem
    have hgone := hval (w.activityKey (n'.chain.length + 1) a e.2 false)
    rw [if_pos (mem_addressKeys_of_received hmem rfl), heq, hsome] at hgone
    cases hgone

theorem Unwound.same_of_addressFree (h : Unwound P I g n x bs n' x')
    (hfree : addressFree P I bs n'.chain = true) :
    x'.address = x.address ∧ x'.unspent = x.unspent := by
  induction bs generalizing n' x' with
  | nil =>
    cases h
    exact ⟨rfl, rfl⟩
  | cons b bs ih =>
    obtain ⟨n₁, x₁, undo, hup, hn1, -, -, -, -, rfl⟩ := h.last
    rw [addressFree, Bool.and_eq_true, List.all_eq_true] at hfree
    have hchain : n₁.chain = b :: n'.chain := congrArg ChainState.chain hn1
    obtain ⟨haddress, hunspent⟩ := ih hup (by rw [hchain]; exact hfree.2)
    have hnoAddress : (blockViews P n'.chain b).reverse.flatMap
        (TxView.disconnectAddress I (n'.chain.length + 1)) = [] :=
      List.flatMap_eq_nil_iff.mpr fun w hw =>
        (disconnect_addressFree _ (hfree.1 w (List.mem_reverse.mp hw))).1
    have hnoUnspent : (blockViews P n'.chain b).reverse.flatMap (TxView.disconnectUnspent I) = [] :=
      List.flatMap_eq_nil_iff.mpr fun w hw =>
        (disconnect_addressFree 0 (hfree.1 w (List.mem_reverse.mp hw))).2
    rw [revertIndexes, hnoAddress, hnoUnspent]
    refine ⟨?_, ?_⟩
    · rw [← haddress]
      exact ite_self _
    · rw [← hunspent]
      exact ite_self _

theorem Unwound.same_of_off (hoff : I.fAddressIndex = false) (h : Unwound P I g n x bs n' x') :
    x'.address = x.address ∧ x'.unspent = x.unspent := by
  induction bs generalizing n' x' with
  | nil =>
    cases h
    exact ⟨rfl, rfl⟩
  | cons b bs ih =>
    obtain ⟨n₁, x₁, undo, hup, -, -, -, -, -, rfl⟩ := h.last
    rw [revertIndexes, hoff]
    exact ih hup

variable (hmax : P.nMaxMoneyOut ≤ i64Max) (hmature : 0 < P.nCoinbaseMaturity) (hg : InI64 g)
include hmax hmature hg

theorem Unwound.grounded (hzc : ∀ n < 1073741824, networkUpgradeActive P.upgradeZC n = false)
    (h : Unwound P I g n x bs n' x') (hn : Grounded P I g n x) : Grounded P I g n' x' := by
  induction h with
  | top => exact hn
  | down hup hchain hundo hrest hext hagain ih =>
    obtain ⟨t, undo, -, hrest', -, -, hviews, hground, -⟩ :=
      ih.disconnect hmax hmature hg hzc noKeys noZerocoins hchain
    rw [hviews, hrest'.unique hrest] at hground
    exact hground

theorem Unwound.addressFree_of_unspent (h : Unwound P I g n x bs n' x')
    (hnd : (chainHashes n.chain).Nodup)
    (hpay : BlocksPayNone P I bs n'.chain) (heq : unspentOf P I n.chain = unspentOf P I n'.chain) :
    addressFree P I bs n'.chain = true := by
  induction bs generalizing n' x' with
  | nil => rfl
  | cons b bs ih =>
    obtain ⟨n₁, x₁, undo, hup, hn1, -, hrest, hext, -, -⟩ := h.last
    have hchain : n₁.chain = b :: n'.chain := congrArg ChainState.chain hn1
    have htop : n.chain = bs.reverse ++ b :: n'.chain := by rw [hup.chain, hchain]
    have hhashes : (chainHashes (b :: n'.chain)).Nodup := by
      rw [htop, chainHashes, List.flatMap_append, List.nodup_append] at hnd
      exact hnd.2.1
    obtain ⟨hnew, hnd'⟩ := newHashes_of_nodup hhashes
    obtain ⟨undos, t, htxs, -, -, -⟩ := hext.connectTxs hrest
    obtain ⟨hstored, hundoable⟩ := hrest.undoable hmax hmature hg hext
    have hinv := hrest.unspent (I := I) hnd'
    rw [hrest.coins] at hinv
    by_cases hfree : ∀ w ∈ blockViews P n'.chain b, w.addressFree I = true
    · have hbatch : (blockViews P n'.chain b).flatMap (TxView.connectUnspent I (n'.chain.length + 1)) = [] :=
        List.flatMap_eq_nil_iff.mpr fun w hw => connectUnspent_addressFree (hfree w hw)
      have hstep : unspentOf P I (b :: n'.chain) = unspentOf P I n'.chain := by
        rw [unspentOf, hbatch, writeBatch_nil]
      have hlater := ih hup (by rw [hchain]; exact hpay.2) (by rw [hchain, hstep, heq])
      rw [hchain] at hlater
      rw [addressFree, hlater, Bool.and_true, List.all_eq_true]
      exact hfree
    · push Not at hfree
      obtain ⟨k, hsome, hgone⟩ := hinv.erases hstored
        hnew hundoable htxs hpay.1 hfree
      have herased := unspentOf_erased hpay.2 hgone
      rw [← htop, heq] at herased
      exact absurd herased hsome

/-- **The address and unspent indexes are as before** exactly if no indexed address
occurs in the blocks taken off. -/
theorem Unwound.indexes_same_iff (hon : I.fAddressIndex = true)
    (hzc : ∀ n < 1073741824, networkUpgradeActive P.upgradeZC n = false)
    (h : Unwound P I g n x bs n' x') (hn : Grounded P I g n x) :
    (x'.address = x.address ∧ x'.unspent = x.unspent) ↔ addressFree P I bs n'.chain = true := by
  refine ⟨fun ⟨haddress, hunspent⟩ => ?_, h.same_of_addressFree⟩
  have hbelow := h.grounded hmax hmature hg hzc hn
  refine h.addressFree_of_unspent hmax hmature hg hn.hashes
    (h.paysNone hon (hn.address hon) haddress) ?_
  rw [← hn.unspent hon, ← hbelow.unspent hon, hunspent]

end

/-! ### Calls -/

section
variable {P : ChainParams} {M : GovernanceParams} {keys : PubKeys} {I : IndexParams} {W : VerifyWorld}
  {g : Int} {s : IndexedNode}

theorem Untouched.refl (s : IndexedNode) : Untouched s s := ⟨rfl, rfl, rfl, rfl, rfl, rfl, rfl⟩

theorem verifyKeeps_nil {n : ChainState} (hchain : n.chain = []) (nCheckLevel nCheckDepth : Int) :
    VerifyKeeps P M keys I W nCheckLevel nCheckDepth n := by
  have hoff : takenOff P keys W nCheckLevel nCheckDepth n = [] := by
    rw [takenOff, hchain, List.take_nil, List.reverse_nil]
  have hstays : (staysOff P keys W nCheckLevel nCheckDepth n).1 = [] := by
    rw [staysOff, hoff, leftOver]
  refine ⟨?_, fun _ => ?_, ?_⟩
  · rw [hstays, mintedBy]
    decide
  · rw [hstays, addressFree]
  · rw [hoff, governanceKept]
    trivial

variable (hmax : P.nMaxMoneyOut ≤ i64Max) (hmature : 0 < P.nCoinbaseMaturity)
  (hzc : ∀ n < 1073741824, networkUpgradeActive P.upgradeZC n = false) (hg : InI64 g)
include hmax hmature hzc hg

variable (keys W) in
theorem verifyScratch_unwinds (hi : IndexedInv P M I g s) (nCheckLevel nCheckDepth : Int) :
    ∃ s', (verifyScratch P M keys I W nCheckLevel nCheckDepth s).2 = s' ∧
      Unwound P I g s.core.node s.indexes (staysOff P keys W nCheckLevel nCheckDepth s.core.node).1
        s'.core.node s'.indexes ∧
      s'.core.node.chain = (staysOff P keys W nCheckLevel nCheckDepth s.core.node).2 ∧
      s'.core.governance = regoverned P M W s.core.node.chain.length
        (ascends P keys W nCheckLevel nCheckDepth s.core.node)
        (takenOff P keys W nCheckLevel nCheckDepth s.core.node)
        (belowTaken P keys W nCheckLevel nCheckDepth s.core.node)
        (governanceOf P M (belowTaken P keys W nCheckLevel nCheckDepth s.core.node)) := by
  obtain ⟨scratch, bs, hdown, hend, hu, hlen, hinv⟩ :=
    verifyDown_unwinds keys W hmax hmature hzc hg (checkLevel nCheckLevel)
      (s.core.node.chain.length - checkDepth nCheckDepth s.core.node.chain.length) true hi .top rfl
  rw [List.length_nil, Nat.zero_add] at hlen
  obtain ⟨htake, hdrop⟩ := hu.taken
  rw [hlen] at htake hdrop
  have hoff : takenOff P keys W nCheckLevel nCheckDepth s.core.node = bs := htake
  have hbelow : belowTaken P keys W nCheckLevel nCheckDepth s.core.node = scratch.core.node.chain := hdrop
  rw [staysOff, hoff, hbelow, verifyScratch, hdown]
  cases hr : (verifyDown P M keys I W (checkLevel nCheckLevel)
      (s.core.node.chain.length - checkDepth nCheckDepth s.core.node.chain.length) s.core.node.chain
      ⟨s, false⟩).1 with
  | some result =>
    have hwalk : (verifyWalk P keys W nCheckLevel nCheckDepth s.core.node).2 = false := by
      rw [hr] at hend
      cases hw : (verifyWalk P keys W nCheckLevel nCheckDepth s.core.node).2 with
      | false => rfl
      | true => cases hend.mpr hw
    rw [ascends, hwalk, Bool.false_and, leftOver_false, regoverned_false]
    exact ⟨scratch, rfl, hu, rfl, hinv.governance⟩
  | none =>
    have hwalk : (verifyWalk P keys W nCheckLevel nCheckDepth s.core.node).2 = true := hend.mp hr
    rw [ascends, hwalk, Bool.true_and]
    dsimp only
    rw [if_neg Bool.false_ne_true]
    by_cases hlevel : 4 ≤ checkLevel nCheckLevel
    · rw [if_pos hlevel, decide_eq_true hlevel, hu.blocksAbove, ← hinv.governance]
      exact verifyUp_unwinds hu
    · rw [if_neg hlevel, decide_eq_false hlevel, leftOver_false, regoverned_false]
      exact ⟨scratch, rfl, hu, rfl, hinv.governance⟩

/-- **Checking the block database changes nothing exactly if** the blocks that it leaves
disconnected mint nothing in sum and have no indexed addresses, and the blocks it took
off are asked for their governance entries again: for every level, depth and world, in
every state that calls meeting their condition lead to. -/
theorem verifyDB_untouched_iff {es : List GovernanceEvent}
    (h : run (safeIndexedStep P M keys I) (.genesis P M g) es = some s) (nCheckLevel nCheckDepth : Int) :
    Untouched s (verifyDB P M keys I W nCheckLevel nCheckDepth s).2 ↔
      VerifyKeeps P M keys I W nCheckLevel nCheckDepth s.core.node := by
  have hi := run_indexed hmax hmature hzc hg h
  rw [verifyDB]
  split_ifs with hnil
  · exact ⟨fun _ => verifyKeeps_nil hnil nCheckLevel nCheckDepth, fun _ => Untouched.refl s⟩
  obtain ⟨s', hs', hu, hchain, hgov⟩ :=
    verifyScratch_unwinds keys W hmax hmature hzc hg hi nCheckLevel nCheckDepth
  dsimp only
  rw [hs']
  -- the supply
  have hreplay := hu.replay hi.grounded.chain.replay
  have hin : InI64 s'.core.node.tip.nMoneySupply :=
    (hreplay.balanced hmax hmature hg).supply ▸ inI64_toI64 _
  have hsupply := hu.supply ((hi.grounded.chain.replay.balanced hmax hmature hg).supply ▸ inI64_toI64 _)
  have hminted := toI64_add_eq_self_iff
    (d := mintedBy P (staysOff P keys W nCheckLevel nCheckDepth s.core.node).1 s'.core.node.chain) hin
  rw [← hsupply] at hminted
  -- the governance database
  have hwhole : s.core.node.chain = (takenOff P keys W nCheckLevel nCheckDepth s.core.node).reverse ++
      belowTaken P keys W nCheckLevel nCheckDepth s.core.node := by
    rw [takenOff, List.reverse_reverse, belowTaken, List.take_append_drop]
  have hgovernance := regoverned_eq_iff P M W (takenOff P keys W nCheckLevel nCheckDepth s.core.node)
    (belowTaken P keys W nCheckLevel nCheckDepth s.core.node) s.core.node.chain.length
    (ascends P keys W nCheckLevel nCheckDepth s.core.node)
  rw [← hwhole, ← hgov, ← hi.governance] at hgovernance
  rw [hchain] at hminted
  constructor
  · intro huntouched
    refine ⟨hminted.mp huntouched.nMoneySupply.symm, fun hon => ?_, hgovernance.mp huntouched.governance⟩
    rw [← hchain]
    exact (hu.indexes_same_iff hmax hmature hg hon hzc hi.grounded).mp
      ⟨huntouched.address, huntouched.unspent⟩
  · intro hkeeps
    have hindexes : s'.indexes.address = s.indexes.address ∧ s'.indexes.unspent = s.indexes.unspent := by
      cases hon : I.fAddressIndex with
      | true =>
        refine (hu.indexes_same_iff hmax hmature hg hon hzc hi.grounded).mpr ?_
        rw [hchain]
        exact hkeeps.addresses hon
      | false => exact hu.same_of_off hon
    exact ⟨(hminted.mpr hkeeps.minted).symm, hindexes.1, hindexes.2, hu.spent,
      hgovernance.mpr hkeeps.governance, rfl, rfl⟩

end

/-! ### A chain with addresses -/

/-- Files are there, memory suffices and nobody shuts the node down. -/
def quietWorld : VerifyWorld where
  node := syncedNode
  checks := allPass
  checksBlock _ := true
  zerocoins := noZerocoins
  readable _ := true
  undoReadable _ := true
  fits _ := true
  shutdown _ := false
  readableAgain _ := true

/-- Both options are on. No script of the example has a bare key, whose hash would be
asked for. -/
def bothIndexes : IndexParams := ⟨true, true, fun key => key.take 20⟩

def keyHashScript : Script := getScriptForDestination (.keyID (Vector.replicate 20 7))

def scriptHashScript : Script := getScriptForDestination (.scriptID (Vector.replicate 20 9))

/-- Ten blocks, the first of which pays a key's address. -/
def addressedChain : List GovernanceEvent :=
  .connect syncedNode allPass ⟨1, [⟨101, [⟨⟨0, 4294967295⟩, [1, 1]⟩], [⟨1000, keyHashScript⟩]⟩]⟩ ::
    (List.range 9).map fun k => .connect syncedNode allPass ⟨k + 2, [coinbaseOf (102 + k) 1000]⟩

def tenthBlock : CBlock := ⟨10, [coinbaseOf 110 1000]⟩

/-- Block 11 moves the coin to a script's address. -/
def movingBlock : CBlock :=
  ⟨11, [coinbaseOf 111 1000, ⟨200, [⟨⟨101, 0⟩, []⟩], [⟨900, scriptHashScript⟩]⟩]⟩

/-- The chain then. -/
def addressedBlocks : List CBlock :=
  movingBlock :: ((List.range 9).reverse.map fun k => ⟨k + 2, [coinbaseOf (102 + k) 1000]⟩) ++
    [⟨1, [⟨101, [⟨⟨0, 4294967295⟩, [1, 1]⟩], [⟨1000, keyHashScript⟩]⟩]⟩]

/-- At level 4 the last two blocks are taken off and connected again. -/
theorem verifyDB_untouched_level4 :
    ∃ s, run (safeIndexedStep mainParams testGovernance noKeys bothIndexes)
        (.genesis mainParams testGovernance 0)
        (addressedChain ++ [.connect syncedNode allPass movingBlock]) = some s ∧
      verifyWalk mainParams noKeys quietWorld 4 1 s.core.node = (2, true) ∧
      Untouched s (verifyDB mainParams testGovernance noKeys bothIndexes quietWorld 4 1 s).2 := by
  have hrun : (run (safeIndexedStep mainParams testGovernance noKeys bothIndexes)
      (.genesis mainParams testGovernance 0)
      (addressedChain ++ [.connect syncedNode allPass movingBlock])).map (fun s =>
        (s.core.node.chain, verifyWalk mainParams noKeys quietWorld 4 1 s.core.node)) =
      some (addressedBlocks, (2, true)) := by
    decide +kernel
  obtain ⟨s, hs, hpair⟩ := Option.map_eq_some_iff.mp hrun
  obtain ⟨hchain, hwalk⟩ := Prod.mk.inj hpair
  have hzc : ∀ n < 1073741824, networkUpgradeActive mainParams.upgradeZC n = false := by
    intro n hn
    simp only [networkUpgradeActive, mainParams, decide_eq_false_iff_not]
    omega
  refine ⟨s, hs, hwalk, (verifyDB_untouched_iff (by decide) (by decide) hzc ⟨by decide, by decide⟩ hs 4 1).mpr ?_⟩
  have hoff : takenOff mainParams noKeys quietWorld 4 1 s.core.node = (addressedBlocks.take 2).reverse := by
    rw [takenOff, hwalk, hchain]
  have hbelow : belowTaken mainParams noKeys quietWorld 4 1 s.core.node = addressedBlocks.drop 2 := by
    rw [belowTaken, hwalk, hchain]
  have hasc : ascends mainParams noKeys quietWorld 4 1 s.core.node = true := by
    rw [ascends, hwalk]
    decide
  have hstays : (staysOff mainParams noKeys quietWorld 4 1 s.core.node).1 = [] := by
    rw [staysOff, hoff, hbelow, hasc]
    decide +kernel
  refine ⟨?_, fun _ => ?_, ?_⟩
  · rw [hstays, mintedBy]
    decide
  · rw [hstays, addressFree]
  · -- neither block has governance outputs
    have hblocks : (addressedBlocks.take 2).reverse = [tenthBlock, movingBlock] := by decide +kernel
    have hlength : addressedBlocks.length = 11 := by decide +kernel
    have hagain : reconnects mainParams quietWorld (addressedBlocks.drop 2) tenthBlock = true := by
      decide +kernel
    have hactions : recalledActions mainParams testGovernance quietWorld 11 (addressedBlocks.drop 2)
          tenthBlock = [] ∧
        blockActions mainParams testGovernance (addressedBlocks.drop 2) tenthBlock = [] ∧
        recalledActions mainParams testGovernance quietWorld 11 (tenthBlock :: addressedBlocks.drop 2)
          movingBlock = [] ∧
        blockActions mainParams testGovernance (tenthBlock :: addressedBlocks.drop 2) movingBlock = [] := by
      decide +kernel
    rw [hoff, hbelow, hasc, hchain, hblocks, hlength, governanceKept, governanceKept, governanceKept,
      hagain, if_pos rfl, hactions.1, hactions.2.1, Bool.and_self, if_pos rfl, hactions.2.2.1,
      hactions.2.2.2]
    exact ⟨⟨fun _ => rfl, rfl, rfl⟩, ⟨fun _ => rfl, rfl, rfl⟩, trivial⟩

/-- At level 3 the reward of the last block is missing from the supply afterwards. -/
theorem verifyDB_forgets_supply :
    ¬ ∀ (P : ChainParams) (M : GovernanceParams) (keys : PubKeys) (I : IndexParams) (W : VerifyWorld)
      (es : List GovernanceEvent) (nCheckLevel nCheckDepth : Int),
      Untouched (es.foldl (indexedStep P M keys I) (.genesis P M 0))
        (verifyDB P M keys I W nCheckLevel nCheckDepth
          (es.foldl (indexedStep P M keys I) (.genesis P M 0))).2 := by
  intro hall
  have hsupply := (hall mainParams testGovernance noKeys bothIndexes quietWorld
    [.connect syncedNode allPass ⟨1, [coinbaseOf 101 1000]⟩] 3 1).nMoneySupply
  revert hsupply
  decide +kernel

end Rapids.Chain
