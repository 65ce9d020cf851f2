import Rapids.Chain.ActivationSound
import Rapids.Masternode.ChainView

/-!
# Rapids.Masternode.ChainViewSound

**What the masternode manager sees of the active chain.**

The ring is right, whatever happens: `Mirrors` says that it holds the hashes of the
last `CACHED_BLOCK_HASHES` blocks of the active chain. A connected block takes the
place of the one that leaves this window, and a disconnected one makes room for the
one that comes back into it, so every tip change keeps it, and with it every round
and every activation, successful or not.

The best height is another matter. It is the old height and one, whatever the
activation did. So the view is right behind a call that ends one block higher, and
behind one that never comes to the activation.
-/

namespace Rapids.Masternode

open Rapids.Lib Rapids.Chain

variable {c : BlockChain}

variable {r : Round} {h : Nat} {fLiteMode : Bool} {k : NewBlock}

section
variable {genesis : BlockIndex}

/-! ### The ring -/

/-- The ring holds the hashes of the last blocks of the chain. -/
def Mirrors (genesis : BlockIndex) (c : BlockChain) (v : HashCache) : Prop :=
  ∀ h, h ≤ c.height → c.height < h + cachedBlockHashes →
    (chainAt genesis c h).map BlockIndex.hash = some (v.get h)

theorem HashCache.get_set_self (v : HashCache) (h value : Nat) : (v.set h value).get h = value := by
  rw [HashCache.get, HashCache.set, Function.update_self]

theorem HashCache.get_set_of_ne (v : HashCache) {h' value : Nat} (hne : h ≠ h')
    (hlow : h < h' + cachedBlockHashes) (hhigh : h' < h + cachedBlockHashes) :
    (v.set h' value).get h = v.get h := by
  rw [HashCache.get, HashCache.set, Function.update_of_ne]
  · rfl
  · unfold cachedBlockHashes at *
    omega

theorem chainAt_append (b : BlockIndex) (hle : h ≤ c.height) :
    chainAt genesis (c ++ [b]) h = chainAt genesis c h := by
  unfold chainAt BlockChain.height at *
  rw [← List.cons_append, List.getElem?_append_left (by simp only [List.length_cons]; omega)]

theorem chainAt_tip (b : BlockIndex) :
    chainAt genesis (c ++ [b]) (c.height + 1) = some b := by
  unfold chainAt BlockChain.height
  rw [List.getElem?_cons_succ, List.getElem?_append_right (le_refl _), Nat.sub_self]
  rfl

theorem chainAt_dropLast (hlt : h < c.height) :
    chainAt genesis c.dropLast h = chainAt genesis c h := by
  have hne : c ≠ [] := by
    rintro rfl
    exact absurd hlt (Nat.not_lt_zero h)
  obtain ⟨init, b, rfl⟩ : ∃ init b, c = init ++ [b] :=
    ⟨_, _, (List.dropLast_append_getLast hne).symm⟩
  rw [List.dropLast_concat]
  unfold BlockChain.height at hlt
  rw [List.length_append, List.length_singleton] at hlt
  exact (chainAt_append b (by unfold BlockChain.height; omega)).symm

theorem chainAt_isSome (hle : h ≤ c.height) :
    ∃ b, chainAt genesis c h = some b := by
  unfold chainAt BlockChain.height at *
  exact ⟨_, List.getElem?_eq_getElem (by simp only [List.length_cons]; omega)⟩

theorem Mirrors.connect {c : BlockChain} {v : HashCache} (hm : Mirrors genesis c v) (b : BlockIndex) :
    Mirrors genesis (c ++ [b]) (v.set (c.height + 1) b.hash) := by
  have hheight : (c ++ [b]).height = c.height + 1 := List.length_append
  intro h hle hlt
  rw [hheight] at hle hlt
  by_cases htip : h = c.height + 1
  · rw [htip, chainAt_tip, HashCache.get_set_self]
    rfl
  · rw [HashCache.get_set_of_ne v htip (by unfold cachedBlockHashes; omega) hlt, chainAt_append b (by omega)]
    exact hm h (by omega) (by omega)

theorem Mirrors.disconnect {v : HashCache} (hm : Mirrors genesis c v) (hpos : 0 < c.height) :
    Mirrors genesis c.dropLast (v.set c.height (replacementHash genesis c c.height)) := by
  have hheight : BlockChain.height c.dropLast = c.height - 1 := List.length_dropLast
  intro h hle hlt
  rw [hheight] at hle hlt
  rw [chainAt_dropLast (by omega)]
  by_cases hin : c.height < h + cachedBlockHashes
  · rw [HashCache.get_set_of_ne v (by omega) (by unfold cachedBlockHashes; omega) hin]
    exact hm h (by omega) hin
  · -- the block that comes back into the window has the place of the one that leaves
    have hback : c.height = h + cachedBlockHashes := by omega
    obtain ⟨b, hb⟩ : ∃ b, chainAt genesis c h = some b := chainAt_isSome (by omega)
    have hplace : (v.set c.height (replacementHash genesis c c.height)).get h =
        replacementHash genesis c c.height := by
      rw [HashCache.get, HashCache.set, hback, Nat.add_mod_right]
      exact Function.update_self ..
    rw [hplace, replacementHash, if_pos (by omega), hback, Nat.add_sub_cancel, hb]
    rfl

/-! ### What the manager hears -/

/-- The calls lead from what the manager heard so far to a chain, which its ring mirrors. -/
structure Tracks (genesis : BlockIndex) (w : Watch) (calls : List Call) (c : BlockChain) : Prop where
  chain : (calls.foldl (Watch.hear genesis) w).chain = c
  mirrors : Mirrors genesis c (calls.foldl (Watch.hear genesis) w).cvLastBlockHashes

variable {w : Watch} {calls more : List Call} {c c' : BlockChain}

theorem Tracks.append (h : Tracks genesis w calls c)
    (hmore : ∀ v, Mirrors genesis c v → Tracks genesis ⟨c, v⟩ more c') :
    Tracks genesis w (calls ++ more) c' := by
  obtain ⟨hchain, hmirrors⟩ := hmore _ h.mirrors
  rw [← h.chain] at hchain hmirrors
  exact ⟨by rw [List.foldl_append]; exact hchain, by rw [List.foldl_append]; exact hmirrors⟩

theorem hear_disconnectLoop (d : BlockIndex → Bool) {bs : List BlockIndex} (hlen : bs.length ≤ w.chain.height)
    (hm : Mirrors genesis w.chain w.cvLastBlockHashes) :
    Tracks genesis w (disconnectLoop d bs w.chain).2.2 (disconnectLoop d bs w.chain).2.1 := by
  induction bs generalizing w with
  | nil => exact ⟨rfl, hm⟩
  | cons b rest ih =>
    rw [List.length_cons] at hlen
    rw [disconnectLoop]
    by_cases hb : d b = true
    · rw [if_pos hb]
      have hheight : BlockChain.height w.chain.dropLast = w.chain.height - 1 := List.length_dropLast
      obtain ⟨hchain, hmirrors⟩ := ih (w := ⟨w.chain.dropLast, _⟩) (by rw [hheight]; omega)
        (hm.disconnect (by omega))
      exact ⟨hchain, hmirrors⟩
    · rw [if_neg hb]
      exact ⟨rfl, hm⟩

theorem Tracks.connectTip {p : Progress} (h : Tracks genesis w p.calls p.chain) (b : BlockIndex) :
    Tracks genesis w (p.connectTip b).calls (p.connectTip b).chain :=
  h.append fun _ hm => ⟨rfl, hm.connect b⟩

theorem Tracks.connectBatch {r : Round} {old : BlockChain} {bs : List BlockIndex} {p : Progress}
    (h : Tracks genesis w p.calls p.chain) :
    Tracks genesis w (connectBatch r old bs p).2.calls (connectBatch r old bs p).2.chain := by
  induction bs generalizing p with
  | nil => exact h
  | cons b rest ih =>
    rw [Chain.connectBatch]
    split
    · exact h
    · exact h
    · split_ifs
      · exact h.connectTip b
      · exact ih (h.connectTip b)

theorem Tracks.connectBatches {old : BlockChain} {n : Nat} {branch : List BlockIndex}
    {p : Progress} (h : Tracks genesis w p.calls p.chain) :
    Tracks genesis w (connectBatches r old n branch p).2.calls (connectBatches r old n branch p).2.chain := by
  induction n generalizing branch p with
  | zero => exact h
  | succ n ih =>
    rw [Chain.connectBatches]
    have hbatch := @Tracks.connectBatch _ _ r old (branch.take 32) _ h
    split_ifs
    · exact h
    · split
      next p' heq =>
        rw [heq] at hbatch
        exact ih hbatch
      next => exact hbatch

/-- **A round** keeps the ring right, also one that fails. -/
theorem hear_activateBestChainStep (r : Round) (target : BlockChain)
    (hm : Mirrors genesis w.chain w.cvLastBlockHashes) :
    Tracks genesis w (activateBestChainStep r w.chain target).2.calls
      (activateBestChainStep r w.chain target).2.chain := by
  have hlen : ((w.chain.drop (findFork w.chain target).length).reverse).length ≤ w.chain.height := by
    rw [List.length_reverse, List.length_drop]
    exact Nat.sub_le _ _
  have hdown := hear_disconnectLoop r.disconnects hlen hm
  rcases hloop : disconnectLoop r.disconnects (w.chain.drop (findFork w.chain target).length).reverse w.chain
    with ⟨ok, chain, calls⟩
  rw [hloop] at hdown
  simp only [activateBestChainStep, hloop]
  cases ok with
  | false => exact hdown
  | true => exact Tracks.connectBatches hdown

variable (rounds : List Round) (nTxIdx : Nat)

/-- The reports of transactions and of the end of a block are none of the manager's. -/
theorem hear_notifyTip (p : Progress) (w : Watch) :
    (notifyTip genesis nTxIdx p).foldl (Watch.hear genesis) w = w := by
  have hquiet : ∀ calls : List Call, (∀ call ∈ calls, ∀ w, Watch.hear genesis w call = w) →
      calls.foldl (Watch.hear genesis) w = w := by
    intro calls hcalls
    induction calls with
    | nil => rfl
    | cons call rest ih =>
      rw [List.foldl_cons, hcalls call List.mem_cons_self]
      exact ih fun x hx => hcalls x (List.mem_cons_of_mem call hx)
  refine hquiet _ fun call hcall w => ?_
  simp only [notifyTip, List.mem_append, List.mem_mapIdx, List.mem_singleton] at hcall
  rcases hcall with ⟨i, hi, rfl⟩ | rfl
  · rfl
  · rfl

theorem Tracks.notifyTip {p : Progress} (h : Tracks genesis w p.calls p.chain) :
    Tracks genesis w (p.calls ++ notifyTip genesis nTxIdx p) p.chain :=
  h.append fun _ hm => ⟨by rw [hear_notifyTip], by rw [hear_notifyTip]; exact hm⟩

/-- **An activation** keeps the ring right, whatever its rounds find. -/
theorem hear_activateBestChain
    (hm : Mirrors genesis w.chain w.cvLastBlockHashes) :
    Tracks genesis w (activateBestChain genesis rounds nTxIdx w.chain).calls
      (activateBestChain genesis rounds nTxIdx w.chain).chain := by
  induction rounds generalizing nTxIdx w with
  | nil => exact ⟨rfl, hm⟩
  | cons r rest ih =>
    cases htarget : r.mostWork with
    | none =>
      simp only [activateBestChain, htarget]
      exact ⟨rfl, hm⟩
    | some target =>
      have hstep := hear_activateBestChainStep r target hm
      simp only [activateBestChain, htarget]
      generalize activateBestChainStep r w.chain target = result at hstep ⊢
      split_ifs with hsame hok hreached
      · exact ⟨rfl, hm⟩
      · exact hstep
      · exact hstep.notifyTip nTxIdx
      · exact (hstep.notifyTip nTxIdx).append fun v hm' => ih _ hm'

/-! ### The view -/

/-- The hash of the active chain's block at a height, zero where there is none. -/
def activeHash (genesis : BlockIndex) (c : BlockChain) (nHeight : Int) : Nat :=
  if 0 ≤ nHeight ∧ nHeight ≤ c.height then
    ((chainAt genesis c nHeight.toNat).map BlockIndex.hash).getD 0
  else 0

/-- The manager's view of the chain is right. -/
structure SeesChain (genesis : BlockIndex) (n : ManNode) : Prop where
  height : n.nBestHeight = n.chain.height
  hashes : ∀ nHeight, n.getHashAtHeight genesis nHeight = some (activeHash genesis n.chain nHeight)

variable {n n' : ManNode}

theorem seesChain_iff (hm : Mirrors genesis n.chain n.cvLastBlockHashes) :
    SeesChain genesis n ↔ n.nBestHeight = n.chain.height := by
  refine ⟨SeesChain.height, fun hbest => ⟨hbest, fun h => ?_⟩⟩
  rw [ManNode.getHashAtHeight, activeHash, hbest]
  by_cases hneg : h < 0
  · rw [if_pos hneg, if_neg (by omega)]
  by_cases habove : (n.chain.height : Int) < h
  · rw [if_neg hneg, if_pos habove, if_neg (by omega)]
  have hin : 0 ≤ h ∧ h ≤ n.chain.height := ⟨by omega, by omega⟩
  rw [if_neg hneg, if_neg habove, if_pos hin]
  obtain ⟨b, hb⟩ : ∃ b, chainAt genesis n.chain h.toNat = some b := chainAt_isSome (by omega)
  by_cases hcached : (n.chain.height : Int) - cachedBlockHashes < h
  · have hslot := hm h.toNat (by omega) (by omega)
    rw [if_pos hcached, ← hslot, hb]
    rfl
  · rw [if_neg hcached, hb]
    rfl

theorem mirrors_loadBlockHashesCache (c : BlockChain) : Mirrors genesis c (loadBlockHashesCache genesis c) := by
  -- the blocks from some height on are cached once the loop has come there
  have hfill : ∀ count ≤ min (c.height + 1) cachedBlockHashes, ∀ h, h ≤ c.height → c.height < h + count →
      (chainAt genesis c h).map BlockIndex.hash = some (HashCache.get ((List.range count).foldl
        (fun v i => v.set (c.height - i) (((chainAt genesis c (c.height - i)).map BlockIndex.hash).getD 0))
        HashCache.empty) h) := by
    intro count hcount
    induction count with
    | zero =>
      intro h hle hlt
      omega
    | succ count ih =>
      intro h hle hlt
      rw [List.range_succ, List.foldl_append, List.foldl_cons, List.foldl_nil]
      by_cases hlast : h = c.height - count
      · obtain ⟨b, hb⟩ : ∃ b, chainAt genesis c h = some b := chainAt_isSome hle
        rw [← hlast, HashCache.get_set_self, hb]
        rfl
      · rw [HashCache.get_set_of_ne _ hlast (by omega) (by omega)]
        exact ih (by omega) h hle (by omega)
  intro h hle hlt
  exact hfill _ (le_refl _) h hle (by omega)

/-! ### Calls -/

theorem mirrors_activate (hm : Mirrors genesis n.chain n.cvLastBlockHashes) :
    Mirrors genesis (n.activate genesis rounds).chain (n.activate genesis rounds).cvLastBlockHashes :=
  (hear_activateBestChain (w := ⟨n.chain, n.cvLastBlockHashes⟩) rounds 0 hm).mirrors

theorem mirrors_processNewBlock
    (hm : Mirrors genesis n.chain n.cvLastBlockHashes) (h : processNewBlock genesis fLiteMode n k = some n') :
    Mirrors genesis n'.chain n'.cvLastBlockHashes := by
  unfold processNewBlock at h
  split_ifs at h with haccepted
  · obtain ⟨ok, -, rfl⟩ := Option.map_eq_some_iff.mp h
    have hm2 := mirrors_activate k.rounds (mirrors_activate k.reconsidered hm)
    split_ifs
    · exact hm2
    · exact hm2
  · cases h
    exact hm

/-- Nothing goes wrong with disk or database in the round. -/
def Faultless (r : Round) : Prop := ∀ b, r.disconnects b = true ∧ r.connect b ≠ .error

theorem connectBatch_of_faultless (hr : Faultless r) (old : BlockChain) (bs : List BlockIndex)
    (p : Progress) : (connectBatch r old bs p).1 ≠ .fail := by
  induction bs generalizing p with
  | nil => simp [connectBatch]
  | cons b rest ih =>
    cases hconnect : r.connect b with
    | invalid => simp [connectBatch, hconnect]
    | error => exact absurd hconnect (hr b).2
    | ok =>
      simp only [connectBatch, hconnect]
      split_ifs
      · simp
      · exact ih _

theorem connectBatches_of_faultless (hr : Faultless r) (old : BlockChain) (n : Nat)
    (branch : List BlockIndex) (p : Progress) : (connectBatches r old n branch p).1 ≠ .fail := by
  induction n generalizing branch p with
  | zero => simp [connectBatches]
  | succ n ih =>
    rw [connectBatches]
    split_ifs
    · simp
    · split
      · exact ih _ _
      · exact connectBatch_of_faultless hr old _ p

theorem activateBestChainStep_of_faultless (hr : Faultless r) (c target : BlockChain) :
    (activateBestChainStep r c target).1 = true := by
  obtain ⟨calls, hstep⟩ := @activateBestChainStep_of_disconnects r c target
    (List.all_eq_true.mpr fun b _ => (hr b).1)
  rw [hstep]
  exact bne_iff_ne.mpr (connectBatches_of_faultless hr c _ _ _)

/-- The chain that the last round aims at. -/
def lastTarget : Option BlockChain := rounds.getLast?.bind Round.mostWork

/-- Without faults an activation that returns has reached what its last round aims at. -/
theorem activation_reaches {rounds : List Round} {c target : BlockChain} {ok : Bool} (nTxIdx : Nat)
    (hfaults : ∀ r ∈ rounds, Faultless r) (hlast : lastTarget rounds = some target)
    (hreturns : activationReturns true rounds c = some ok) :
    ok = true ∧ (activateBestChain genesis rounds nTxIdx c).chain = target := by
  induction rounds generalizing nTxIdx c with
  | nil => cases hreturns
  | cons r rest ih =>
    have hok := activateBestChainStep_of_faultless (hfaults r (.head _)) c
    have hend : rest = [] → r.mostWork = some target := by
      rintro rfl
      exact hlast
    cases hmost : r.mostWork with
    | none =>
      simp only [activationReturns, hmost] at hreturns
      split_ifs at hreturns with hrest
      rw [hmost] at hend
      cases hend hrest
    | some target' =>
      simp only [activationReturns, hmost, hok, Bool.true_eq_false, if_false] at hreturns
      simp only [activateBestChain, hmost]
      by_cases hsame : target' = c
      · rw [if_pos hsame] at hreturns ⊢
        split_ifs at hreturns with hrest
        obtain rfl := Option.some.inj (hmost.symm.trans (hend hrest))
        exact ⟨(Option.some.inj hreturns).symm, hsame.symm⟩
      · rw [if_neg hsame] at hreturns ⊢
        have hstep := hok target'
        generalize activateBestChainStep r c target' = result at hreturns hstep ⊢
        obtain ⟨ok', p⟩ := result
        obtain rfl : ok' = true := hstep
        by_cases hreached : target' = p.chain
        · simp only [if_pos hreached, Bool.not_true, Bool.false_eq_true, if_false] at hreturns ⊢
          split_ifs at hreturns with hrest
          obtain rfl := Option.some.inj (hmost.symm.trans (hend hrest))
          exact ⟨(Option.some.inj hreturns).symm, hreached.symm⟩
        · simp only [if_neg hreached, Bool.not_true, Bool.false_eq_true, if_false] at hreturns ⊢
          have hne : rest ≠ [] := by
            rintro rfl
            cases hreturns
          refine ih _ (fun r' hr' => hfaults r' (List.mem_cons_of_mem r hr')) ?_ hreturns
          rw [← hlast, lastTarget, lastTarget, List.getLast?_cons_of_ne_nil hne]

/-- A call that fails in front of the first tip change: the tip is not disconnected, or
nothing is to be disconnected and the first block is not connected. -/
def FailsAtOnce (c : BlockChain) (k : NewBlock) : Prop :=
  k.reconsidered = [] ∧ ∃ r target, k.rounds = [r] ∧ r.mostWork = some target ∧ target ≠ c ∧
    ((∃ b, (c.drop (findFork c target).length).getLast? = some b ∧ r.disconnects b = false) ∨
      (c.drop (findFork c target).length = [] ∧
        ∃ b, (target.drop (findFork c target).length).head? = some b ∧ r.connect b = .error))

/-- The block that the best height counts: none in lite mode. -/
def counted (fLiteMode : Bool) : Nat := if fLiteMode then 0 else 1

/-- A call without faults, whose last round aims at a chain with the one block more that
is counted. -/
def GainsCounted (fLiteMode : Bool) (c : BlockChain) (k : NewBlock) : Prop :=
  (∀ r ∈ k.rounds, Faultless r) ∧ k.flushed = true ∧
    ∃ target, lastTarget k.rounds = some target ∧ target.height = c.height + counted fLiteMode

theorem activateBestChainStep_of_failsAtOnce {target : BlockChain}
    (h : (∃ b, (c.drop (findFork c target).length).getLast? = some b ∧ r.disconnects b = false) ∨
      (c.drop (findFork c target).length = [] ∧
        ∃ b, (target.drop (findFork c target).length).head? = some b ∧ r.connect b = .error)) :
    (activateBestChainStep r c target).1 = false ∧ (activateBestChainStep r c target).2.chain = c := by
  rcases h with ⟨b, hb, hfails⟩ | ⟨hnone, b, hb, herror⟩
  · obtain ⟨rest, hrest⟩ : ∃ rest, (c.drop (findFork c target).length).reverse = b :: rest := by
      rw [← List.head?_reverse] at hb
      exact List.head?_eq_some_iff.mp hb
    simp [activateBestChainStep, hrest, disconnectLoop, hfails]
  · obtain ⟨rest, hrest⟩ := List.head?_eq_some_iff.mp hb
    simp [activateBestChainStep, hnone, hrest, disconnectLoop, connectBatches, connectBatch, herror]

theorem processNewBlock_seesChain_iff {target : BlockChain}
    (hm : Mirrors genesis n.chain n.cvLastBlockHashes) (hbest : n.nBestHeight = n.chain.height)
    (haccepted : k.accepted = true) (hfaults : ∀ r ∈ k.rounds, Faultless r) (hflushed : k.flushed = true)
    (hlast : lastTarget k.rounds = some target) (h : processNewBlock genesis fLiteMode n k = some n') :
    SeesChain genesis n' ↔ target.height = n.chain.height + counted fLiteMode := by
  have hm2 := mirrors_activate k.rounds (mirrors_activate k.reconsidered hm)
  simp only [processNewBlock, haccepted, if_true, hflushed] at h
  obtain ⟨ok, hreturns, rfl⟩ := Option.map_eq_some_iff.mp h
  obtain ⟨rfl, hchain⟩ := @activation_reaches genesis _ _ _ _ 0 hfaults hlast hreturns
  have hchain : ((n.activate genesis k.reconsidered).activate genesis k.rounds).chain = target := hchain
  cases fLiteMode with
  | false =>
    simp only [Bool.not_false, Bool.and_true, if_true]
    refine (seesChain_iff (n := ⟨_, _, n.chain.height + 1⟩) hm2).trans ?_
    show n.chain.height + 1 = ((n.activate genesis k.reconsidered).activate genesis k.rounds).chain.height ↔ _
    rw [hchain]
    exact eq_comm
  | true =>
    simp only [Bool.not_true, Bool.and_false, Bool.false_eq_true, if_false]
    refine (seesChain_iff hm2).trans ?_
    show n.nBestHeight = ((n.activate genesis k.reconsidered).activate genesis k.rounds).chain.height ↔ _
    rw [hchain, hbest]
    exact eq_comm

theorem processNewBlock_of_failsAtOnce (haccepted : k.accepted = true)
    (hfails : FailsAtOnce n.chain k) (h : processNewBlock genesis fLiteMode n k = some n') :
    n'.chain = n.chain ∧ n'.nBestHeight = n.nBestHeight := by
  obtain ⟨hreconsidered, r, target, hrounds, hmost, hne, hcause⟩ := hfails
  obtain ⟨hstep, hchain⟩ := activateBestChainStep_of_failsAtOnce hcause
  have hreturns : activationReturns k.flushed [r] n.chain = some false := by
    simp [activationReturns, hmost, hne, hstep]
  have hsame : (activateBestChain genesis [r] 0 n.chain).chain = n.chain := by
    simp [activateBestChain, hmost, hne, hstep, hchain]
  simp only [processNewBlock, haccepted, if_true, hreconsidered, hrounds] at h
  obtain ⟨ok, hok, rfl⟩ := Option.map_eq_some_iff.mp h
  obtain rfl := Option.some.inj (hreturns.symm.trans hok)
  exact ⟨hsame, rfl⟩

/-! ### Runs -/

/-- What makes a call leave the view right: it is refused in front of the activation, it
fails at once, or it gains the block that is counted. -/
def KeepsView (fLiteMode : Bool) (n : ManNode) (k : NewBlock) : Prop :=
  k.accepted = false ∨ FailsAtOnce n.chain k ∨ GainsCounted fLiteMode n.chain k

/-- The states of a node that calls lead to which meet the condition. -/
inductive Reached (genesis : BlockIndex) (fLiteMode : Bool) : ManNode → Prop
  | started (c : BlockChain) : Reached genesis fLiteMode (started genesis c)
  | call {n n' : ManNode} {k : NewBlock} (hn : Reached genesis fLiteMode n)
      (hkeeps : KeepsView fLiteMode n k) (h : processNewBlock genesis fLiteMode n k = some n') :
      Reached genesis fLiteMode n'

/-- **One call.** -/
theorem KeepsView.step (hkeeps : KeepsView fLiteMode n k)
    (hm : Mirrors genesis n.chain n.cvLastBlockHashes) (hbest : n.nBestHeight = n.chain.height)
    (h : processNewBlock genesis fLiteMode n k = some n') :
    Mirrors genesis n'.chain n'.cvLastBlockHashes ∧ n'.nBestHeight = n'.chain.height := by
  refine ⟨mirrors_processNewBlock hm h, ?_⟩
  cases haccepted : k.accepted with
  | false =>
    simp only [processNewBlock, haccepted, Bool.false_eq_true, if_false, Option.some.injEq] at h
    exact h ▸ hbest
  | true =>
    rcases hkeeps with hrefused | hfails | ⟨hfaults, hflushed, target, hlast, hheight⟩
    · rw [hrefused] at haccepted
      cases haccepted
    · obtain ⟨hchain, hkept⟩ := processNewBlock_of_failsAtOnce haccepted hfails h
      rw [hkept, hchain, hbest]
    · have hiff := processNewBlock_seesChain_iff hm hbest haccepted hfaults hflushed hlast h
      exact (hiff.mpr hheight).height

/-- **The manager sees the active chain** in every state that such calls lead to. -/
theorem manager_sees_chain {fLiteMode : Bool} (h : Reached genesis fLiteMode n) : SeesChain genesis n := by
  have hinv : Mirrors genesis n.chain n.cvLastBlockHashes ∧ n.nBestHeight = n.chain.height := by
    induction h with
    | started c => exact ⟨mirrors_loadBlockHashesCache c, rfl⟩
    | call _ hkeeps hcall ih => exact hkeeps.step ih.1 ih.2 hcall
  exact (seesChain_iff hinv.1).mpr hinv.2

end

/-- A node with one block, to which the next one arrives. -/
def secondArrived : Option ManNode :=
  processNewBlock blockG false (started blockG [blockA]) ⟨true, [], [arrival [blockA, blockB]], true⟩

theorem manager_sees_second_block : SeesChain blockG (secondArrived.getD (started blockG [])) :=
  @manager_sees_chain blockG _ false
    (.call (.started [blockA])
      (.inr (.inr ⟨fun r hr => by
        obtain rfl := List.mem_singleton.mp hr
        exact fun _ => ⟨rfl, ConnectResult.noConfusion⟩, rfl, [blockA, blockB], rfl, rfl⟩))
      (show secondArrived = some (secondArrived.getD (started blockG [])) by rfl))

/-- A block that is only stored raises the best height; two blocks in one call raise it by one,
and the upper one is not seen. -/
theorem manager_misses_chain :
    (processNewBlock blockG false (started blockG [blockA]) ⟨true, [], [arrival [blockA]], true⟩).map
        (fun n => (n.nBestHeight, n.chain)) = some (2, [blockA]) ∧
      (processNewBlock blockG false (started blockG []) ⟨true, [], [arrival [blockA, blockB],
          arrival [blockA, blockB]], true⟩).map
        (fun n => (n.nBestHeight, n.chain, n.getHashAtHeight blockG 2, activeHash blockG n.chain 2)) =
          some (1, [blockA, blockB], some 0, 2) := by
  decide +kernel

end Rapids.Masternode
