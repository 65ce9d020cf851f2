import Rapids.Chain.Activation

/-!
# Rapids.Chain.ActivationSound

**When the token layer sees the active chain.**

`msc_initial_scan` reports a block as its beginning, its transactions numbered
from 0, and its end. A round of `ActivateBestChain` reports the beginnings of
all its blocks first, then all their transactions under the last block, then one
end. The two agree where a round connects one block and no round of the same
call did so before: the position counter `nTxIdx` is not reset between rounds.

`Told` says what is true within any round, however many blocks it connects.
`oneBlockAtATime` is the condition on what arrives, and
`token_layer_sees_chain` the result for a whole run.
-/

namespace Rapids.Chain

variable {r : Round} {c : BlockChain}

/-! ### Calls that are not hooks of a connection -/

@[simp] theorem hookCalls_append (xs ys : List Call) :
    hookCalls (xs ++ ys) = hookCalls xs ++ hookCalls ys :=
  List.filter_append xs ys

theorem mscInitialScan_append (xs ys : List (Nat × BlockIndex)) :
    mscInitialScan (xs ++ ys) = mscInitialScan xs ++ mscInitialScan ys :=
  List.flatMap_append

theorem hookCalls_notifyTip (genesis : BlockIndex) (n : Nat) (p : Progress) :
    hookCalls (notifyTip genesis n p) = notifyTip genesis n p := by
  rw [hookCalls, List.filter_eq_self]
  intro call hcall
  simp only [notifyTip, List.mem_append, List.mem_mapIdx, List.mem_singleton] at hcall
  rcases hcall with ⟨i, hi, rfl⟩ | rfl <;> rfl

/-! ### Forks and disconnecting -/

theorem findFork_prefix_left (a b : BlockChain) : findFork a b <+: a := by
  induction a, b using findFork.induct with
  | case1 as b bs ih =>
    simp only [findFork, if_true]
    exact (List.prefix_cons_inj b).mpr ih
  | case2 a as b bs hne => simp [findFork, hne]
  | case3 a b hne => simp [findFork]

theorem findFork_prefix_right (a b : BlockChain) : findFork a b <+: b := by
  induction a, b using findFork.induct with
  | case1 as b bs ih =>
    simp only [findFork, if_true]
    exact (List.prefix_cons_inj b).mpr ih
  | case2 a as b bs hne => simp [findFork, hne]
  | case3 a b hne => simp [findFork]

theorem hookCalls_disconnectLoop (d : BlockIndex → Bool) (bs : List BlockIndex) (c : BlockChain) :
    hookCalls (disconnectLoop d bs c).2.2 = [] := by
  induction bs generalizing c with
  | nil => rfl
  | cons b rest ih =>
    rw [disconnectLoop]
    by_cases hb : d b = true
    · rw [if_pos hb]
      show hookCalls (_ ++ (disconnectLoop d rest c.dropLast).2.2) = []
      rw [hookCalls_append, ih c.dropLast]
      rfl
    · rw [if_neg hb]
      rfl

theorem disconnectLoop_ok {d : BlockIndex → Bool} {bs : List BlockIndex} (c : BlockChain)
    (hall : ∀ b ∈ bs, d b = true) :
    (disconnectLoop d bs c).1 = true ∧
      (disconnectLoop d bs c).2.1 = c.take (c.length - bs.length) := by
  induction bs generalizing c with
  | nil => simp [disconnectLoop]
  | cons b rest ih =>
    obtain ⟨hok, hchain⟩ := ih c.dropLast fun x hx => hall x (List.mem_cons_of_mem b hx)
    rw [disconnectLoop, if_pos (hall b List.mem_cons_self)]
    refine ⟨hok, ?_⟩
    show (disconnectLoop d rest c.dropLast).2.1 = _
    rw [hchain, List.dropLast_eq_take, List.take_take, List.length_take, List.length_cons]
    congr 1
    omega

theorem disconnectLoop_fails {d : BlockIndex → Bool} {bs : List BlockIndex} (c : BlockChain)
    (hbad : ∃ b ∈ bs, d b = false) : (disconnectLoop d bs c).1 = false := by
  induction bs generalizing c with
  | nil => simp at hbad
  | cons b rest ih =>
    rw [disconnectLoop]
    by_cases hb : d b = true
    · rw [if_pos hb]
      obtain ⟨x, hx, hbad⟩ := hbad
      rcases List.mem_cons.mp hx with rfl | hx
      · simp [hb] at hbad
      · exact ih c.dropLast ⟨x, hx, hbad⟩
    · rw [if_neg hb]

/-! ### What is true within a round -/

/-- The token layer knows that the round's blocks began, their transactions
wait in `txChanged`, and the last block connected is the tip. -/
structure Told (p : Progress) : Prop where
  begins : hookCalls p.calls = p.connected.map fun e => .blockBegin e.1 e.2
  changed : p.txChanged = p.connected.flatMap fun e => e.2.vtx.mapIdx fun i t => (t, e.2, i)
  tip : ∀ e ∈ p.connected.getLast?, p.chain.height = e.1 ∧ ∀ genesis, p.chain.tip genesis = e.2

theorem Told.connectTip {p : Progress} (h : Told p) (b : BlockIndex) : Told (p.connectTip b) where
  begins := by
    simp only [Progress.connectTip, hookCalls_append, h.begins, List.map_append]
    rfl
  changed := by
    simp [Progress.connectTip, h.changed]
  tip := by
    intro e he
    simp only [Progress.connectTip, List.getLast?_append, List.getLast?_singleton,
      Option.some_or, Option.mem_some_iff] at he
    subst he
    exact ⟨by simp [Progress.connectTip, BlockChain.height],
      fun genesis => by simp [Progress.connectTip, BlockChain.tip]⟩

theorem Told.connectBatch {r : Round} {old : BlockChain} {bs : List BlockIndex} {p : Progress}
    (h : Told p) : Told (connectBatch r old bs p).2 := by
  induction bs generalizing p with
  | nil => exact h
  | cons b rest ih =>
    rw [Chain.connectBatch]
    cases r.connect b with
    | invalid => exact h
    | error => exact h
    | ok =>
      dsimp only
      split_ifs
      · exact h.connectTip b
      · exact ih (h.connectTip b)

theorem Told.connectBatches {old : BlockChain} {n : Nat} {branch : List BlockIndex}
    {p : Progress} (h : Told p) : Told (connectBatches r old n branch p).2 := by
  induction n generalizing branch p with
  | zero => exact h
  | succ n ih =>
    rw [Chain.connectBatches]
    split_ifs
    · exact h
    · have hbatch : Told (Chain.connectBatch r old (branch.take 32) p).2 := h.connectBatch
      rcases hb : Chain.connectBatch r old (branch.take 32) p with ⟨v, q⟩
      rw [hb] at hbatch
      cases v with
      | next => exact ih hbatch
      | stop => exact hbatch
      | fail => exact hbatch

theorem activateBestChainStep_told (r : Round) (active target : BlockChain) :
    Told (activateBestChainStep r active target).2 := by
  have hstart : ∀ c d bs, Told ⟨c, (disconnectLoop d bs active).2.2, [], []⟩ :=
    fun c d bs => ⟨hookCalls_disconnectLoop d bs active, rfl, by simp⟩
  simp only [activateBestChainStep]
  split_ifs
  · exact (hstart _ _ _).connectBatches
  · exact hstart _ _ _

/-- A round that connected one block, first in its call, is reported as a scan
reports that block. -/
theorem Told.hookCalls_single {p : Progress} (h : Told p) (genesis : BlockIndex) {e : Nat × BlockIndex}
    (hone : p.connected = [e]) :
    hookCalls (p.calls ++ notifyTip genesis 0 p) = scanBlock e := by
  obtain ⟨hheight, htip⟩ := h.tip e (by simp [hone])
  rw [hookCalls_append, hookCalls_notifyTip, h.begins, hone, notifyTip, h.changed, hone, hheight,
    htip genesis]
  simp only [List.map_cons, List.map_nil, List.flatMap_singleton, List.mapIdx_mapIdx, scanBlock,
    List.cons_append, List.nil_append]
  congr 2
  refine List.ext_getElem (by simp) ?_
  intro i _ _
  simp

/-! ### The condition -/

/-- The step fails before it connects a block. -/
def failsEarly (r : Round) (c target : BlockChain) : Bool :=
  !(c.drop (findFork c target).length).all r.disconnects ||
    match target.drop (findFork c target).length with
    | [] => false
    | b :: _ => r.connect b = .error

/-- The step connects the first block above the fork and stops there: the chain
has more work than before, or it is all of the branch, or the next block is
invalid. -/
def connectsOne (r : Round) (c target : BlockChain) : Bool :=
  (c.drop (findFork c target).length).all r.disconnects &&
    match target.drop (findFork c target).length with
    | [] => false
    | b :: rest =>
      r.connect b = .ok &&
        (chainWork c < chainWork (findFork c target ++ [b]) ||
          match rest with
          | [] => true
          | b' :: _ => r.connect b' = .invalid)

/-- The round connects no block and calls no hook. -/
def quiet (r : Round) (c : BlockChain) : Bool :=
  match r.mostWork with
  | none => true
  | some target => target = c || failsEarly r c target

/-- The call connects at most one block: its first round does, and brings the
chain to its target or is followed by a quiet round. -/
def connectsAtMostOne : List Round → BlockChain → Bool
  | [], _ => true
  | r :: rest, c =>
    quiet r c ||
      match r.mostWork with
      | none => true
      | some target =>
        let reached := target.take ((findFork c target).length + 1)
        connectsOne r c target &&
          (target = reached ||
            match rest with
            | [] => true
            | r' :: _ => quiet r' reached)

/-- Every call of the run connects at most one block. -/
def oneBlockAtATime (genesis : BlockIndex) : List (List Round) → BlockChain → Bool
  | [], _ => true
  | rounds :: rest, c =>
    connectsAtMostOne rounds c &&
      oneBlockAtATime genesis rest (activateBestChain genesis rounds 0 c).chain

/-! ### Steps under the condition -/

/-- Where everything above the fork disconnects, the step connects from the
fork on. -/
theorem activateBestChainStep_of_disconnects {r : Round} {c target : BlockChain}
    (hd : (c.drop (findFork c target).length).all r.disconnects = true) :
    ∃ calls,
      activateBestChainStep r c target =
        let branch := target.drop (findFork c target).length
        let result := connectBatches r c branch.length branch ⟨findFork c target, calls, [], []⟩
        (result.1 != .fail, result.2) := by
  have hall : ∀ b ∈ (c.drop (findFork c target).length).reverse, r.disconnects b = true := by
    intro b hb
    exact List.all_eq_true.mp hd b (List.mem_reverse.mp hb)
  obtain ⟨hok, hchain⟩ := disconnectLoop_ok c hall
  have hlen := (findFork_prefix_left c target).length_le
  have hfork : (disconnectLoop r.disconnects (c.drop (findFork c target).length).reverse c).2.1 =
      findFork c target := by
    rw [hchain, List.length_reverse, List.length_drop, Nat.sub_sub_self hlen]
    exact (List.prefix_iff_eq_take.mp (findFork_prefix_left c target)).symm
  refine ⟨(disconnectLoop r.disconnects (c.drop (findFork c target).length).reverse c).2.2, ?_⟩
  simp [activateBestChainStep, hok, hfork]

theorem failsEarly_step {target : BlockChain} (h : failsEarly r c target = true) :
    (activateBestChainStep r c target).1 = false ∧
      (activateBestChainStep r c target).2.connected = [] := by
  by_cases hd : (c.drop (findFork c target).length).all r.disconnects = true
  · obtain ⟨calls, hstep⟩ := activateBestChainStep_of_disconnects hd
    simp only [failsEarly, hd, Bool.not_true, Bool.false_or] at h
    rw [hstep]
    cases hbranch : target.drop (findFork c target).length with
    | nil => simp [hbranch] at h
    | cons b rest =>
      simp only [hbranch, decide_eq_true_eq] at h
      simp [connectBatches, connectBatch, h]
  · have hbad : ∃ b ∈ (c.drop (findFork c target).length).reverse, r.disconnects b = false := by
      simpa [not_forall] using hd
    simp [activateBestChainStep, disconnectLoop_fails c hbad]

theorem connectsOne_step {target : BlockChain} (h : connectsOne r c target = true) :
    ∃ e, (activateBestChainStep r c target).1 = true ∧
      (activateBestChainStep r c target).2.connected = [e] ∧
      (activateBestChainStep r c target).2.chain =
        target.take ((findFork c target).length + 1) := by
  rw [connectsOne, Bool.and_eq_true] at h
  obtain ⟨hd, h⟩ := h
  obtain ⟨calls, hstep⟩ := activateBestChainStep_of_disconnects hd
  rw [hstep]
  cases hbranch : target.drop (findFork c target).length with
  | nil => simp [hbranch] at h
  | cons b rest =>
    have hreached : target.take ((findFork c target).length + 1) = findFork c target ++ [b] := by
      have hget : target[(findFork c target).length]? = some b := by
        rw [← List.head?_drop, hbranch, List.head?_cons]
      rw [List.take_add_one, hget,
        ← List.prefix_iff_eq_take.mp (findFork_prefix_right c target)]
      rfl
    rw [hreached]
    simp only [hbranch, Bool.and_eq_true, Bool.or_eq_true, decide_eq_true_eq] at h
    obtain ⟨hok, hwork⟩ := h
    refine ⟨((findFork c target).height + 1, b), ?_⟩
    by_cases hmore : chainWork c < chainWork (findFork c target ++ [b])
    · simp [connectBatches, connectBatch, hok, Progress.connectTip, hmore]
    · have hrest := hwork.resolve_left hmore
      cases rest with
      | nil => simp [connectBatches, connectBatch, hok, Progress.connectTip, hmore]
      | cons b' rest =>
        simp only [decide_eq_true_eq] at hrest
        simp [connectBatches, connectBatch, hok, hrest, Progress.connectTip, hmore]

/-! ### Whole calls and runs -/

section
variable {genesis : BlockIndex}

/-- The calls that reach the token layer are those of a scan. -/
def Activation.Faithful (a : Activation) : Prop := hookCalls a.calls = mscInitialScan a.connected

theorem activateBestChain_quiet (h : quiet r c = true)
    (rest : List Round) (n : Nat) :
    hookCalls (activateBestChain genesis (r :: rest) n c).calls = [] ∧
      (activateBestChain genesis (r :: rest) n c).connected = [] := by
  rw [activateBestChain]
  rw [quiet] at h
  cases hm : r.mostWork with
  | none => exact ⟨rfl, rfl⟩
  | some target =>
    dsimp only
    by_cases hsame : target = c
    · rw [if_pos hsame]
      exact ⟨rfl, rfl⟩
    · simp only [hm, hsame, decide_false, Bool.false_or] at h
      obtain ⟨hfail, hnone⟩ := failsEarly_step h
      have hbegins := (activateBestChainStep_told r c target).begins
      rw [hnone] at hbegins
      simp only [if_neg hsame, hfail, Bool.not_false, if_true]
      exact ⟨hbegins, hnone⟩

theorem activateBestChain_faithful {rounds : List Round}
    (h : connectsAtMostOne rounds c = true) :
    (activateBestChain genesis rounds 0 c).Faithful := by
  cases rounds with
  | nil => rfl
  | cons r rest =>
    by_cases hquiet : quiet r c = true
    · have hnone : hookCalls (activateBestChain genesis (r :: rest) 0 c).calls = [] ∧ _ :=
        activateBestChain_quiet hquiet rest 0
      rw [Activation.Faithful, hnone.1, hnone.2]
      rfl
    · simp only [connectsAtMostOne, hquiet, Bool.false_or] at h
      cases hm : r.mostWork with
      | none => simp [quiet, hm] at hquiet
      | some target =>
        have hne : target ≠ c := by
          rintro rfl
          simp [quiet, hm] at hquiet
        simp only [hm, Bool.and_eq_true, Bool.or_eq_true, decide_eq_true_eq] at h
        obtain ⟨hone, hafter⟩ := h
        obtain ⟨e, hok, hconn, hchain⟩ := connectsOne_step hone
        have hsingle :=
          (activateBestChainStep_told r c target).hookCalls_single genesis hconn
        simp only [Activation.Faithful, activateBestChain, hm, if_neg hne, hok, Bool.not_true,
          Bool.false_eq_true, if_false]
        split_ifs with hreached
        · rw [hsingle, hconn]
          exact (List.flatMap_singleton ..).symm
        · rw [hchain] at hreached
          -- the target is not reached, so a further round runs, and it is quiet
          have hmore : ∀ n,
              hookCalls (activateBestChain genesis rest n
                (activateBestChainStep r c target).2.chain).calls = [] ∧
              (activateBestChain genesis rest n
                (activateBestChainStep r c target).2.chain).connected = [] := by
            intro n
            cases rest with
            | nil => exact ⟨rfl, rfl⟩
            | cons r' rest' =>
              rw [hchain]
              exact activateBestChain_quiet (hafter.resolve_left hreached) rest' n
          rw [hookCalls_append, hsingle, (hmore _).1, (hmore _).2, hconn]
          simp [mscInitialScan]

/-- The token layer sees the active chain: in a run in which every call of
`ActivateBestChain` connects at most one block, whatever is reorganised, refused
or fails on the way, the calls it and `ConnectTip` make are those
`msc_initial_scan` makes for the blocks connected. -/
theorem token_layer_sees_chain (calls : List (List Round)) (c : BlockChain)
    (h : oneBlockAtATime genesis calls c = true) :
    hookCalls (activations genesis calls c).calls =
      mscInitialScan (activations genesis calls c).connected := by
  induction calls generalizing c with
  | nil => rfl
  | cons rounds rest ih =>
    rw [oneBlockAtATime, Bool.and_eq_true] at h
    have hfirst : (activateBestChain genesis rounds 0 c).Faithful :=
      activateBestChain_faithful h.1
    simp only [activations, hookCalls_append, mscInitialScan_append]
    rw [hfirst, ih _ h.2]

end

/-! ### Runs that meet the condition, and one that does not -/

/-- A round that finds a chain and can connect all of it. -/
def arrival (target : BlockChain) : Round := ⟨some target, fun _ => true, fun _ => .ok⟩

/-- The genesis block, and blocks with two, one and one transactions. -/
def blockG : BlockIndex := ⟨0, [1], 1, by decide⟩
def blockA : BlockIndex := ⟨1, [10, 11], 1, by decide⟩
def blockB : BlockIndex := ⟨2, [20], 1, by decide⟩
def blockC : BlockIndex := ⟨3, [30], 2, by decide⟩

/-- A block arrives, then one with more work takes its place. -/
theorem token_layer_sees_replacement :
    oneBlockAtATime blockG [[arrival [blockA]], [arrival [blockC]]] [] = true ∧
      hookCalls (activations blockG [[arrival [blockA]], [arrival [blockC]]] []).calls =
        mscInitialScan (activations blockG [[arrival [blockA]], [arrival [blockC]]] []).connected :=
  ⟨by decide, token_layer_sees_chain _ _ (by decide)⟩

/-- Two blocks become connectable at once. They are connected in two rounds of
one call, and the only transaction of the second is reported at position 2. -/
theorem token_layer_misnumbers_second :
    hookCalls (activations blockG [[arrival [blockA, blockB], arrival [blockA, blockB]]] []).calls ≠
      mscInitialScan
        (activations blockG [[arrival [blockA, blockB], arrival [blockA, blockB]]] []).connected := by
  decide

end Rapids.Chain
