import Rapids.Chain.FlushState

/-!
# Rapids.Chain.FlushStateSound

The money supply after crashes.

What is on disk is **consistent**: the coins are those of an indexed chain below the
active one, and the supply is that of the chain it was written at. So a node always
starts, with the coins of a chain and the supply of one, perhaps another. From there
connecting adds to both what it adds without a crash: the difference stays, whatever
blocks come.
-/

namespace Rapids.Chain

open Rapids.Lib

section
variable {P : ChainParams} {b : CBlock} {rest chain : List CBlock} {s s' : ChainTip}

/-! ### Chains -/

theorem connectChain_cons (h : connectChain P (b :: rest) = some s') :
    ∃ s undo, connectChain P rest = some s ∧ b.hash ≠ P.hashGenesisBlock ∧
      connectCore P (rest.length + 1) (tipHash P rest) b s = some (undo, s') := by
  rw [connectChain, Option.bind_eq_some_iff] at h
  obtain ⟨s, hs, hb⟩ := h
  split_ifs at hb with hgen
  obtain ⟨⟨undo, t⟩, hcore, rfl⟩ := Option.map_eq_some_iff.mp hb
  exact ⟨s, undo, hs, hgen, hcore⟩

theorem connectChain_bestBlock (h : connectChain P chain = some s) : s.bestBlock = tipHash P chain := by
  cases chain with
  | nil =>
    cases h
    rfl
  | cons b rest =>
    obtain ⟨s₀, undo, -, hgen, hcore⟩ := connectChain_cons h
    obtain ⟨-, ⟨hgen', -⟩ | ⟨-, -, undos, t, -, -, -, rfl⟩⟩ := connectCore_cases hcore
    · exact absurd hgen' hgen
    · rfl

theorem connectCore_again (hs : connectChain P rest = some s) (hs' : connectChain P (b :: rest) = some s')
    (x : Int) :
    ∃ undo, connectCore P (rest.length + 1) (tipHash P rest) b { s with nMoneySupply := x } =
      some (undo, { s' with nMoneySupply := toI64 (x + blockMint P b rest) }) := by
  obtain ⟨s₀, undo, hs0, hgen, hcore⟩ := connectChain_cons hs'
  obtain rfl := Option.some.inj (hs.symm.trans hs0)
  obtain ⟨hprev, ⟨hgen', -⟩ | ⟨-, -, undos, t, htxs, -, -, rfl⟩⟩ := connectCore_cases hcore
  · exact absurd hgen' hgen
  have hmint : blockMint P b rest = t.nValueOut - t.nValueIn := by
    rw [blockMint, hs, Option.bind_some, htxs]
    rfl
  refine ⟨undo, ?_⟩
  -- the checks do not read the supply
  rw [connectCore, if_neg (not_not_intro hprev), if_neg hgen] at hcore ⊢
  split_ifs at hcore ⊢ with hpow
  rw [Option.bind_eq_bind, htxs, Option.bind_some] at hcore ⊢
  dsimp only at hcore ⊢
  split_ifs at hcore ⊢ with hchecks
  obtain ⟨rfl, -⟩ := Prod.mk.inj (Option.some.inj hcore)
  rw [hmint, toI64_add_toI64]

theorem connectChain_supply (h : connectChain P chain = some s) :
    s.nMoneySupply = toI64 (chainMint P chain) := by
  induction chain generalizing s with
  | nil =>
    cases h
    rfl
  | cons b rest ih =>
    obtain ⟨s₀, undo, hs0, -, hcore⟩ := connectChain_cons h
    obtain ⟨undo', hagain⟩ := connectCore_again hs0 h s₀.nMoneySupply
    have hsame := (Prod.mk.inj (Option.some.inj (hcore.symm.trans hagain))).2
    rw [congrArg ChainTip.nMoneySupply hsame, ih hs0, toI64_toI64_add, chainMint, Int.add_comm]

end

namespace FlushNode

section
variable {P : ChainParams} {n n' : FlushNode} {F : FlushCall} {k : Nat}

/-! ### The disk -/

/-- **The disk is consistent** with a chain. -/
structure Consistent (P : ChainParams) (chain : List CBlock) (d : Databases) : Prop where
  supplied : d.moneySupply = some (toI64 (chainMint P d.suppliedAt))
  coins : ∀ c v, d.coins = some (c, v) →
    c <:+ chain ∧ d.blockIndex c = true ∧ ∃ s, connectChain P c = some s ∧ s.coins = v

/-- **The node is right**: its tip is the one of a node that never stops, and its disk is
consistent. -/
structure Right (P : ChainParams) (n : FlushNode) : Prop where
  tip : connectChain P n.chain = some n.tip
  disk : Consistent P n.chain n.disk

theorem writes_take (n : FlushNode) (F : FlushCall) (k : Nat) :
    (n.writesOf F).take k = [] ∨ (n.writesOf F).take k = [.blockIndex] ∨
      (n.writesOf F).take k = [.blockIndex, .moneySupply] ∨
      (n.writesOf F).take k = [.blockIndex, .moneySupply, .coins] := by
  rw [writesOf, FlushCall.writes]
  split_ifs
  · rcases k with _ | _ | _ | k
    · exact .inl rfl
    · exact .inr (.inl rfl)
    · exact .inr (.inr (.inl rfl))
    · exact .inr (.inr (.inr (by simp)))
  · rcases k with _ | _ | k
    · exact .inl rfl
    · exact .inr (.inl rfl)
    · exact .inr (.inr (.inl (by simp)))
  · exact .inl (by simp)

variable {d : Databases}

theorem Consistent.blockIndex (h : Consistent P n.chain d) :
    Consistent P n.chain (n.write d .blockIndex) := by
  refine ⟨h.supplied, fun c v hc => ?_⟩
  obtain ⟨hbelow, hindex, hs⟩ := h.coins c v hc
  refine ⟨hbelow, ?_, hs⟩
  show (decide (c <:+ n.chain) || d.blockIndex c) = true
  rw [hindex, Bool.or_true]

theorem Consistent.moneySupply (h : Consistent P n.chain d)
    (htip : connectChain P n.chain = some n.tip) : Consistent P n.chain (n.write d .moneySupply) :=
  ⟨congrArg some (connectChain_supply htip), h.coins⟩

theorem Consistent.coins_written (h : Consistent P n.chain d)
    (htip : connectChain P n.chain = some n.tip) (hindex : d.blockIndex n.chain = true) :
    Consistent P n.chain (n.write d .coins) := by
  refine ⟨h.supplied, fun c v hc => ?_⟩
  cases hc
  exact ⟨List.suffix_refl n.chain, hindex, n.tip, htip, rfl⟩

theorem Right.interrupted (hn : n.Right P) (F : FlushCall) (k : Nat) :
    Consistent P n.chain (n.interrupted F k) := by
  rw [FlushNode.interrupted]
  have hindexed := hn.disk.blockIndex
  have hsupplied := hindexed.moneySupply hn.tip
  rcases writes_take n F k with h | h | h | h <;> rw [h]
  · exact hn.disk
  · exact hindexed
  · exact hsupplied
  · refine hsupplied.coins_written hn.tip ?_
    show (decide (n.chain <:+ n.chain) || n.disk.blockIndex n.chain) = true
    rw [decide_eq_true (List.suffix_refl n.chain), Bool.true_or]

theorem Consistent.mono {c c' : List CBlock} (h : Consistent P c d) (hle : c <:+ c') :
    Consistent P c' d :=
  ⟨h.supplied, fun x v hx => ⟨(h.coins x v hx).1.trans hle, (h.coins x v hx).2⟩⟩

/-! ### Steps -/

/-- **After a crash the node starts**, with the coins of a chain below and a supply that is
right for it exactly if the disk was settled. -/
theorem Right.crash (hn : n.Right P) (F : FlushCall) (k : Nat) (legacy : List CBlock → Int) (now : Int) :
    ∃ n' s m, step P n (.crash F k legacy now) = some n' ∧ n'.chain <:+ n.chain ∧
      connectChain P n'.chain = some s ∧ n'.tip = { s with nMoneySupply := toI64 m } ∧
      Consistent P n'.chain n'.disk ∧
      ((n.interrupted F k).settled P = true ↔ toI64 (m - chainMint P n'.chain) = 0) := by
  have hdisk := hn.interrupted F k
  rw [step, restart, Databases.settled]
  cases hcoins : (n.interrupted F k).coins with
  | none =>
    refine ⟨_, ⟨∅, P.hashGenesisBlock, 0⟩, 0, rfl, List.nil_suffix, rfl, rfl, ⟨rfl, ?_⟩, ?_⟩
    · intro c v hc
      cases hc
    · exact ⟨fun _ => rfl, fun _ => rfl⟩
  | some r =>
    obtain ⟨c, v⟩ := r
    obtain ⟨hbelow, hindex, s, hs, rfl⟩ := hdisk.coins c v hcoins
    dsimp only
    rw [if_pos hindex, hdisk.supplied]
    refine ⟨_, s, chainMint P (n.interrupted F k).suppliedAt, rfl, hbelow, hs, ?_, ?_, ?_⟩
    · rw [← connectChain_bestBlock hs]
      rfl
    · refine ⟨hdisk.supplied, fun x w hx => ?_⟩
      obtain ⟨rfl, rfl⟩ := Prod.mk.inj (Option.some.inj (hcoins.symm.trans hx))
      exact ⟨List.suffix_refl c, hindex, s, hs, rfl⟩
    · rw [Option.all_some, decide_eq_true_iff]

theorem connect_again {N : NodeState} {b : CBlock} {s s' : ChainTip} {x : Int}
    (hs : connectChain P n.chain = some s) (htip : n.tip = { s with nMoneySupply := x })
    (hs' : connectChain P (b :: n.chain) = some s') (hstep : step P n (.connect N b) = some n') :
    n' = { n with chain := b :: n.chain, tip := { s' with
      nMoneySupply := toI64 (x + blockMint P b n.chain) } } := by
  rw [step] at hstep
  split_ifs at hstep
  obtain ⟨r, hr, rfl⟩ := Option.map_eq_some_iff.mp hstep
  rw [connectBlock] at hr
  split_ifs at hr
  obtain ⟨undo, hagain⟩ := connectCore_again hs hs' x
  rw [htip, hagain] at hr
  rw [← Option.some.inj hr]

theorem Right.connect (hn : n.Right P) {N : NodeState} {b : CBlock}
    (hstep : step P n (.connect N b) = some n') : n'.Right P := by
  have hnext : ∃ s', connectChain P (b :: n.chain) = some s' := by
    rw [step] at hstep
    split_ifs at hstep with hgen
    obtain ⟨⟨undo, t⟩, hr, -⟩ := Option.map_eq_some_iff.mp hstep
    rw [connectBlock] at hr
    split_ifs at hr
    exact ⟨t, by rw [connectChain, hn.tip, Option.bind_some, if_neg hgen, hr, Option.map_some]⟩
  obtain ⟨s', hs'⟩ := hnext
  obtain rfl := connect_again hn.tip rfl hs' hstep
  refine ⟨?_, hn.disk.mono (List.suffix_cons b n.chain)⟩
  have hsupply : toI64 (n.tip.nMoneySupply + blockMint P b n.chain) = s'.nMoneySupply := by
    rw [connectChain_supply hs', connectChain_supply hn.tip, toI64_toI64_add, chainMint, Int.add_comm]
  rw [hsupply]
  exact hs'

theorem Right.flush (hn : n.Right P) (F : FlushCall) : (n.flushStateToDisk F).Right P := by
  refine ⟨hn.tip, ?_⟩
  have hall : n.interrupted F (n.writesOf F).length = (n.flushStateToDisk F).disk := by
    rw [FlushNode.interrupted, List.take_length]
    rfl
  rw [← hall]
  exact hn.interrupted F _

theorem Right.step (hn : n.Right P) {e : FlushEvent}
    (hstep : guarded (crashesSettled P) (step P) n e = some n') : n'.Right P := by
  obtain ⟨hsettled, hstep⟩ := guarded_eq_some.mp hstep
  cases e with
  | connect N b => exact hn.connect hstep
  | flush F =>
    cases hstep
    exact hn.flush F
  | crash F k legacy now =>
    obtain ⟨m', s, m, hcrash, -, hs, htip, hdisk, hiff⟩ := hn.crash F k legacy now
    obtain rfl := Option.some.inj (hstep.symm.trans hcrash)
    refine ⟨?_, hdisk⟩
    have hzero := hiff.mp hsettled
    have hsum : chainMint P n'.chain + (m - chainMint P n'.chain) = m := by omega
    have hsupply : toI64 m = s.nMoneySupply := by
      have hsame := (toI64_add_eq_self_iff (inI64_toI64 (chainMint P n'.chain))).mpr hzero
      rw [toI64_toI64_add, hsum] at hsame
      rw [hsame, connectChain_supply hs]
    rw [htip, hsupply]
    exact hs

/-! ### Connecting again -/

/-- The blocks that are connected again. -/
def reconnection (N : CBlock → NodeState) (bs : List CBlock) : List FlushEvent :=
  bs.map fun b => .connect (N b) b

theorem run_reconnection {N : CBlock → NodeState} {pre : List CBlock} {s s' : ChainTip} {m : Int}
    (hs : connectChain P n.chain = some s) (htip : n.tip = { s with nMoneySupply := toI64 m })
    (hs' : connectChain P (pre ++ n.chain) = some s')
    (h : run (FlushNode.step P) n (reconnection N pre.reverse) = some n') :
    n' = { n with chain := pre ++ n.chain, tip := { s' with
      nMoneySupply := toI64 (m + (chainMint P (pre ++ n.chain) - chainMint P n.chain)) } } := by
  induction pre generalizing s' n' with
  | nil =>
    cases h
    obtain rfl := Option.some.inj (hs.symm.trans hs')
    rw [List.nil_append, Int.sub_self, Int.add_zero, ← htip]
  | cons b pre ih =>
    rw [List.reverse_cons, reconnection, List.map_append, run_append, Option.bind_eq_some_iff] at h
    obtain ⟨n₁, h1, hlast⟩ := h
    rw [List.cons_append] at hs'
    obtain ⟨s₁, undo, hs1, -, -⟩ := connectChain_cons hs'
    obtain rfl := ih hs1 h1
    rw [List.map_singleton, run_cons, Option.bind_eq_some_iff] at hlast
    obtain ⟨n₂, hstep, hend⟩ := hlast
    cases hend
    obtain rfl := connect_again (s := s₁) (by exact hs1) rfl (by exact hs') hstep
    have hsum : m + (chainMint P (pre ++ n.chain) - chainMint P n.chain) + blockMint P b (pre ++ n.chain) =
        m + (chainMint P (b :: (pre ++ n.chain)) - chainMint P n.chain) := by
      rw [chainMint]
      omega
    rw [toI64_toI64_add, hsum]
    rfl

theorem reconnection_succeeds {N : CBlock → NodeState} {pre : List CBlock} {s s' : ChainTip} {m : Int}
    (hs : connectChain P n.chain = some s) (htip : n.tip = { s with nMoneySupply := toI64 m })
    (hs' : connectChain P (pre ++ n.chain) = some s')
    (hcheck : ∀ b rest, b :: rest <:+ pre → checkBlock P (N b) (rest.length + n.chain.length + 1) b = true) :
    ∃ n', run (FlushNode.step P) n (reconnection N pre.reverse) = some n' := by
  induction pre generalizing s' with
  | nil => exact ⟨n, rfl⟩
  | cons b pre ih =>
    rw [List.cons_append] at hs'
    obtain ⟨s₁, undo, hs1, hgen, -⟩ := connectChain_cons hs'
    obtain ⟨n₁, h1⟩ := ih hs1 fun b' rest hle => hcheck b' rest (hle.trans (List.suffix_cons b pre))
    have heq := run_reconnection hs htip hs1 h1
    obtain ⟨undo', hagain⟩ := connectCore_again hs1 hs'
      (toI64 (m + (chainMint P (pre ++ n.chain) - chainMint P n.chain)))
    have hpass := hcheck b pre (List.suffix_refl (b :: pre))
    rw [← List.length_append] at hpass
    have hblock : ∃ r, FlushNode.step P n₁ (.connect (N b) b) = some r := by
      rw [heq, FlushNode.step, if_neg hgen]
      rw [connectBlock, if_pos hpass, hagain, Option.map_some]
      exact ⟨_, rfl⟩
    obtain ⟨n₂, hlast⟩ := hblock
    refine ⟨n₂, ?_⟩
    rw [List.reverse_cons, reconnection, List.map_append]
    exact run_trans h1 (by rw [List.map_singleton, run_cons, hlast, Option.bind_some, run_nil])

theorem Right.run (hn : n.Right P) {es : List FlushEvent}
    (h : run (guarded (crashesSettled P) (FlushNode.step P)) n es = some n') : n'.Right P :=
  run_invariant (fun _ _ _ hs hstep => hs.step hstep) hn h

end

theorem right_start (P : ChainParams) (now : Int) : (start P now).Right P :=
  ⟨rfl, rfl, fun c v hc => by cases hc⟩

theorem blocksAbove_append (pre below : List CBlock) : blocksAbove (pre ++ below) below = pre.reverse := by
  rw [blocksAbove, List.length_append, Nat.add_sub_cancel, List.take_left']
  rfl

end FlushNode

/-- **The money supply and crashes.** In a run whose crashes leave a settled disk the tip
is that of a node that connects the same blocks and never stops. And after a crash the
node starts again, connects the blocks above if they pass `CheckBlock` again, and then has
the supply it had exactly if the crash left a settled disk. -/
theorem money_supply_survives (P : ChainParams) (t : Int) {es : List FlushEvent} {n : FlushNode}
    (h : run (guarded (FlushNode.crashesSettled P) (FlushNode.step P)) (FlushNode.start P t) es = some n) :
    connectChain P n.chain = some n.tip ∧
      ∀ F k legacy now, ∃ n', FlushNode.step P n (.crash F k legacy now) = some n' ∧
        (∀ N, (∀ b rest, b :: rest <:+ n.chain → n'.chain.length ≤ rest.length →
            checkBlock P (N b) (rest.length + 1) b = true) →
          ∃ n'', run (FlushNode.step P) n'
            (FlushNode.reconnection N (blocksAbove n.chain n'.chain)) = some n'') ∧
        ∀ N n'', run (FlushNode.step P) n'
            (FlushNode.reconnection N (blocksAbove n.chain n'.chain)) = some n'' →
          n''.chain = n.chain ∧ n''.tip.coins = n.tip.coins ∧
            (n''.tip.nMoneySupply = n.tip.nMoneySupply ↔ (n.interrupted F k).settled P = true) := by
  have hn := (FlushNode.right_start P t).run h
  refine ⟨hn.tip, fun F k legacy now => ?_⟩
  obtain ⟨n', s, m, hcrash, ⟨pre, hpre⟩, hs, htip, -, hiff⟩ := hn.crash F k legacy now
  have habove : blocksAbove n.chain n'.chain = pre.reverse := by
    rw [← hpre, FlushNode.blocksAbove_append]
  have hs' : connectChain P (pre ++ n'.chain) = some n.tip := by
    rw [hpre]
    exact hn.tip
  refine ⟨n', hcrash, fun N hcheck => ?_, fun N n'' hrun => ?_⟩
  · rw [habove]
    refine FlushNode.reconnection_succeeds hs htip hs' fun b rest hle => ?_
    have hchecked := hcheck b (rest ++ n'.chain) (by
      rw [← hpre]
      obtain ⟨front, hfront⟩ := hle
      exact ⟨front, by rw [← hfront, List.append_assoc, List.cons_append]⟩) (by
      rw [List.length_append]
      omega)
    rwa [List.length_append] at hchecked
  · rw [habove] at hrun
    have heq := FlushNode.run_reconnection hs htip hs' hrun
    rw [heq]
    refine ⟨hpre, rfl, ?_⟩
    have hsum : toI64 (m + (chainMint P (pre ++ n'.chain) - chainMint P n'.chain)) =
        toI64 (toI64 (chainMint P n.chain) + (m - chainMint P n'.chain)) := by
      rw [hpre, toI64_toI64_add]
      congr 1
      omega
    dsimp only
    rw [hsum, connectChain_supply hn.tip, toI64_add_eq_self_iff (inI64_toI64 _), hiff]

/-! ### Examples -/

/-- A call with a small cache, at an hour. -/
def flushCall (mode : FlushStateMode) (hour : Int) : FlushCall :=
  ⟨mode, hour * databaseWriteInterval, 0, 1000, 0, 0, true, true⟩

def connectMined (k : Nat) : FlushEvent := .connect syncedNode ⟨k, [coinbaseOf (100 + k) 1000]⟩

/-- The node stops with the coins and the supply of the first block on disk. -/
def settledCrash : List FlushEvent :=
  [connectMined 1, .flush (flushCall .always 1), connectMined 2,
    .crash (flushCall .ifNeeded 2) 0 (fun _ => 0) 3, connectMined 2, connectMined 3]

theorem money_supply_survives_settled :
    ∃ n, run (guarded (FlushNode.crashesSettled mainParams) (FlushNode.step mainParams))
        (FlushNode.start mainParams 1) settledCrash = some n ∧
      n.tip.nMoneySupply = 3000 ∧ connectChain mainParams n.chain = some n.tip := by
  have hrun : (run (guarded (FlushNode.crashesSettled mainParams) (FlushNode.step mainParams))
      (FlushNode.start mainParams 1) settledCrash).map (fun n => n.tip.nMoneySupply) = some 3000 := by
    decide +kernel
  obtain ⟨n, hn, hsupply⟩ := Option.map_eq_some_iff.mp hrun
  exact ⟨n, hn, hsupply, (money_supply_survives mainParams 1 hn).1⟩

/-- A periodic write puts the supply of the second block on disk, and not its coins. -/
theorem money_supply_counted_twice :
    ¬ ∀ P t es n, run (FlushNode.step P) (FlushNode.start P t) es = some n →
      (connectChain P n.chain).map ChainTip.nMoneySupply = some n.tip.nMoneySupply := by
  intro hall
  have hrun : (run (FlushNode.step mainParams) (FlushNode.start mainParams 1)
      [connectMined 1, .flush (flushCall .always 1), connectMined 2, .flush (flushCall .periodic 3),
        .crash (flushCall .ifNeeded 3) 0 (fun _ => 0) 4, connectMined 2]).map
      (fun n => decide ((connectChain mainParams n.chain).map ChainTip.nMoneySupply = some 2000 ∧
        n.tip.nMoneySupply = 3000)) = some true := by
    decide +kernel
  obtain ⟨n, hn, hsupply⟩ := Option.map_eq_some_iff.mp hrun
  obtain ⟨hright, hleft⟩ := of_decide_eq_true hsupply
  have hsame := hall mainParams 1 _ n hn
  rw [hright, hleft] at hsame
  revert hsame
  decide

/-- The same between the last two writes of a full flush. -/
example : (run (FlushNode.step mainParams) (FlushNode.start mainParams 1)
    [connectMined 1, .flush (flushCall .always 1), connectMined 2,
      .crash (flushCall .always 2) 2 (fun _ => 0) 3, connectMined 2]).map
    (fun n => n.tip.nMoneySupply) = some 3000 := by
  decide +kernel

end Rapids.Chain
