import Rapids.Chain.ConnectSound
import Rapids.Lib.Run

/-!
# Rapids.Chain.Overwrite

**Are coins ever overwritten?** `AddCoins` takes it for granted that no output of
a transaction is unspent already: it adds coins without `possible_overwrite`, and
the layer that does so looks at its own entries only. What happens if a layer
below holds the coin is that the coin is replaced. Connecting is therefore
modelled once more here, with coins that are replaced and a note whether that
happened.

A transaction with inputs cannot be connected twice while ids are not reused: its
inputs are gone, and only a transaction with the id of one connected before
could bring them back. This is the invariant `Settled`. Nothing says the
same of coinbases, which spend nothing: `ContextualCheckBlock` no longer asks for
the height in them. So coins are safe along every chain whose coinbases differ
(`no_coin_overwritten`).
-/

namespace Rapids.Chain

open Rapids.Lib

variable {P : ChainParams}

variable {tx : Transaction} {nHeight : Nat} {t t' : Tally} {clean : Bool}

/-! ### Adding coins over others -/

/-- `AddCoin` without `possible_overwrite`, through a layer that has not looked the
outpoint up: was the place free, and the new view. -/
def placeCoin (v : Coins) (o : OutPoint) (c : Coin) : Option (Bool × Coins) :=
  if c.isSpent then none
  else if isUnspendable c.out.scriptPubKey then some (true, v)
  else some (!Coins.haveCoin v o, v.insert o c)

/-- The loop of `AddCoins`, from output `i` on. -/
def placeCoinsFrom (tx : Transaction) (nHeight : Nat) : Nat → List TxOut → Coins → Option (Bool × Coins)
  | _, [], v => some (true, v)
  | i, o :: rest, v => do
    let (clean, v) ← placeCoin v ⟨tx.hash, i⟩ ⟨o, nHeight, tx.isCoinBase, tx.isCoinStake⟩
    let (clean', v) ← placeCoinsFrom tx nHeight (i + 1) rest v
    some (clean && clean', v)

/-- `UpdateCoins` -/
def placeTx (v : Coins) (tx : Transaction) (nHeight : Nat) : Option (Bool × Coins) :=
  placeCoinsFrom tx nHeight 0 tx.vout (if tx.isCoinBase then v else (Coins.spendInputs tx.vin v).2)

/-- One round of the loop of `ConnectBlock`. -/
def connectTxOver (P : ChainParams) (nHeight : Nat) (t : Tally) (tx : Transaction) : Option (Bool × Tally) := do
  let out ← tx.getValueOut
  let (clean, coins) ← placeTx t.coins tx nHeight
  if tx.isCoinBase then
    some (clean, { t with coins := coins, nValueOut := toI64 (t.nValueOut + out) })
  else if checkTxInputs P t.coins nHeight tx then
    let nValueIn := Coins.getValueIn t.coins tx
    some (clean,
      { coins := coins
        nFees := if tx.isCoinStake then t.nFees else toI64 (t.nFees + toI64 (nValueIn - out))
        nValueIn := toI64 (t.nValueIn + nValueIn)
        nValueOut := toI64 (t.nValueOut + out) })
  else none

/-- The loop over the transactions. -/
def connectTxsOver (P : ChainParams) (nHeight : Nat) : List Transaction → Tally → Option (Bool × Tally)
  | [], t => some (true, t)
  | tx :: rest, t => do
    let (clean, t) ← connectTxOver P nHeight t tx
    let (clean', t) ← connectTxsOver P nHeight rest t
    some (clean && clean', t)

/-- `ConnectBlock`: were all places free, and the new tip. -/
def connectBlockOver (P : ChainParams) (N : NodeState) (nHeight : Nat) (b : CBlock) (s : ChainTip) :
    Option (Bool × ChainTip) :=
  if !checkBlock P N nHeight b then none
  else if b.hash = P.hashGenesisBlock then some (true, { s with bestBlock := b.hash })
  else if networkUpgradeActive P.upgradePos nHeight && !b.isProofOfStake then none
  else do
    let (clean, t) ← connectTxsOver P nHeight b.vtx ⟨s.coins, 0, 0, 0⟩
    if checkReward (nHeight - 1) t &&
        (!networkUpgradeActive P.upgradePos nHeight || checkDevFund P (nHeight - 1) b) then
      some (clean,
        { coins := t.coins
          bestBlock := b.hash
          nMoneySupply := toI64 (s.nMoneySupply + toI64 (t.nValueOut - t.nValueIn)) })
    else none

/-! ### Chains -/

/-- A chain being connected. -/
structure ChainRun where
  nHeight : Nat
  tip : ChainTip
  /-- No coin has been overwritten. -/
  clean : Bool

/-- Connect the next block, with what the node knows at the time. -/
def overStep (P : ChainParams) (s : ChainRun) (e : NodeState × CBlock) : Option ChainRun :=
  (connectBlockOver P e.1 (s.nHeight + 1) e.2 s.tip).map fun (clean, tip) =>
    ⟨s.nHeight + 1, tip, s.clean && clean⟩

/-- The genesis block has no coins. -/
def genesisRun (P : ChainParams) : ChainRun := ⟨0, ⟨∅, P.hashGenesisBlock, 0⟩, true⟩

/-- All transactions of a chain. -/
def chainTxs (es : List (NodeState × CBlock)) : List Transaction := es.flatMap fun e => e.2.vtx

/-! ### Where nothing is overwritten -/

theorem placeCoin_of_addCoin {v v' : Coins} {o : OutPoint} {c : Coin} (h : Coins.addCoin v o c = some v') :
    placeCoin v o c = some (true, v') := by
  obtain ⟨hspent, ⟨hun, rfl⟩ | ⟨hun, hfree, rfl⟩⟩ := Coins.addCoin_eq_some h
  · simp [placeCoin, hspent, hun]
  · simp [placeCoin, hspent, hun, hfree]

theorem placeCoinsFrom_of_addCoinsFrom {i : Nat} {outs : List TxOut} {v v' : Coins}
    (h : Coins.addCoinsFrom tx nHeight i outs v = some v') :
    placeCoinsFrom tx nHeight i outs v = some (true, v') := by
  induction outs generalizing i v with
  | nil =>
    cases h
    rfl
  | cons o rest ih =>
    simp only [Coins.addCoinsFrom, do_eq_some] at h
    obtain ⟨v₁, h1, h2⟩ := h
    simp [placeCoinsFrom, placeCoin_of_addCoin h1, ih h2]

theorem connectTxOver_of_connectTx
    {undo : List Coin} (h : connectTx P nHeight t tx = some (undo, t')) :
    connectTxOver P nHeight t tx = some (true, t') := by
  simp only [connectTx, do_eq_some] at h
  obtain ⟨out, hout, ⟨u, coins⟩, hupdate, h⟩ := h
  have hplace : placeTx t.coins tx nHeight = some (true, coins) := by
    simp only [Coins.updateCoins, Option.map_eq_some_iff, Prod.mk.injEq] at hupdate
    obtain ⟨v, hadd, -, rfl⟩ := hupdate
    refine placeCoinsFrom_of_addCoinsFrom ?_
    cases hcb : tx.isCoinBase with
    | true =>
      rw [hcb] at hadd
      exact hadd
    | false =>
      rw [hcb] at hadd
      exact hadd
  simp only [connectTxOver, hout, hplace, Option.bind_eq_bind, Option.bind_some]
  split at h
  · rename_i hcb
    cases h
    rw [if_pos hcb]
  · rename_i hcb
    rw [if_neg hcb]
    split at h
    · rename_i hcheck
      cases h
      rw [if_pos hcheck]
    · cases h

/-! ### Ids are not reused -/

/-- What the transactions connected so far leave: every coin is an output of one of
them, and their inputs are spent outputs of one of them. -/
structure Settled (done : List Transaction) (v : Coins) : Prop where
  known : ∀ o, v.find? o ≠ none → ∃ t ∈ done, t.hash = o.hash
  spent : ∀ t ∈ done, t.isCoinBase = false → ∀ i ∈ t.vin,
    v.find? i.prevout = none ∧ ∃ t' ∈ done, t'.hash = i.prevout.hash

/-- Outputs go to outpoints of their transaction, and all places are free if the
view has no coin there. -/
theorem placeCoinsFrom_spec {i : Nat} {outs : List TxOut} {v v' : Coins}
    (h : placeCoinsFrom tx nHeight i outs v = some (clean, v')) :
    (∀ o, o.hash ≠ tx.hash → v'.find? o = v.find? o) ∧
      ((∀ j, i ≤ j → v.find? ⟨tx.hash, j⟩ = none) → clean = true) := by
  induction outs generalizing i v clean with
  | nil =>
    cases h
    exact ⟨fun _ _ => rfl, fun _ => rfl⟩
  | cons out rest ih =>
    simp only [placeCoinsFrom, do_eq_some, Option.some.injEq, Prod.mk.injEq] at h
    obtain ⟨⟨clean₁, v₁⟩, h1, ⟨clean₂, v₂⟩, h2, hclean, rfl⟩ := h
    obtain ⟨hother, hfree⟩ := ih h2
    unfold placeCoin at h1
    split at h1
    · cases h1
    · split at h1
      · cases h1
        refine ⟨hother, fun hnone => ?_⟩
        rw [← hclean, hfree fun j hj => hnone j (Nat.le_of_succ_le hj)]
        rfl
      · cases h1
        refine ⟨fun o ho => ?_, fun hnone => ?_⟩
        · rw [hother o ho, OrdMap.find?_insert_ne]
          rintro rfl
          exact ho rfl
        · have hrest : ∀ j, i + 1 ≤ j → (v.insert ⟨tx.hash, i⟩
              ⟨out, nHeight, tx.isCoinBase, tx.isCoinStake⟩).find? ⟨tx.hash, j⟩ = none := by
            intro j hj
            rw [OrdMap.find?_insert_ne, hnone j (Nat.le_of_succ_le hj)]
            intro heq
            have : j = i := congrArg OutPoint.n heq
            omega
          rw [← hclean, hfree hrest, Coins.haveCoin_of_find_none (hnone i (Nat.le_refl i))]
          rfl

theorem connectTxOver_cases
    (h : connectTxOver P nHeight t tx = some (clean, t')) :
    placeTx t.coins tx nHeight = some (clean, t'.coins) ∧
      (tx.isCoinBase = true ∨ checkTxInputs P t.coins nHeight tx = true) := by
  simp only [connectTxOver, do_eq_some] at h
  obtain ⟨out, -, ⟨clean₁, coins⟩, hplace, h⟩ := h
  split at h
  · rename_i hcb
    cases h
    exact ⟨hplace, .inl hcb⟩
  · split at h
    · rename_i hcheck
      cases h
      exact ⟨hplace, .inr hcheck⟩
    · cases h

theorem haveCoin_of_connectTxOver (hcb : tx.isCoinBase = false) (h : connectTxOver P nHeight t tx = some (clean, t')) :
    ∀ i ∈ tx.vin, Coins.haveCoin t.coins i.prevout = true := by
  rcases (connectTxOver_cases h).2 with hself | hcheck
  · rw [hcb] at hself
    cases hself
  · exact haveCoin_of_haveInputs hcb (haveInputs_of_checkTxInputs hcheck)

theorem Settled.step {done : List Transaction} (hs : Settled done t.coins)
    (hfresh : ∀ t ∈ done, t.hash ≠ tx.hash) (h : connectTxOver P nHeight t tx = some (clean, t')) :
    clean = true ∧ Settled (done ++ [tx]) t'.coins := by
  obtain ⟨hplace, -⟩ := connectTxOver_cases h
  obtain ⟨hother, hfree⟩ := placeCoinsFrom_spec hplace
  have hspend : ∀ o, t.coins.find? o = none →
      (if tx.isCoinBase = true then t.coins else (Coins.spendInputs tx.vin t.coins).2).find? o = none := by
    intro o ho
    split
    · exact ho
    · rw [spendInputs_find, ho, ite_self]
  have hnew : ∀ j, t.coins.find? ⟨tx.hash, j⟩ = none := by
    intro j
    by_contra hj
    obtain ⟨t₁, ht1, hhash⟩ := hs.known _ hj
    exact hfresh t₁ ht1 hhash
  have hmore : ∀ {x}, (∃ t₁ ∈ done, t₁.hash = x) → ∃ t₁ ∈ done ++ [tx], t₁.hash = x :=
    fun ⟨t₁, ht1, hx⟩ => ⟨t₁, List.mem_append_left _ ht1, hx⟩
  refine ⟨hfree fun j _ => hspend _ (hnew j), fun o ho => ?_, fun t₁ ht1 hcb i hi => ?_⟩
  · by_cases hhash : o.hash = tx.hash
    · exact ⟨tx, List.mem_append_right _ (List.mem_singleton.mpr rfl), hhash.symm⟩
    · rw [hother o hhash] at ho
      exact hmore (hs.known o fun hnone => ho (hspend o hnone))
  · rcases List.mem_append.mp ht1 with hold | hself
    · obtain ⟨hgone, t₂, ht2, hhash⟩ := hs.spent t₁ hold hcb i hi
      refine ⟨?_, hmore ⟨t₂, ht2, hhash⟩⟩
      rw [hother _ fun heq => hfresh t₂ ht2 (hhash.trans heq)]
      exact hspend _ hgone
    · -- the inputs of the new transaction were there, and are spent now
      obtain rfl := List.mem_singleton.mp hself
      have hhave := haveCoin_of_connectTxOver hcb h i hi
      obtain ⟨t₂, ht2, hhash⟩ := hs.known i.prevout (by rw [Coins.find_of_haveCoin hhave]; simp)
      refine ⟨?_, hmore ⟨t₂, ht2, hhash⟩⟩
      rw [hother _ fun heq => hfresh t₂ ht2 (hhash.trans heq), if_neg (by simp [hcb]), spendInputs_find,
        if_pos (List.mem_map_of_mem hi)]

theorem Settled.not_again {done : List Transaction} (hs : Settled done t.coins) (hcb : tx.isCoinBase = false)
    (hvin : tx.vin ≠ []) (h : connectTxOver P nHeight t tx = some (clean, t')) : tx ∉ done := by
  intro hmem
  obtain ⟨i, rest, hcons⟩ := List.exists_cons_of_ne_nil hvin
  have hi : i ∈ tx.vin := by
    rw [hcons]
    exact .head _
  have hfound := Coins.find_of_haveCoin (haveCoin_of_connectTxOver hcb h i hi)
  rw [(hs.spent tx hmem hcb i hi).1] at hfound
  cases hfound

/-! ### Whole chains -/

variable (txs : List Transaction)

/-- Different transactions have different ids. -/
def NoCollision : Prop := ∀ t ∈ txs, ∀ t' ∈ txs, t.hash = t'.hash → t = t'

/-- The ids of the coinbases among transactions. -/
def coinbaseIds : List Nat := (txs.filter Transaction.isCoinBase).map Transaction.hash

section
variable {P : ChainParams} {done later : List Transaction}

theorem not_mem_of_coinbaseIds (hids : (coinbaseIds (done ++ tx :: later)).Nodup)
    (hcb : tx.isCoinBase = true) : tx ∉ done := by
  intro hmem
  rw [coinbaseIds, List.filter_append, List.filter_cons_of_pos hcb, List.map_append, List.map_cons,
    List.nodup_append] at hids
  have hself : tx.hash ∈ (done.filter Transaction.isCoinBase).map Transaction.hash :=
    List.mem_map_of_mem (List.mem_filter.mpr ⟨hmem, hcb⟩)
  exact hids.2.2 _ hself _ (.head _) rfl

theorem connectTxsOver_settled {txs : List Transaction}
    (hcoll : NoCollision (done ++ (txs ++ later))) (hids : (coinbaseIds (done ++ (txs ++ later))).Nodup)
    (hvin : ∀ tx ∈ txs, tx.vin ≠ []) (hs : Settled done t.coins)
    (h : connectTxsOver P nHeight txs t = some (clean, t')) :
    clean = true ∧ Settled (done ++ txs) t'.coins := by
  induction txs generalizing done t clean with
  | nil =>
    cases h
    rw [List.append_nil]
    exact ⟨rfl, hs⟩
  | cons tx rest ih =>
    simp only [connectTxsOver, do_eq_some, Option.some.injEq, Prod.mk.injEq] at h
    obtain ⟨⟨clean₁, t₁⟩, h1, ⟨clean₂, t₂⟩, h2, hclean, rfl⟩ := h
    have hnot : tx ∉ done := by
      cases hcb : tx.isCoinBase with
      | true => exact not_mem_of_coinbaseIds hids hcb
      | false => exact hs.not_again hcb (hvin tx (.head _)) h1
    have hfresh : ∀ t₀ ∈ done, t₀.hash ≠ tx.hash := by
      intro t₀ ht0 hhash
      have heq := hcoll t₀ (List.mem_append_left _ ht0) tx
        (List.mem_append_right _ (.head _)) hhash
      exact hnot (heq ▸ ht0)
    obtain ⟨hc1, hs1⟩ := hs.step hfresh h1
    have hsplit : done ++ (tx :: rest ++ later) = (done ++ [tx]) ++ (rest ++ later) := by simp
    rw [hsplit] at hcoll hids
    obtain ⟨hc2, hs2⟩ := ih hcoll hids (fun t₀ ht0 => hvin t₀ (.tail _ ht0)) hs1 h2
    rw [List.append_assoc] at hs2
    exact ⟨by rw [← hclean, hc1, hc2]; rfl, hs2⟩

theorem checkTransaction_vin {cold : Bool} (h : checkTransaction P cold tx = true) :
    tx.vin ≠ [] := by
  simp only [checkTransaction, Bool.and_eq_true, decide_eq_true_eq] at h
  exact h.1.1.1.1

theorem overStep_settled {s s' : ChainRun} {e : NodeState × CBlock}
    (hcoll : NoCollision (done ++ (e.2.vtx ++ later)))
    (hids : (coinbaseIds (done ++ (e.2.vtx ++ later))).Nodup) (hs : Settled done s.tip.coins)
    (h : overStep P s e = some s') :
    s'.clean = s.clean ∧ (Settled (done ++ e.2.vtx) s'.tip.coins ∨ Settled done s'.tip.coins) := by
  obtain ⟨N, b⟩ := e
  simp only [overStep, Option.map_eq_some_iff] at h
  obtain ⟨⟨clean, tip⟩, h, rfl⟩ := h
  unfold connectBlockOver at h
  split at h
  · cases h
  · rename_i hcheck
    rw [Bool.not_eq_true, Bool.not_eq_false'] at hcheck
    split at h
    · cases h
      exact ⟨Bool.and_true _, .inr hs⟩
    · split at h
      · cases h
      · simp only [do_eq_some] at h
        obtain ⟨⟨clean₁, t⟩, h1, h⟩ := h
        split at h
        · cases h
          obtain ⟨cold, htxs⟩ := checkBlock_transactions hcheck
          obtain ⟨hclean, hs'⟩ := connectTxsOver_settled hcoll hids
            (fun tx htx => checkTransaction_vin (htxs tx htx)) hs h1
          exact ⟨by rw [hclean, Bool.and_true], .inl hs'⟩
        · cases h

theorem NoCollision.sublist {txs txs' : List Transaction} (h : NoCollision txs) (hsub : txs'.Sublist txs) :
    NoCollision txs' :=
  fun t ht t' ht' => h t (hsub.subset ht) t' (hsub.subset ht')

theorem coinbaseIds_sublist {txs txs' : List Transaction} (hsub : txs'.Sublist txs) :
    (coinbaseIds txs').Sublist (coinbaseIds txs) :=
  (hsub.filter _).map _

theorem run_settled {s s' : ChainRun} {es : List (NodeState × CBlock)}
    (hcoll : NoCollision (done ++ chainTxs es)) (hids : (coinbaseIds (done ++ chainTxs es)).Nodup)
    (hs : Settled done s.tip.coins) (h : run (overStep P) s es = some s') : s'.clean = s.clean := by
  induction es generalizing done s with
  | nil =>
    cases h
    rfl
  | cons e rest ih =>
    rw [run_cons, Option.bind_eq_some_iff] at h
    obtain ⟨s₁, h1, h2⟩ := h
    rw [show chainTxs (e :: rest) = e.2.vtx ++ chainTxs rest from rfl] at hcoll hids
    obtain ⟨hclean, hs1 | hs1⟩ := overStep_settled hcoll hids hs h1
    · rw [← List.append_assoc] at hcoll hids
      exact (ih hcoll hids hs1 h2).trans hclean
    · have hsub : (done ++ chainTxs rest).Sublist (done ++ (e.2.vtx ++ chainTxs rest)) :=
        (List.Sublist.refl done).append (List.sublist_append_right _ _)
      exact (ih (hcoll.sublist hsub) (hids.sublist (coinbaseIds_sublist hsub)) hs1 h2).trans hclean

end

/-- **No coin is overwritten** along a chain whose coinbases have different ids. -/
theorem no_coin_overwritten {P : ChainParams} {es : List (NodeState × CBlock)} {s : ChainRun}
    (hcoll : NoCollision (chainTxs es)) (hids : (coinbaseIds (chainTxs es)).Nodup)
    (h : run (overStep P) (genesisRun P) es = some s) : s.clean = true := by
  have hempty : Settled [] (genesisRun P).tip.coins :=
    ⟨fun o ho => absurd rfl ho, fun t ht => (nomatch ht)⟩
  exact run_settled hcoll hids hempty h

/-- Blocks of a coinbase each. -/
def coinbaseBlocks : List (NodeState × CBlock) :=
  txs.mapIdx fun i tx => (syncedNode, ⟨1000 + i, [tx]⟩)

/-- Another coinbase. -/
def otherCoinbaseTx : Transaction := ⟨98, [⟨⟨0, 4294967295⟩, [1, 2]⟩], [⟨5, [0x51]⟩]⟩

instance (txs : List Transaction) : Decidable (NoCollision txs) :=
  inferInstanceAs (Decidable (∀ t ∈ txs, ∀ t' ∈ txs, t.hash = t'.hash → t = t'))

/-- Two blocks of the main network with different coinbases. -/
theorem no_coin_overwritten_two :
    ∃ s, run (overStep mainParams) (genesisRun mainParams) (coinbaseBlocks [coinbaseTx, otherCoinbaseTx]) = some s ∧
      s.clean = true := by
  obtain ⟨s, hs⟩ := Option.isSome_iff_exists.mp (show (run (overStep mainParams) (genesisRun mainParams)
    (coinbaseBlocks [coinbaseTx, otherCoinbaseTx])).isSome = true by decide +kernel)
  exact ⟨s, hs, no_coin_overwritten (by decide) (by decide) hs⟩

/-- Two blocks with the same coinbase: the second one replaces the coin of the
first. -/
theorem coinbase_overwritten :
    ¬ ∀ (P : ChainParams) (es : List (NodeState × CBlock)) (s : ChainRun), NoCollision (chainTxs es) →
      run (overStep P) (genesisRun P) es = some s → s.clean = true := by
  intro h
  have hrun : (run (overStep mainParams) (genesisRun mainParams) (coinbaseBlocks [coinbaseTx, coinbaseTx])).map
      ChainRun.clean = some false := by decide +kernel
  obtain ⟨s, hs, hclean⟩ := Option.map_eq_some_iff.mp hrun
  rw [h mainParams _ s (by decide) hs] at hclean
  cases hclean

end Rapids.Chain
