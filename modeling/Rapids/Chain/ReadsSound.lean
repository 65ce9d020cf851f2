import Rapids.Chain.Reads

/-!
# Rapids.Chain.ReadsSound

**When an arriving block is read inside**, function by function, in the order in
which `ProcessNewBlock` calls them. Each function has a condition that is exact:
it reads outside if and only if the condition fails.

Most accesses are safe for every block: a block that counts as proof of stake has
a coinstake with an input and two outputs. Left are the ones where a height, and
not the block, decides that there is a second transaction (`CheckReadable.payee`,
`AcceptReadable.entry`), where the peer's own index selects an output of an earlier
transaction (`CheckReadable.freeOutput`, `AcceptReadable.kernel`), and where the key
is taken from the script of the first input (`KeyReadable`).

Where the block passes, the model of values accepts it too (`checkBlock_refines`).
-/

namespace Rapids.Chain

open Rapids.Lib

variable {s : Script} {tx : Transaction} {i : TxIn}

/-! ### Scripts -/

theorem exists_getElem? {α : Type} {l : List α} {i : Nat} (h : i < l.length) : ∃ x, l[i]? = some x :=
  ⟨_, List.getElem?_eq_getElem h⟩

theorem bind_getElem?_eq_none {α β : Type} {l : List α} {i : Nat} {f : α → β} :
    ((l[i]?).bind fun x => some (f x)) = none ↔ l.length ≤ i := by
  rw [← List.getElem?_eq_none_iff]
  cases l[i]? <;> simp

theorem bytesFrom_eq_none {k : Nat} : bytesFrom s k = none ↔ s.length < k := by
  simp [bytesFrom]

theorem pubKeyFrom_eq_none {k : Nat} : pubKeyFrom s k = none ↔ s.length < k := by
  unfold pubKeyFrom
  split
  · rename_i hk
    simp [hk]
  · rename_i hk
    simp only [Option.bind_eq_bind, Option.pure_def, Option.bind_eq_none_iff, reduceCtorEq, imp_false]
    rw [← Option.eq_none_iff_forall_ne_some, List.getElem?_eq_none_iff]
    omega

theorem scriptSigToSerializedSpend_eq_none :
    scriptSigToSerializedSpend s = none ↔
      ¬ ∃ len, s[1]? = some len ∧ (len.toNat + 2) % 256 ≤ s.length := by
  unfold scriptSigToSerializedSpend
  cases h : s[1]? with
  | none => simp
  | some len => simp [bytesFrom_eq_none]

theorem governanceScript_isSome (h : 6 ≤ s.length) :
    ∃ script, governanceScript s = some script := by
  obtain ⟨len, hlen⟩ := exists_getElem? (show 5 < s.length by omega)
  exact ⟨_, by rw [governanceScript, hlen]; rfl⟩

variable {masterKey : Script}

theorem governanceKind_ne_none (h : 5 ≤ s.length) :
    governanceKind masterKey s ≠ none := by
  obtain ⟨kind, hkind⟩ := exists_getElem? (show 4 < s.length by omega)
  unfold governanceKind
  rw [hkind, Option.bind_eq_bind, Option.bind_some]
  split
  · rename_i hcost
    obtain ⟨type, htype⟩ := exists_getElem? (show 5 < s.length by omega)
    simp [htype]
  split
  · rename_i hfee
    obtain ⟨script, hscript⟩ := governanceScript_isSome hfee.2
    simp [hscript]
  split
  · rename_i hdev
    obtain ⟨script, hscript⟩ := governanceScript_isSome hdev.2
    simp [hscript]
  · exact Option.some_ne_none _

theorem governanceAction_eq_none : governanceAction masterKey s = none ↔ s = [] := by
  cases s with
  | nil => exact ⟨fun _ => rfl, fun _ => rfl⟩
  | cons op rest =>
    refine ⟨fun h => ?_, fun h => nomatch h⟩
    unfold governanceAction at h
    rw [List.getElem?_cons_zero, Option.bind_eq_bind, Option.bind_some] at h
    split at h
    · rename_i hop
      obtain ⟨marker, hmarker⟩ := exists_getElem? (show 2 < (op :: rest).length by omega)
      obtain ⟨action, haction⟩ := exists_getElem? (show 3 < (op :: rest).length by omega)
      rw [hmarker, haction] at h
      simp only [Option.bind_some] at h
      split at h
      · split at h
        · exact absurd h (governanceKind_ne_none hop.2)
        · cases h
      · cases h
    · cases h

theorem governanceActions_eq_none {outs : List TxOut} :
    governanceActions masterKey outs = none ↔ ∃ o ∈ outs, o.scriptPubKey = [] := by
  unfold governanceActions
  induction outs with
  | nil => simp
  | cons o rest ih =>
    rw [List.mapM_cons]
    cases ho : governanceAction masterKey o.scriptPubKey with
    | none =>
      have hnil := governanceAction_eq_none.mp ho
      simp [hnil]
    | some action =>
      have hne : o.scriptPubKey ≠ [] := fun h => by
        rw [governanceAction_eq_none.mpr h] at ho
        cases ho
      simp only [List.mem_cons, exists_eq_or_imp, hne, false_or]
      rw [← ih]
      cases hrest : rest.mapM fun o => governanceAction masterKey o.scriptPubKey with
      | none => simp
      | some actions => simp

/-- Every mint that is read is long enough: those up to the first one that is no
coin. -/
def MintsReadable (isCoin : TxOut → List UInt8 → Bool) (outs : List TxOut) : Prop :=
  ∀ before o after, outs = before ++ o :: after →
    (∀ m ∈ before, startsWithOpcode opZerocoinMint m.scriptPubKey = true →
      isCoin m (m.scriptPubKey.drop 6) = true) →
    startsWithOpcode opZerocoinMint o.scriptPubKey = true → 6 ≤ o.scriptPubKey.length

theorem mintsReadable_cons {isCoin : TxOut → List UInt8 → Bool} {o : TxOut} {rest : List TxOut} :
    MintsReadable isCoin (o :: rest) ↔
      (startsWithOpcode opZerocoinMint o.scriptPubKey = true → 6 ≤ o.scriptPubKey.length) ∧
        ((startsWithOpcode opZerocoinMint o.scriptPubKey = true →
          isCoin o (o.scriptPubKey.drop 6) = true) → MintsReadable isCoin rest) := by
  constructor
  · intro h
    refine ⟨fun hmint => h [] o rest rfl (by simp) hmint, fun hcoin before m after hsplit hbefore => ?_⟩
    refine h (o :: before) m after (by rw [hsplit]; rfl) fun x hx => ?_
    rcases List.mem_cons.mp hx with rfl | hx
    · exact hcoin
    · exact hbefore x hx
  · rintro ⟨hfirst, hrest⟩ before m after hsplit hbefore
    cases before with
    | nil =>
      obtain ⟨rfl, rfl⟩ := List.cons.inj hsplit
      exact hfirst
    | cons x before =>
      obtain ⟨rfl, htail⟩ := List.cons.inj hsplit
      exact hrest (hbefore o (.head _)) before m after htail
        fun y hy => hbefore y (.tail _ hy)

theorem readMints_ne_none {isCoin : TxOut → List UInt8 → Bool} {outs : List TxOut} :
    PeerNode.readMints isCoin outs ≠ none ↔ MintsReadable isCoin outs := by
  induction outs with
  | nil =>
    refine ⟨fun _ before o after hsplit => ?_, fun _ h => nomatch h⟩
    cases before <;> cases hsplit
  | cons o rest ih =>
    rw [mintsReadable_cons, ← ih, PeerNode.readMints]
    by_cases hmint : startsWithOpcode opZerocoinMint o.scriptPubKey = true
    · by_cases hlen : 6 ≤ o.scriptPubKey.length
      · have hcoin : txOutToPublicCoin o = some (o.scriptPubKey.drop 6) := if_pos hlen
        rw [if_pos hmint, hcoin, Option.bind_eq_bind, Option.bind_some]
        split
        · rename_i hc
          simp [hlen, hc]
        · rename_i hc
          simp [hlen, hc, hmint]
      · have hcoin : txOutToPublicCoin o = none := if_neg hlen
        rw [if_pos hmint, hcoin]
        simp [hlen, hmint]
    · rw [if_neg hmint]
      simp [hmint]

/-! ### `CheckBlock` -/

theorem coinstake_of_isProofOfStake {b : CBlock} (h : b.isProofOfStake = true) :
    ∃ tx i, b.vtx[1]? = some tx ∧ tx.vin[0]? = some i ∧ 2 ≤ tx.vout.length := by
  unfold CBlock.isProofOfStake at h
  cases htx : b.vtx[1]? with
  | none =>
    rw [htx] at h
    cases h
  | some tx =>
    rw [htx] at h
    refine ⟨tx, ?_⟩
    have hstake : tx.isCoinStake = true := h
    unfold Transaction.isCoinStake at hstake
    split at hstake
    · rename_i i is o o' os hvin hvout
      exact ⟨i, rfl, by rw [hvin]; rfl, by rw [hvout]; simp⟩
    · cases hstake

theorem forall_coinstake {b : CBlock} {p : Transaction → TxIn → Prop}
    (htx : b.vtx[1]? = some tx) (hi : tx.vin[0]? = some i) :
    (∀ tx i, b.vtx[1]? = some tx → tx.vin[0]? = some i → p tx i) ↔ p tx i := by
  refine ⟨fun h => h tx i htx hi, fun h tx' i' htx' hi' => ?_⟩
  obtain rfl := Option.some.inj (htx.symm.trans htx')
  obtain rfl := Option.some.inj (hi.symm.trans hi')
  exact h

namespace PeerNode

variable {N : PeerNode} {b : WireBlock}

theorem checkFirst_ne_none (b : WireBlock) : checkFirst b ≠ none := by
  unfold checkFirst
  split
  · exact Option.some_ne_none _
  rename_i hne
  obtain ⟨first, hfirst⟩ := exists_getElem? (List.length_pos_iff.mpr hne)
  rw [hfirst, Option.bind_eq_bind, Option.bind_some]
  split
  · exact Option.some_ne_none _
  split
  · exact Option.some_ne_none _
  rename_i hpos
  split
  · exact Option.some_ne_none _
  rename_i hlen
  obtain ⟨o, ho⟩ := exists_getElem? (l := first.vout) (i := 0) (by omega)
  obtain ⟨tx, -, htx, -⟩ := coinstake_of_isProofOfStake (by simpa using hpos)
  rw [ho, htx]
  simp only [Option.bind_eq_bind, Option.bind_some]
  split
  · exact Option.some_ne_none _
  · exact Option.some_ne_none _

/-- Does `CheckColdStakeFreeOutput` look up the value of the stake? -/
def looksUpStake (N : PeerNode) (tx : Transaction) (nHeight : Nat) : Bool :=
  tx.hasP2CSOutputs && 4 ≤ tx.vout.length &&
    (tx.vout[tx.vout.length - 1]?).map TxOut.scriptPubKey ≠
      (tx.vout[tx.vout.length - 2]?).map TxOut.scriptPubKey &&
    (tx.vout[tx.vout.length - 1]?).map TxOut.nValue ≠ some (getBlockMasternodeSubsidy nHeight) &&
    !N.params.regTest && !N.payments.synced

theorem checkStakeKept_eq_none (nHeight : Nat) (hi : tx.vin[0]? = some i) :
    N.checkStakeKept tx nHeight = none ↔
      ∃ txPrev hash, N.getTransaction i.prevout.hash = some (txPrev, hash) ∧ txPrev.vout.length ≤ i.prevout.n := by
  unfold checkStakeKept
  rw [hi, Option.bind_eq_bind, Option.bind_some]
  cases hprev : N.getTransaction i.prevout.hash with
  | none => simp
  | some r =>
    obtain ⟨txPrev, hash⟩ := r
    simp only [Option.bind_eq_bind, bind_getElem?_eq_none]
    simp

variable {nHeight : Nat} {a : Arrival}

theorem checkColdStakeFreeOutput_eq_none
    (hi : tx.vin[0]? = some i) :
    N.checkColdStakeFreeOutput tx nHeight = none ↔ N.looksUpStake tx nHeight = true ∧
      ∃ txPrev hash, N.getTransaction i.prevout.hash = some (txPrev, hash) ∧ txPrev.vout.length ≤ i.prevout.n := by
  rw [← checkStakeKept_eq_none nHeight hi]
  unfold checkColdStakeFreeOutput looksUpStake
  by_cases hp : tx.hasP2CSOutputs = true
  · have hpos : 0 < tx.vout.length := by
      unfold Transaction.hasP2CSOutputs at hp
      obtain ⟨o, ho, -⟩ := List.any_eq_true.mp hp
      exact List.length_pos_of_mem ho
    obtain ⟨lastOut, hlast⟩ := exists_getElem? (l := tx.vout) (i := tx.vout.length - 1) (by omega)
    by_cases hlen : tx.vout.length < 4
    · simp [hp, hlast, hlen, show ¬ 4 ≤ tx.vout.length by omega]
    · obtain ⟨before, hbefore⟩ := exists_getElem? (l := tx.vout) (i := tx.vout.length - 2) (by omega)
      simp only [hp, hlast, hlen, hbefore, show 4 ≤ tx.vout.length by omega]
      by_cases hscript : lastOut.scriptPubKey = before.scriptPubKey
      · simp [hscript]
      · by_cases hvalue : lastOut.nValue = getBlockMasternodeSubsidy nHeight
        · simp [hscript, hvalue]
        · cases N.params.regTest <;> cases N.payments.synced <;> simp [hscript, hvalue]
  · simp [hp]

/-- Does `CheckBlock` come to the payments? -/
def ReachesPayments (N : PeerNode) (b : WireBlock) : Prop :=
  N.checkContents b = some true ∧ N.checkHeight b ≠ 0 ∧ N.initialBlockDownload = false

/-- What makes the accesses of `CheckBlock` safe. -/
structure CheckReadable (N : PeerNode) (b : WireBlock) : Prop where
  /-- Where the second transaction pays, there is one. -/
  payee : N.ReachesPayments b → N.payments.synced = true →
    networkUpgradeActive N.params.upgradePos (N.checkHeight b) = true → 2 ≤ b.vtx.length
  /-- Where the value of the stake is looked up, the output exists. -/
  freeOutput : N.ReachesPayments b → b.isProofOfStake = true → ∀ tx i txPrev hash,
    b.vtx[1]? = some tx → tx.vin[0]? = some i → N.looksUpStake tx (N.checkHeight b) = true →
    N.getTransaction i.prevout.hash = some (txPrev, hash) → i.prevout.n < txPrev.vout.length

theorem checkContents_ne_none (N : PeerNode) (b : WireBlock) : N.checkContents b ≠ none := by
  simp [checkContents, checkFirst_ne_none]

theorem vtx_ne_nil_of_checkContents (h : N.checkContents b = some true) : b.vtx ≠ [] := by
  simp only [checkContents, andThen_eq_true, Option.some.injEq, Bool.and_eq_true, decide_eq_true_eq] at h
  exact h.2.1.1.1

/-- The payee is read outside the block if the second transaction pays and there
is one only. -/
theorem isBlockPayeeValid_eq_none (nHeight : Nat) (hne : b.vtx ≠ []) :
    N.payments.isBlockPayeeValid N.params nHeight b.toCBlock = none ↔
      N.payments.synced = true ∧ networkUpgradeActive N.params.upgradePos nHeight = true ∧ b.vtx.length < 2 := by
  unfold Payments.isBlockPayeeValid Payments.payingTx
  cases N.payments.synced with
  | false => simp
  | true =>
    cases networkUpgradeActive N.params.upgradePos nHeight with
    | false => simp [hne]
    | true => simp [Nat.lt_add_one_iff]

theorem checkPayments_eq_none (h : N.checkContents b = some true) :
    N.checkPayments b = none ↔ ¬ N.CheckReadable b := by
  have hreach : N.ReachesPayments b ↔ ¬ (N.checkHeight b = 0 ∨ N.initialBlockDownload = true) := by
    simp [ReachesPayments, h]
  have hnone := isBlockPayeeValid_eq_none (N := N) (N.checkHeight b)
    (vtx_ne_nil_of_checkContents h)
  by_cases hskip : N.checkHeight b = 0 ∨ N.initialBlockDownload = true
  · have hpay : N.checkPayments b = some true := by simp [checkPayments, hskip]
    have hread : N.CheckReadable b :=
      ⟨fun hr => absurd hskip (hreach.mp hr), fun hr => absurd hskip (hreach.mp hr)⟩
    simp [hpay, hread]
  · have hr := hreach.mpr hskip
    have hpay : N.checkPayments b =
        andThen (if b.isProofOfStake then do
            let tx ← b.vtx[1]?
            N.checkColdStakeFreeOutput tx (N.checkHeight b)
          else some true)
          ((N.payments.isBlockPayeeValid N.params (N.checkHeight b) b.toCBlock).map Prod.fst) := by
      unfold checkPayments
      rw [if_neg (by simpa using hskip)]
    rw [hpay, andThen_eq_none, Option.map_eq_none_iff, hnone]
    by_cases hpos : b.isProofOfStake = true
    · obtain ⟨tx, i, htx, hi, -⟩ := coinstake_of_isProofOfStake hpos
      have hlen : 2 ≤ b.vtx.length := by
        by_contra hlt
        rw [List.getElem?_eq_none_iff.mpr (by omega)] at htx
        cases htx
      rw [if_pos hpos, htx, Option.bind_eq_bind, Option.bind_some, checkColdStakeFreeOutput_eq_none hi]
      constructor
      · rintro (⟨hlook, txPrev, hash, hprev, hout⟩ | ⟨-, -, -, hlt⟩) hread
        · exact absurd (hread.freeOutput hr hpos tx i txPrev hash htx hi hlook hprev) (Nat.not_lt.mpr hout)
        · omega
      · intro hread
        by_contra hall
        refine hread ⟨fun _ _ _ => hlen, fun _ _ tx' i' txPrev hash htx' hi' hlook hprev => ?_⟩
        obtain rfl := Option.some.inj (htx.symm.trans htx')
        obtain rfl := Option.some.inj (hi.symm.trans hi')
        by_contra hout
        exact hall (.inl ⟨hlook, txPrev, hash, hprev, Nat.not_lt.mp hout⟩)
    · rw [if_neg hpos]
      constructor
      · rintro (habs | ⟨-, hsync, hupgrade, hlt⟩) hread
        · cases habs
        · exact absurd (hread.payee hr hsync hupgrade) (Nat.not_le.mpr hlt)
      · intro hread
        by_contra hall
        refine hread ⟨fun _ hsync hupgrade => ?_, fun _ hp => absurd hp hpos⟩
        by_contra hlt
        exact hall (.inr ⟨rfl, hsync, hupgrade, Nat.not_le.mp hlt⟩)

theorem checkBlock_ne_none : N.checkBlock b ≠ none ↔ N.CheckReadable b := by
  unfold checkBlock
  cases hc : N.checkContents b with
  | none => exact absurd hc (checkContents_ne_none N b)
  | some ok =>
    cases ok with
    | false =>
      have hread : N.CheckReadable b := by
        refine ⟨fun hr => ?_, fun hr => ?_⟩
        · exact absurd (hr.1.symm.trans hc) (by simp)
        · exact absurd (hr.1.symm.trans hc) (by simp)
      simp [hread]
    | true =>
      have hpay := checkPayments_eq_none hc
      rw [andThen_true, Ne, andThen_eq_none, hpay]
      simp

/-! ### `CheckBlock` and the model of values -/

theorem checkStakeKept_refines {ok : Bool}
    (h : N.checkStakeKept tx nHeight = some ok) : Chain.checkStakeKept N.nodeState tx nHeight = ok := by
  unfold checkStakeKept at h
  unfold Chain.checkStakeKept
  cases hvin : tx.vin with
  | nil => simp [hvin] at h
  | cons i is =>
    rw [hvin, List.getElem?_cons_zero, Option.bind_eq_bind, Option.bind_some] at h
    dsimp only [nodeState, Payments.nodeState]
    cases hprev : N.getTransaction i.prevout.hash with
    | none =>
      rw [hprev] at h
      exact Option.some.inj h
    | some r =>
      obtain ⟨txPrev, hash⟩ := r
      rw [hprev] at h
      dsimp only [Option.map_some] at h ⊢
      cases hout : txPrev.vout[i.prevout.n]? with
      | none =>
        rw [hout] at h
        cases h
      | some o =>
        rw [hout, Option.bind_eq_bind, Option.bind_some] at h
        exact Option.some.inj h

theorem checkColdStakeFreeOutput_refines {ok : Bool}
    (h : N.checkColdStakeFreeOutput tx nHeight = some ok) :
    Chain.checkColdStakeFreeOutput N.params N.nodeState tx nHeight = ok := by
  unfold checkColdStakeFreeOutput at h
  unfold Chain.checkColdStakeFreeOutput
  split at h
  · rename_i hp
    rw [if_pos hp]
    exact Option.some.inj h
  rename_i hp
  rw [if_neg hp]
  obtain ⟨lastOut, hlast, h⟩ := Option.bind_eq_some_iff.mp h
  have hlast' : tx.vout.reverse[0]? = some lastOut := by
    rw [List.getElem?_reverse (by
      obtain ⟨hlt, -⟩ := List.getElem?_eq_some_iff.mp hlast
      omega)]
    exact hlast
  cases hrev : tx.vout.reverse with
  | nil => simp [hrev] at hlast'
  | cons x rest =>
    rw [hrev, List.getElem?_cons_zero] at hlast'
    obtain rfl := Option.some.inj hlast'
    cases rest with
    | nil =>
      have hlen : tx.vout.length = 1 := by rw [← List.length_reverse, hrev]; rfl
      rw [if_pos (by omega)] at h
      exact Option.some.inj h
    | cons y rest =>
      have hbefore : tx.vout[tx.vout.length - 2]? = some y := by
        have hy : tx.vout.reverse[1]? = some y := by rw [hrev]; rfl
        rw [List.getElem?_reverse (by
          rw [← List.length_reverse, hrev]
          simp)] at hy
        exact hy
      dsimp only
      by_cases hlen : tx.vout.length < 4
      · rw [if_pos hlen] at h
        rw [if_neg (by simp; omega)]
        exact Option.some.inj h
      · rw [if_neg hlen, hbefore, Option.bind_eq_bind, Option.bind_some] at h
        by_cases hscript : x.scriptPubKey = y.scriptPubKey
        · rw [if_pos hscript] at h
          rw [if_neg (by simp [hscript])]
          exact Option.some.inj h
        · rw [if_neg hscript] at h
          rw [if_pos (by simp [hscript]; omega)]
          split at h
          · rename_i hvalue
            rw [if_pos hvalue]
            exact Option.some.inj h
          rename_i hvalue
          rw [if_neg hvalue]
          split at h
          · rename_i hreg
            rw [if_pos hreg]
            exact Option.some.inj h
          rename_i hreg
          rw [if_neg hreg]
          split at h
          · rename_i hsync
            rw [if_pos (show (!N.nodeState.synced) = true from hsync)]
            exact checkStakeKept_refines h
          · rename_i hsync
            rw [if_neg (show ¬ (!N.nodeState.synced) = true from hsync), ← Option.some.inj h]
            show (if N.payments.isBudgetPaymentBlock nHeight = true then N.payments.superblocks else false) = _
            cases N.payments.isBudgetPaymentBlock nHeight <;> rfl

theorem checkFirst_refines (h : checkFirst b = some true) :
    ∃ first rest, b.vtx = first :: rest ∧ first.isCoinBase = true ∧ (∀ tx ∈ rest, tx.isCoinBase = false) ∧
      (b.isProofOfStake = true → (∃ o, first.vout = [o] ∧ o.isEmpty = true) ∧
        ∀ tx ∈ rest.tail, tx.isCoinStake = false) := by
  unfold checkFirst at h
  cases hvtx : b.vtx with
  | nil => simp [hvtx] at h
  | cons first rest =>
    rw [hvtx, if_neg (by simp), List.getElem?_cons_zero, Option.bind_eq_bind, Option.bind_some] at h
    refine ⟨first, rest, rfl, ?_⟩
    split at h
    · cases h
    rename_i hbase
    simp only [List.drop_succ_cons, List.drop_zero, Bool.or_eq_true, Bool.not_eq_true', List.any_eq_true,
      not_or, Bool.not_eq_false, not_exists, not_and, Bool.not_eq_true] at hbase
    refine ⟨hbase.1, hbase.2, fun hpos => ?_⟩
    rw [if_neg (by simp [hpos])] at h
    split at h
    · cases h
    rename_i hlen
    obtain ⟨o, ho⟩ := List.length_eq_one_iff.mp (not_not.mp hlen)
    rw [ho, List.getElem?_cons_zero] at h
    simp only [Option.bind_eq_bind, Option.bind_some] at h
    split at h
    · cases h
    rename_i hempty
    obtain ⟨second, -, h⟩ := Option.bind_eq_some_iff.mp h
    simp only [Option.some.injEq, Bool.and_eq_true, Bool.not_eq_true', List.any_eq_false] at h
    refine ⟨⟨o, ho, by simpa using hempty⟩, fun tx htx => ?_⟩
    have hno := h.2 tx (by simpa using htx)
    simpa using hno

theorem checkBlock_refines (h : N.checkBlock b = some true) :
    Chain.checkBlock N.params N.nodeState (N.checkHeight b) b.toCBlock = true := by
  simp only [checkBlock, checkContents, andThen_eq_true] at h
  obtain ⟨⟨-, -, hfirst, -⟩, hpay, htxs⟩ := h
  obtain ⟨first, rest, hvtx, hbase, hothers, hstake⟩ := checkFirst_refines hfirst
  have htxs' : N.checkTransactions b = true := by
    rw [Option.some.injEq, Bool.and_eq_true] at htxs
    exact htxs.1
  unfold Chain.checkBlock
  rw [Bool.and_eq_true, Bool.and_eq_true]
  refine ⟨⟨?_, ?_⟩, htxs'⟩
  -- One coinbase, and in a staked block its only output is empty.
  · rw [show b.toCBlock.vtx = first :: rest from hvtx]
    cases hpos : b.isProofOfStake with
    | false => simpa [hbase, hpos] using hothers
    | true =>
      obtain ⟨⟨o, ho, hempty⟩, htail⟩ := hstake hpos
      simp only [hbase, ho, hempty, Bool.true_and, Bool.not_true, Bool.false_or, Bool.and_eq_true,
        List.all_eq_true, Bool.not_eq_true']
      exact ⟨hothers, htail⟩
  -- The free output of a cold stake, where the payments are looked at.
  · unfold checkPayments at hpay
    dsimp only at hpay
    split at hpay
    · rename_i hskip
      have hskip' : (decide (N.checkHeight b = 0) || N.nodeState.initialBlockDownload) = true := hskip
      rw [hskip']
      rfl
    · rw [andThen_eq_true] at hpay
      cases hpos : b.isProofOfStake with
      | false => simp
      | true =>
        rw [if_pos hpos] at hpay
        obtain ⟨tx, htx, hout⟩ := Option.bind_eq_some_iff.mp hpay.1
        rw [show b.toCBlock.vtx[1]? = some tx from htx]
        simp [checkColdStakeFreeOutput_refines hout]

/-! ### `CheckBlockSignature` -/

/-- What makes the accesses of `CheckBlockSignature` to the script of the first input
safe: there is a signature, perhaps a flag, and then the end or a key. -/
def OutputKeyReadable (N : PeerNode) (type : Option StakeType) (scriptSig : Script) : Prop :=
  match type with
  | some (.pubKeyHash _) =>
    networkUpgradeActive N.upgradeV5 N.active.length = true → scriptSig.length ≠ 73 →
      ∃ sig, scriptSig[0]? = some sig ∧ sig.toNat + 2 ≤ scriptSig.length
  | some (.coldStake _) =>
    ∃ sig flag, scriptSig[0]? = some sig ∧ scriptSig[1 + sig.toNat]? = some flag ∧
      sig.toNat + flag.toNat + 3 ≤ scriptSig.length
  | _ => True

theorem keyBehindSignature_eq_none :
    ((s[0]?).bind fun sig => (pubKeyFrom s (1 + sig.toNat + 1)).map some) = none ↔
      ¬ ∃ sig, s[0]? = some sig ∧ sig.toNat + 2 ≤ s.length := by
  cases h : s[0]? with
  | none => simp
  | some sig =>
    simp only [Option.bind_some, Option.map_eq_none_iff, pubKeyFrom_eq_none, Option.some.injEq,
      exists_eq_left']
    omega

theorem keyBehindFlag_eq_none :
    ((s[0]?).bind fun sig => (s[1 + sig.toNat]?).bind fun flag =>
        (pubKeyFrom s (1 + sig.toNat + (1 + flag.toNat) + 1)).map some) = none ↔
      ¬ ∃ sig flag, s[0]? = some sig ∧ s[1 + sig.toNat]? = some flag ∧
        sig.toNat + flag.toNat + 3 ≤ s.length := by
  cases h : s[0]? with
  | none => simp
  | some sig =>
    cases h' : s[1 + sig.toNat]? with
    | none => simp [h']
    | some flag =>
      simp only [Option.bind_some, h', Option.map_eq_none_iff, pubKeyFrom_eq_none, Option.some.injEq,
        exists_eq_left', exists_and_left]
      omega

theorem outputKey_ne_none {type : Option StakeType} {scriptSig : Script} :
    N.outputKey type scriptSig ≠ none ↔ N.OutputKeyReadable type scriptSig := by
  cases type with
  | none => simp [outputKey, OutputKeyReadable]
  | some type =>
    cases type with
    | pubKey key => simp [outputKey, OutputKeyReadable]
    | pubKeyHash key =>
      rw [outputKey, OutputKeyReadable]
      cases networkUpgradeActive N.upgradeV5 N.active.length with
      | false => simp
      | true =>
        by_cases hlen : scriptSig.length = 73
        · simp [hlen]
        · rw [if_neg (by simp), if_neg hlen, Ne, Option.bind_eq_bind, keyBehindSignature_eq_none, not_not]
          simp [hlen]
    | coldStake key =>
      rw [outputKey, OutputKeyReadable, Ne]
      exact keyBehindFlag_eq_none.not.trans not_not

/-- What makes the accesses of `CheckBlockSignature` to a coinstake safe. -/
structure KeyReadable (N : PeerNode) (tx : Transaction) (i : TxIn) : Prop where
  /-- The length byte of a zerocoin spend, and the data behind it. -/
  spend : i.isZerocoinSpend = true →
    ∃ len, i.scriptSig[1]? = some len ∧ (len.toNat + 2) % 256 ≤ i.scriptSig.length
  output : i.isZerocoinSpend = false → ∀ o, tx.vout[2]? = some o →
    N.OutputKeyReadable (solver o.scriptPubKey) i.scriptSig

theorem stakeKey_ne_none : N.stakeKey tx i ≠ none ↔ N.KeyReadable tx i := by
  unfold stakeKey
  cases hz : i.isZerocoinSpend with
  | true =>
    rw [if_pos rfl, Ne, Option.map_eq_none_iff, scriptSigToSerializedSpend_eq_none, not_not]
    exact ⟨fun h => ⟨fun _ => h, fun hc => nomatch hz.symm.trans hc⟩, fun h => h.spend hz⟩
  | false =>
    rw [if_neg (by simp)]
    have hspend : ∀ {p : Prop}, i.isZerocoinSpend = true → p := fun hc => nomatch hz.symm.trans hc
    by_cases hlen : tx.vout.length < 3
    · have hout : tx.vout[2]? = none := List.getElem?_eq_none_iff.mpr (by omega)
      rw [if_pos hlen]
      exact ⟨fun _ => ⟨hspend, fun _ o ho => nomatch hout.symm.trans ho⟩, fun _ => Option.some_ne_none _⟩
    · obtain ⟨o, ho⟩ := exists_getElem? (l := tx.vout) (i := 2) (by omega)
      rw [if_neg hlen, ho, Option.bind_eq_bind, Option.bind_some, outputKey_ne_none]
      refine ⟨fun h => ⟨hspend, fun _ o' ho' => ?_⟩, fun h => h.output hz o ho⟩
      obtain rfl := Option.some.inj (ho.symm.trans ho')
      exact h

/-- Where `CheckBlockSignature` reads inside the block. -/
def SignatureReadable (N : PeerNode) (b : WireBlock) : Prop :=
  b.isProofOfStake = true → b.vchBlockSig ≠ [] → ∀ tx i, b.vtx[1]? = some tx → tx.vin[0]? = some i →
    N.KeyReadable tx i

theorem checkBlockSignature_ne_none : N.checkBlockSignature b ≠ none ↔ N.SignatureReadable b := by
  unfold checkBlockSignature SignatureReadable
  by_cases hpos : b.isProofOfStake = true
  · obtain ⟨tx, i, htx, hi, -⟩ := coinstake_of_isProofOfStake hpos
    by_cases hsig : b.vchBlockSig = []
    · simp [hpos, hsig]
    · rw [forall_coinstake htx hi, ← stakeKey_ne_none]
      simp only [hpos, hsig, htx, hi, Option.bind_eq_bind, Option.bind_some, List.isEmpty_iff, Bool.not_true,
        Bool.false_eq_true, if_false, ne_eq, not_false_eq_true, forall_const]
      cases N.stakeKey tx i <;> simp
  · simp [hpos]

/-! ### `AcceptBlock` -/

/-- Does `AcceptBlock` come to the stake over the branch? -/
def ReachesStake (N : PeerNode) (b : WireBlock) (c : Branch) : Prop :=
  prevBranch N.work N.store b = some c ∧
    (b.hash = N.work.hashGenesisBlock ∨ checkWork N.work c b.nBits b.isProofOfStake = true)

/-- What makes the accesses of `AcceptBlock` safe, for a block that `CheckBlock`
accepts. -/
structure AcceptReadable (N : PeerNode) (b : WireBlock) : Prop where
  /-- The output staked exists. -/
  kernel : ∀ c, N.ReachesStake b c → b.isProofOfStake = true → ∀ tx i,
    b.vtx[1]? = some tx → tx.vin[0]? = some i → i.isZerocoinSpend = false → ∀ txFrom hash,
    N.getTransaction i.prevout.hash = some (txFrom, hash) → N.isInActiveChain hash = true →
    i.prevout.n < txFrom.vout.length
  /-- Where the stake modifier is taken from the second transaction, there is one. -/
  entry : ∀ c, N.ReachesStake b c → N.store.index.find? b.hash = none →
    (N.checks.header b = true ∨ b.hash = N.work.hashGenesisBlock) → 915000 < c.length → 2 ≤ b.vtx.length

theorem checkProofOfStake_eq_none (hpos : b.isProofOfStake = true)
    (htx : b.vtx[1]? = some tx) (hi : tx.vin[0]? = some i) :
    N.checkProofOfStake b = none ↔ i.isZerocoinSpend = false ∧ ∃ txFrom hash,
      N.getTransaction i.prevout.hash = some (txFrom, hash) ∧ N.isInActiveChain hash = true ∧
        txFrom.vout.length ≤ i.prevout.n := by
  unfold checkProofOfStake
  rw [hpos, if_neg (by simp), htx, Option.bind_eq_bind, Option.bind_some, hi]
  simp only [Option.bind_eq_bind, Option.bind_some]
  cases i.isZerocoinSpend with
  | true => simp
  | false =>
    cases hfrom : N.getTransaction i.prevout.hash with
    | none => simp
    | some r =>
      obtain ⟨txFrom, hash⟩ := r
      cases hin : N.isInActiveChain hash with
      | false => simp [hin]
      | true =>
        simp only [hin, Bool.not_true, Bool.false_eq_true, if_false, bind_getElem?_eq_none]
        simp [hin]

theorem checkStake_of_reaches {c : Branch} (h : N.ReachesStake b c) :
    N.checkStake b = if b.isProofOfStake then N.checkProofOfStake b else some true := by
  obtain ⟨hprev, hwork⟩ := h
  unfold checkStake
  rw [hprev]
  dsimp only
  rw [if_neg]
  rcases hwork with hwork | hwork
  · simp [hwork]
  · simp [hwork]

theorem checkStake_of_not_reaches (h : ∀ c, ¬ N.ReachesStake b c) : N.checkStake b = some false := by
  unfold checkStake
  cases hprev : prevBranch N.work N.store b with
  | none => rfl
  | some c =>
    have hwork := not_or.mp (not_and.mp (h c) hprev)
    dsimp only
    rw [if_pos]
    simp [hwork]

theorem storeBlock_ne_none {s : BlockStore} {e : BlockEntry} (hsize : a.block.nSize ≤ 200000) :
    storeBlock s a e ≠ none := by
  have hplace : findBlockPos s (a.block.nSize + 8) a.dbp ≠ none := by
    unfold findBlockPos
    split
    · exact Option.some_ne_none _
    · rw [if_neg (by rw [maxBlockFileSize]; omega)]
      exact Option.some_ne_none _
  unfold storeBlock
  split
  · rename_i hnone
    exact absurd hnone hplace
  · split
    · exact Option.some_ne_none _
    · split
      · exact Option.some_ne_none _
      · exact Option.some_ne_none _

theorem acceptBlockHeader_eq_none {W : WorkParams} {s : BlockStore} {c : Branch} :
    acceptBlockHeader W s c a = none ↔ s.index.find? a.block.hash = none ∧
      (a.header = true ∨ a.block.hash = W.hashGenesisBlock) ∧ 915000 < c.length ∧
      ((a.block.vtx[1]?).bind fun tx => tx.vin[0]?) = none := by
  unfold acceptBlockHeader
  cases hknown : s.index.find? a.block.hash with
  | some e => simp
  | none =>
    dsimp only
    split
    · rename_i hheader
      rw [Option.map_eq_none_iff, addToBlockIndex]
      simp only [Bool.or_eq_true, decide_eq_true_eq] at hheader
      simp [hheader]
    · rename_i hheader
      simp only [Bool.or_eq_true, decide_eq_true_eq] at hheader
      simp [hheader]

/-- A block that is small enough is read outside only where its entry is made. -/
theorem acceptBlock_eq_none {W : WorkParams} {s : BlockStore} (hsize : a.block.nSize ≤ 200000) :
    Chain.acceptBlock W s a = none ↔ ∃ c, prevBranch W s a.block = some c ∧
      (a.block.hash = W.hashGenesisBlock ∨ checkWork W c a.block.nBits a.block.isProofOfStake = true) ∧
      (a.block.isProofOfStake = true → a.proofOfStake = true) ∧ acceptBlockHeader W s c a = none := by
  unfold Chain.acceptBlock
  dsimp only
  cases hprev : prevBranch W s a.block with
  | none => simp
  | some c =>
    dsimp only
    split
    · rename_i hwork
      simp only [Bool.and_eq_true, decide_eq_true_eq, Bool.not_eq_true'] at hwork
      simp [hwork]
    rename_i hwork
    have hwork' : a.block.hash = W.hashGenesisBlock ∨
        checkWork W c a.block.nBits a.block.isProofOfStake = true := by
      by_contra hno
      simp only [not_or] at hno
      simp [hno] at hwork
    split
    · rename_i hstake
      simp only [Bool.and_eq_true, Bool.not_eq_true'] at hstake
      simp [hstake]
    rename_i hstake
    have hstake' : a.block.isProofOfStake = true → a.proofOfStake = true := by
      intro hpos
      simpa [hpos] using hstake
    have hsame : (∃ c', some c = some c' ∧
        (a.block.hash = W.hashGenesisBlock ∨ checkWork W c' a.block.nBits a.block.isProofOfStake = true) ∧
        (a.block.isProofOfStake = true → a.proofOfStake = true) ∧ acceptBlockHeader W s c' a = none) ↔
        acceptBlockHeader W s c a = none := by
      constructor
      · rintro ⟨c', hc, -, -, hheader⟩
        cases hc
        exact hheader
      · exact fun hheader => ⟨c, rfl, hwork', hstake', hheader⟩
    rw [hsame]
    cases hheader : acceptBlockHeader W s c a with
    | none => simp
    | some r =>
      obtain ⟨e, s₁⟩ := r
      cases e with
      | none => simp
      | some e =>
        dsimp only
        refine ⟨fun h => ?_, fun h => nomatch h⟩
        split at h
        · cases h
        split at h
        · cases h
        · cases h
        · split at h
          · cases h
          · exact absurd h (storeBlock_ne_none hsize)

theorem nSize_le_of_checkBlock (h : N.checkBlock b = some true) : b.nSize ≤ 200000 := by
  simp only [checkBlock, checkContents, andThen_eq_true, Option.some.injEq, Bool.and_eq_true,
    decide_eq_true_eq] at h
  exact h.1.2.1.2

theorem vin_ne_nil_of_checkBlock (h : N.checkBlock b = some true) (htx : tx ∈ b.vtx) :
    tx.vin ≠ [] := by
  simp only [checkBlock, andThen_eq_true, Option.some.injEq, Bool.and_eq_true, checkTransactions,
    List.all_eq_true] at h
  have htx' := (h.2.2.1 tx htx).1
  simp only [checkTransaction, Bool.and_eq_true, decide_eq_true_eq] at htx'
  exact htx'.1.1.1.1

/-- For such a block the second transaction's first input is there if the
transaction is. -/
theorem stakeInput_eq_none (h : N.checkBlock b = some true) :
    ((b.vtx[1]?).bind fun tx => tx.vin[0]?) = none ↔ b.vtx.length < 2 := by
  cases htx : b.vtx[1]? with
  | none =>
    have hlen := List.getElem?_eq_none_iff.mp htx
    simp only [Option.bind_none, true_iff]
    omega
  | some tx =>
    have hvin := vin_ne_nil_of_checkBlock h (List.mem_of_getElem? htx)
    have hlen : 1 < b.vtx.length := by
      obtain ⟨hlt, -⟩ := List.getElem?_eq_some_iff.mp htx
      exact hlt
    simp only [Option.bind_some, List.getElem?_eq_none_iff, Nat.le_zero, List.length_eq_zero_iff]
    exact ⟨fun hnil => absurd hnil hvin, fun hlt => by omega⟩

theorem two_le_of_isProofOfStake (h : b.isProofOfStake = true) : 2 ≤ b.vtx.length := by
  obtain ⟨tx, -, htx, -⟩ := coinstake_of_isProofOfStake h
  obtain ⟨hlt, -⟩ := List.getElem?_eq_some_iff.mp htx
  exact hlt

theorem acceptBlock_ne_none {dbp : Option CDiskBlockPos} (h : N.checkBlock b = some true) :
    N.acceptBlock b dbp ≠ none ↔ N.AcceptReadable b := by
  have hsize := nSize_le_of_checkBlock h
  unfold acceptBlock
  by_cases hreach : ∃ c, N.ReachesStake b c
  · obtain ⟨c, hc⟩ := hreach
    rw [checkStake_of_reaches hc]
    by_cases hpos : b.isProofOfStake = true
    · -- The kernel decides; there is a second transaction.
      obtain ⟨tx, i, htx, hi, -⟩ := coinstake_of_isProofOfStake hpos
      have hlen := two_le_of_isProofOfStake hpos
      have hkernel : N.AcceptReadable b ↔ N.checkProofOfStake b ≠ none := by
        rw [Ne, checkProofOfStake_eq_none hpos htx hi]
        constructor
        · rintro hread ⟨hz, txFrom, hash, hfrom, hin, hout⟩
          exact absurd (hread.kernel c hc hpos tx i htx hi hz txFrom hash hfrom hin) (Nat.not_lt.mpr hout)
        · intro hno
          refine ⟨fun c' _ _ tx' i' htx' hi' hz txFrom hash hfrom hin => ?_, fun _ _ _ _ _ => hlen⟩
          obtain rfl := Option.some.inj (htx.symm.trans htx')
          obtain rfl := Option.some.inj (hi.symm.trans hi')
          by_contra hout
          exact hno ⟨hz, txFrom, hash, hfrom, hin, Nat.not_lt.mp hout⟩
      rw [hkernel, if_pos hpos]
      cases hstake : N.checkProofOfStake b with
      | none => simp
      | some stake =>
        rw [Option.bind_eq_bind, Option.bind_some, Ne, acceptBlock_eq_none hsize]
        refine iff_of_true ?_ (Option.some_ne_none _)
        rintro ⟨c', -, -, -, hheader⟩
        have hmissing := (acceptBlockHeader_eq_none.mp hheader).2.2.2
        exact absurd ((stakeInput_eq_none h).mp hmissing) (Nat.not_lt.mpr hlen)
    · rw [if_neg hpos, Option.bind_eq_bind, Option.bind_some, Ne, acceptBlock_eq_none hsize]
      constructor
      · intro hno
        refine ⟨fun _ _ hp => absurd hp hpos, fun c' hc' hknown hheader hheight => ?_⟩
        by_contra hlen
        refine hno ⟨c', hc'.1, hc'.2, fun _ => rfl, acceptBlockHeader_eq_none.mpr ⟨hknown, hheader, hheight, ?_⟩⟩
        exact (stakeInput_eq_none h).mpr (Nat.not_le.mp hlen)
      · rintro hread ⟨c', hprev, hwork, -, hheader⟩
        obtain ⟨hknown, hhead, hheight, hmissing⟩ := acceptBlockHeader_eq_none.mp hheader
        have hlen := hread.entry c' ⟨hprev, hwork⟩ hknown hhead hheight
        exact absurd ((stakeInput_eq_none h).mp hmissing) (Nat.not_lt.mpr hlen)
  · have hno := not_exists.mp hreach
    rw [checkStake_of_not_reaches hno, Option.bind_eq_bind, Option.bind_some, Ne, acceptBlock_eq_none hsize]
    refine iff_of_true ?_ ⟨fun c hc => absurd hc (hno c), fun c hc => absurd hc (hno c)⟩
    rintro ⟨c, hprev, hwork, -⟩
    exact hno c ⟨hprev, hwork⟩

/-! ### Arrival -/

/-- What makes the accesses to an arriving block safe. -/
structure ArrivalReadable (N : PeerNode) (b : WireBlock) : Prop where
  check : N.CheckReadable b
  signature : N.SignatureReadable b
  accept : N.checkBlock b = some true → N.checkBlockSignature b = some true → N.AcceptReadable b

theorem processNewBlock_ne_none {dbp : Option CDiskBlockPos} :
    N.processNewBlock b dbp ≠ none ↔ N.ArrivalReadable b := by
  unfold processNewBlock
  cases hcheck : N.checkBlock b with
  | none =>
    have hno : ¬ N.CheckReadable b := fun hread => checkBlock_ne_none.mpr hread hcheck
    exact iff_of_false (by simp) fun hread => hno hread.check
  | some checked =>
    have hread : N.CheckReadable b := checkBlock_ne_none.mp (by rw [hcheck]; exact Option.some_ne_none _)
    cases hsig : N.checkBlockSignature b with
    | none =>
      have hno : ¬ N.SignatureReadable b := fun hread => checkBlockSignature_ne_none.mpr hread hsig
      exact iff_of_false (by simp) fun hread => hno hread.signature
    | some signed =>
      have hsign : N.SignatureReadable b :=
        checkBlockSignature_ne_none.mp (by rw [hsig]; exact Option.some_ne_none _)
      simp only [Option.bind_eq_bind, Option.bind_some]
      cases checked with
      | false =>
        refine iff_of_true (by simp) ⟨hread, hsign, fun hc => ?_⟩
        exact nomatch hcheck.symm.trans hc
      | true =>
        cases signed with
        | false =>
          refine iff_of_true (by simp) ⟨hread, hsign, fun _ hs => ?_⟩
          exact nomatch hsig.symm.trans hs
        | true =>
          rw [Bool.and_true, if_pos rfl, acceptBlock_ne_none hcheck]
          exact ⟨fun h => ⟨hread, hsign, fun _ _ => h⟩, fun h => h.accept hcheck hsig⟩

end PeerNode

end Rapids.Chain
