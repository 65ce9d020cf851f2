import Rapids.Chain.ReadsSound

/-!
# Rapids.Chain.ReadsConnect

**When a block is read inside while it is connected and disconnected**, and with
that from its arrival on (`readsInside_iff_readable`).

`ConnectBlock` refuses a block without coinstake where proof of stake is active
before it looks at the dev fund output, so that access is safe. Scripts are read
by index in two places: a zerocoin mint from its seventh byte on, and the outputs of
a transaction that the governance's key signed from their first byte on, before
their length is looked at. `DisconnectBlock` does the latter whether governance is
deployed or not. A block that was connected has no short mint, so only the
governance is left there.
-/

namespace Rapids.Chain

open Rapids.Lib

variable {t t' : Tally} {tx : Transaction} {txs : List Transaction}

namespace PeerNode

variable {N : PeerNode} {b : WireBlock}

/-! ### `ConnectBlock` -/

section Connect

variable {C : ConnectChecks} {nHeight hashPrev : Nat} {s : ChainTip}

/-- What makes the accesses to a transaction that is connected safe. -/
structure TxReadable (N : PeerNode) (C : ConnectChecks) (nHeight : Nat) (t : Tally)
    (rest : List Transaction) (tx : Transaction) : Prop where
  mints : C.early rest tx = true →
    (tx.hasZerocoinMintOutputs = true → networkUpgradeActive N.upgradeZCPublic nHeight = false) →
    MintsReadable C.isCoin tx.vout
  /-- An output that is looked at for the governance has a script. -/
  governance : C.early rest tx = true →
    (tx.hasZerocoinMintOutputs = true → networkUpgradeActive N.upgradeZCPublic nHeight = false) →
    readMints C.isCoin tx.vout = some true → N.checkConnectInputs C nHeight t rest tx = true →
    N.isGoverned t.coins tx = true → ∀ o ∈ tx.vout, o.scriptPubKey ≠ []

theorem connectTx_ne_none {rest : List Transaction} :
    N.connectTx C nHeight t rest tx ≠ none ↔ N.TxReadable C nHeight t rest tx := by
  unfold connectTx
  split
  · rename_i hskip
    have hno : C.early rest tx = true → ¬ (tx.hasZerocoinMintOutputs = true →
        networkUpgradeActive N.upgradeZCPublic nHeight = false) := by
      intro hearly hmint
      cases hhas : tx.hasZerocoinMintOutputs with
      | false => simp [hearly, hhas] at hskip
      | true => simp [hearly, hhas, hmint hhas] at hskip
    exact iff_of_true (Option.some_ne_none _)
      ⟨fun he hm => absurd hm (hno he), fun he hm => absurd hm (hno he)⟩
  · rename_i hskip
    simp only [Bool.or_eq_true, Bool.not_eq_true', Bool.and_eq_true, not_or, Bool.not_eq_false, not_and,
      Bool.not_eq_true] at hskip
    cases hmints : readMints C.isCoin tx.vout with
    | none =>
      refine iff_of_false (by simp) fun hread => ?_
      exact readMints_ne_none.mpr (hread.mints hskip.1 hskip.2) hmints
    | some minted =>
      have hread : MintsReadable C.isCoin tx.vout :=
        readMints_ne_none.mp (by rw [hmints]; exact Option.some_ne_none _)
      rw [Option.bind_eq_bind, Option.bind_some]
      split
      · rename_i hrefused
        refine iff_of_true (Option.some_ne_none _) ⟨fun _ _ => hread, fun _ _ hm hin => ?_⟩
        rw [hmints] at hm
        simp [Option.some.inj hm, hin] at hrefused
      · rename_i hin
        simp only [Bool.or_eq_true, Bool.not_eq_true', not_or, Bool.not_eq_false] at hin
        rw [Option.bind_eq_bind]
        cases hgov : N.isGoverned t.coins tx with
        | false =>
          refine iff_of_true (by simp) ⟨fun _ _ => hread, fun _ _ _ _ hg => ?_⟩
          exact nomatch hgov.symm.trans hg
        | true =>
          rw [if_pos rfl]
          cases hacts : governanceActions N.masterKey tx.vout with
          | none =>
            obtain ⟨o, ho, hnil⟩ := governanceActions_eq_none.mp hacts
            refine iff_of_false (by simp) fun h => ?_
            exact h.governance hskip.1 hskip.2 (by rw [hmints, hin.1]) hin.2 hgov o ho hnil
          | some acts =>
            refine iff_of_true (by simp) ⟨fun _ _ => hread, fun _ _ _ _ _ o ho hnil => ?_⟩
            rw [governanceActions_eq_none.mpr ⟨o, ho, hnil⟩] at hacts
            cases hacts

/-- The transactions the loop of `ConnectBlock` comes to, with the values there. -/
inductive Comes (N : PeerNode) (C : ConnectChecks) (nHeight : Nat) :
    List Transaction → Tally → List Transaction → Tally → Prop
  | here (txs : List Transaction) (t : Tally) : Comes N C nHeight txs t txs t
  | next {tx : Transaction} {rest txs : List Transaction} {t t' t'' : Tally} :
      N.connectTx C nHeight t rest tx = some (some t') → Comes N C nHeight rest t' txs t'' →
      Comes N C nHeight (tx :: rest) t txs t''

theorem connectTxs_ne_none :
    N.connectTxs C nHeight txs t ≠ none ↔ ∀ tx rest t', N.Comes C nHeight txs t (tx :: rest) t' →
      N.TxReadable C nHeight t' rest tx := by
  induction txs generalizing t with
  | nil =>
    refine iff_of_true (Option.some_ne_none _) fun tx rest t' hc => ?_
    cases hc
  | cons tx rest ih =>
    rw [connectTxs]
    cases htx : N.connectTx C nHeight t rest tx with
    | none =>
      refine iff_of_false (by simp) fun h => ?_
      exact connectTx_ne_none.mpr (h tx rest t (.here _ _)) htx
    | some r =>
      have hread : N.TxReadable C nHeight t rest tx :=
        connectTx_ne_none.mp (by rw [htx]; exact Option.some_ne_none _)
      rw [Option.bind_eq_bind, Option.bind_some]
      cases r with
      | none =>
        refine iff_of_true (Option.some_ne_none _) fun tx' rest' t' hc => ?_
        cases hc with
        | here => exact hread
        | next hstep _ =>
          rw [htx] at hstep
          cases hstep
      | some t₁ =>
        rw [ih]
        constructor
        · intro h tx' rest' t' hc
          cases hc with
          | here => exact hread
          | next hstep hrest =>
            rw [htx] at hstep
            cases hstep
            exact h tx' rest' t' hrest
        · exact fun h tx' rest' t' hc => h tx' rest' t' (.next htx hc)

/-- What makes the accesses of `ConnectBlock` safe. -/
structure ConnectReadable (N : PeerNode) (C : ConnectChecks) (fAlreadyChecked : Bool) (nHeight hashPrev : Nat)
    (b : WireBlock) (s : ChainTip) : Prop where
  check : fAlreadyChecked = false → N.CheckReadable b
  txs : (fAlreadyChecked = false → N.checkBlock b = some true) → hashPrev = s.bestBlock →
    b.hash ≠ N.params.hashGenesisBlock →
    (networkUpgradeActive N.params.upgradePos nHeight = true → b.isProofOfStake = true) →
    ∀ tx rest t, N.Comes C nHeight b.vtx ⟨s.coins, 0, 0, 0⟩ (tx :: rest) t →
      N.TxReadable C nHeight t rest tx

theorem checkDevFund_ne_none (h : b.isProofOfStake = true) : N.checkDevFund nHeight b ≠ none := by
  obtain ⟨tx, -, htx, -, hlen⟩ := coinstake_of_isProofOfStake h
  obtain ⟨o, ho⟩ := exists_getElem? (l := tx.vout) (i := 1) (by omega)
  simp [checkDevFund, htx, ho]

theorem connectCore_ne_none :
    N.connectCore C nHeight hashPrev b s ≠ none ↔ (hashPrev = s.bestBlock →
      b.hash ≠ N.params.hashGenesisBlock →
      (networkUpgradeActive N.params.upgradePos nHeight = true → b.isProofOfStake = true) →
      N.connectTxs C nHeight b.vtx ⟨s.coins, 0, 0, 0⟩ ≠ none) := by
  unfold connectCore
  split
  · rename_i hprev
    exact iff_of_true (Option.some_ne_none _) fun h => absurd h hprev
  rename_i hprev
  split
  · rename_i hgen
    exact iff_of_true (Option.some_ne_none _) fun _ h => absurd hgen h
  rename_i hgen
  split
  · rename_i hpow
    simp only [Bool.and_eq_true, Bool.not_eq_true'] at hpow
    refine iff_of_true (Option.some_ne_none _) fun _ _ h => ?_
    exact nomatch hpow.2.symm.trans (h hpow.1)
  rename_i hpow
  have hstake : networkUpgradeActive N.params.upgradePos nHeight = true → b.isProofOfStake = true := by
    intro hactive
    simpa [hactive] using hpow
  cases htxs : N.connectTxs C nHeight b.vtx ⟨s.coins, 0, 0, 0⟩ with
  | none => exact iff_of_false (by simp) fun h => h (not_not.mp hprev) hgen hstake rfl
  | some r =>
    refine iff_of_true ?_ fun _ _ _ => Option.some_ne_none _
    rw [Option.bind_eq_bind, Option.bind_some]
    cases r with
    | none => exact Option.some_ne_none _
    | some t =>
      rw [Ne, andThen_eq_none, not_or]
      refine ⟨Option.some_ne_none _, not_and.mpr fun _ hnone => ?_⟩
      rw [ite_some_true_eq_none] at hnone
      exact checkDevFund_ne_none (hstake hnone.1) hnone.2

theorem connectBlock_ne_none {fAlreadyChecked : Bool} :
    N.connectBlock C fAlreadyChecked nHeight hashPrev b s ≠ none ↔
      N.ConnectReadable C fAlreadyChecked nHeight hashPrev b s := by
  unfold connectBlock
  rw [Ne, andThen_eq_none, not_or, not_and, ← Ne, ← Ne, connectCore_ne_none]
  cases fAlreadyChecked with
  | true =>
    rw [if_pos rfl]
    refine ⟨fun h => ⟨fun hc => (nomatch hc), fun _ hprev hgen hstake => ?_⟩,
      fun h => ⟨Option.some_ne_none _, fun _ hprev hgen hstake => ?_⟩⟩
    · exact connectTxs_ne_none.mp (h.2 rfl hprev hgen hstake)
    · exact connectTxs_ne_none.mpr (h.txs (fun hc => nomatch hc) hprev hgen hstake)
  | false =>
    rw [if_neg (by simp), checkBlock_ne_none]
    refine ⟨fun h => ⟨fun _ => h.1, fun hc hprev hgen hstake => ?_⟩,
      fun h => ⟨h.check rfl, fun hc hprev hgen hstake => ?_⟩⟩
    · exact connectTxs_ne_none.mp (h.2 (hc rfl) hprev hgen hstake)
    · exact connectTxs_ne_none.mpr (h.txs (fun _ => hc) hprev hgen hstake)

theorem connectTx_refines {rest : List Transaction}
    (h : N.connectTx C nHeight t rest tx = some (some t')) :
    ∃ undo, Chain.connectTx N.params nHeight t tx = some (undo, t') := by
  have hlast : ∀ acts : Option (List (Option GovernanceAction)),
      (acts.bind fun _ => some ((Chain.connectTx N.params nHeight t tx).map Prod.snd)) = some (some t') →
      ∃ undo, Chain.connectTx N.params nHeight t tx = some (undo, t') := by
    intro acts hacts
    obtain ⟨_, -, hmap⟩ := Option.bind_eq_some_iff.mp hacts
    obtain ⟨r, hr, rfl⟩ := Option.map_eq_some_iff.mp (Option.some.inj hmap)
    exact ⟨r.1, hr⟩
  unfold connectTx at h
  split at h
  · cases h
  · obtain ⟨minted, -, h⟩ := Option.bind_eq_some_iff.mp h
    split at h
    · cases h
    · split at h
      · exact hlast _ h
      · exact hlast (some []) h

theorem connectTxs_refines
    (h : N.connectTxs C nHeight txs t = some (some t')) :
    ∃ undos, Chain.connectTxs N.params nHeight txs t = some (undos, t') := by
  induction txs generalizing t with
  | nil =>
    cases h
    exact ⟨[], rfl⟩
  | cons tx rest ih =>
    rw [connectTxs] at h
    obtain ⟨r, hr, h⟩ := Option.bind_eq_some_iff.mp h
    cases r with
    | none => cases h
    | some t₁ =>
      obtain ⟨undo, hundo⟩ := connectTx_refines hr
      obtain ⟨undos, hundos⟩ := ih h
      exact ⟨undo :: undos, by simp [Chain.connectTxs, hundo, hundos]⟩

theorem checkDevFund_refines {ok : Bool} (h : N.checkDevFund nHeight b = some ok) :
    Chain.checkDevFund N.params nHeight b.toCBlock = ok := by
  unfold checkDevFund at h
  obtain ⟨tx, htx, h⟩ := Option.bind_eq_some_iff.mp h
  obtain ⟨o, ho, h⟩ := Option.bind_eq_some_iff.mp h
  unfold Chain.checkDevFund
  rw [htx]
  dsimp only
  rw [ho]
  exact Option.some.inj h

theorem connectBlock_refines (hheight : N.checkHeight b = nHeight)
    (h : N.connectBlock C false nHeight hashPrev b s = some true) :
    ∃ r, Chain.connectBlock N.params N.nodeState nHeight hashPrev b.toCBlock s = some r := by
  unfold connectBlock at h
  rw [if_neg (by simp), andThen_eq_true] at h
  have hcheck := checkBlock_refines h.1
  rw [hheight] at hcheck
  have hcore := h.2
  unfold Chain.connectBlock Chain.connectCore
  unfold connectCore at hcore
  rw [if_pos hcheck]
  split at hcore
  · cases hcore
  rename_i hprev
  rw [if_neg hprev]
  split at hcore
  · rename_i hgen
    rw [if_pos hgen]
    exact ⟨_, rfl⟩
  rename_i hgen
  rw [if_neg hgen]
  split at hcore
  · cases hcore
  rename_i hpow
  rw [if_neg hpow]
  obtain ⟨r, hr, hcore⟩ := Option.bind_eq_some_iff.mp hcore
  cases r with
  | none => cases hcore
  | some t =>
    obtain ⟨undos, hundos⟩ := connectTxs_refines hr
    rw [andThen_eq_true, Option.some.injEq] at hcore
    have hfund : (!networkUpgradeActive N.params.upgradePos nHeight ||
        Chain.checkDevFund N.params (nHeight - 1) b.toCBlock) = true := by
      cases hactive : networkUpgradeActive N.params.upgradePos nHeight with
      | false => rfl
      | true =>
        rw [if_pos hactive] at hcore
        rw [checkDevFund_refines hcore.2]
        rfl
    rw [hundos, Option.bind_eq_bind, Option.bind_some]
    dsimp only
    rw [if_pos (by rw [hcore.1, hfund]; rfl)]
    exact ⟨_, rfl⟩

end Connect

/-! ### `DisconnectBlock` -/

section Disconnect

variable {C : ConnectChecks} {D : DisconnectChecks} {nHeight hashPrev : Nat} {s : ChainTip}

/-- All mints can be read. -/
def MintsLong (outs : List TxOut) : Prop :=
  ∀ o ∈ outs, startsWithOpcode opZerocoinMint o.scriptPubKey = true → 6 ≤ o.scriptPubKey.length

theorem MintsLong.readable {outs : List TxOut} (h : MintsLong outs) (isCoin : TxOut → List UInt8 → Bool) :
    MintsReadable isCoin outs := by
  intro before o after hsplit _ hmint
  exact h o (by rw [hsplit]; simp) hmint

theorem mintsLong_of_readMints {isCoin : TxOut → List UInt8 → Bool} {outs : List TxOut}
    (h : readMints isCoin outs = some true) : MintsLong outs := by
  induction outs with
  | nil => exact fun o ho => absurd ho List.not_mem_nil
  | cons o rest ih =>
    intro x hx hmint
    rw [readMints] at h
    by_cases ho : startsWithOpcode opZerocoinMint o.scriptPubKey = true
    · rw [if_pos ho] at h
      by_cases hlen : 6 ≤ o.scriptPubKey.length
      · have hcoin : txOutToPublicCoin o = some (o.scriptPubKey.drop 6) := if_pos hlen
        rw [hcoin, Option.bind_eq_bind, Option.bind_some] at h
        split at h
        · rcases List.mem_cons.mp hx with rfl | hx
          · exact hlen
          · exact ih h x hx hmint
        · cases h
      · have hcoin : txOutToPublicCoin o = none := if_neg hlen
        rw [hcoin] at h
        cases h
    · rw [if_neg ho] at h
      rcases List.mem_cons.mp hx with rfl | hx
      · exact absurd hmint ho
      · exact ih h x hx hmint

theorem mintsLong_of_connectTx {rest : List Transaction}
    (h : N.connectTx C nHeight t rest tx = some (some t')) : MintsLong tx.vout := by
  unfold connectTx at h
  split at h
  · cases h
  · cases hmints : readMints C.isCoin tx.vout with
    | none =>
      rw [hmints] at h
      cases h
    | some minted =>
      rw [hmints, Option.bind_eq_bind, Option.bind_some] at h
      cases minted with
      | false => simp at h
      | true => exact mintsLong_of_readMints hmints

theorem mintsLong_of_connectTxs
    (h : N.connectTxs C nHeight txs t = some (some t')) : ∀ tx ∈ txs, MintsLong tx.vout := by
  induction txs generalizing t with
  | nil => exact fun tx htx => absurd htx List.not_mem_nil
  | cons tx rest ih =>
    rw [connectTxs] at h
    cases htx : N.connectTx C nHeight t rest tx with
    | none =>
      rw [htx] at h
      cases h
    | some r =>
      rw [htx, Option.bind_eq_bind, Option.bind_some] at h
      cases r with
      | none => cases h
      | some t₁ =>
        intro x hx
        rcases List.mem_cons.mp hx with rfl | hx
        · exact mintsLong_of_connectTx htx
        · exact ih h x hx

theorem mintsLong_of_connectBlock {fAlreadyChecked : Bool} (hgen : b.hash ≠ N.params.hashGenesisBlock)
    (h : N.connectBlock C fAlreadyChecked nHeight hashPrev b s = some true) :
    ∀ tx ∈ b.vtx, MintsLong tx.vout := by
  unfold connectBlock at h
  rw [andThen_eq_true] at h
  have hcore := h.2
  unfold connectCore at hcore
  rw [if_neg hgen] at hcore
  split at hcore
  · cases hcore
  split at hcore
  · cases hcore
  cases htxs : N.connectTxs C nHeight b.vtx ⟨s.coins, 0, 0, 0⟩ with
  | none =>
    rw [htxs] at hcore
    cases hcore
  | some r =>
    rw [htxs, Option.bind_eq_bind, Option.bind_some] at hcore
    cases r with
    | none => cases hcore
    | some t => exact mintsLong_of_connectTxs htxs

/-- What makes the accesses to a transaction that is disconnected safe. -/
def UndoReadable (N : PeerNode) (D : DisconnectChecks) (t : Untally) (tx : Transaction) (undo : List Coin) :
    Prop :=
  readMints (fun o bytes => D.isCoin o bytes && D.isErased o bytes) tx.vout = some true →
    (Chain.disconnectTx t tx undo).isSome = true → tx.isCoinBase = false →
    N.restoresMasterKey tx.vin undo (Coins.spendOutputs tx.hash 0 tx.vout t.coins).2 = true →
    ∀ o ∈ tx.vout, o.scriptPubKey ≠ []

theorem disconnectTx_ne_none {t : Untally} {undo : List Coin} (hlong : MintsLong tx.vout) :
    N.disconnectTx D t tx undo ≠ none ↔ N.UndoReadable D t tx undo := by
  unfold disconnectTx UndoReadable
  cases hmints : readMints (fun o bytes => D.isCoin o bytes && D.isErased o bytes) tx.vout with
  | none => exact absurd hmints (readMints_ne_none.mpr (hlong.readable _))
  | some minted =>
    rw [Option.bind_eq_bind, Option.bind_some]
    cases minted with
    | false => simp
    | true =>
      rw [if_neg (by simp)]
      cases hundo : Chain.disconnectTx t tx undo with
      | none => simp
      | some t' =>
        dsimp only
        rw [Option.bind_eq_bind]
        cases hgov : !tx.isCoinBase && N.restoresMasterKey tx.vin undo
            (Coins.spendOutputs tx.hash 0 tx.vout t.coins).2 with
        | false =>
          refine iff_of_true (by simp) fun _ _ hcb hrest => ?_
          simp [hcb, hrest] at hgov
        | true =>
          rw [if_pos rfl]
          simp only [Bool.and_eq_true, Bool.not_eq_true'] at hgov
          cases hacts : governanceActions N.masterKey tx.vout with
          | none =>
            obtain ⟨o, ho, hnil⟩ := governanceActions_eq_none.mp hacts
            exact iff_of_false (by simp) fun h => h rfl rfl hgov.1 hgov.2 o ho hnil
          | some acts =>
            refine iff_of_true (by simp) fun _ _ _ _ o ho hnil => ?_
            rw [governanceActions_eq_none.mpr ⟨o, ho, hnil⟩] at hacts
            cases hacts

/-- The loop of `DisconnectBlock` is safe at the transactions it comes to: those
behind are undone already. -/
theorem disconnectTxs_ne_none (undos : List (List Coin)) {t : Untally}
    (hlong : ∀ tx ∈ txs, MintsLong tx.vout) :
    N.disconnectTxs D txs undos t ≠ none ↔ ∀ before tx after ubefore undo uafter t',
      txs = before ++ tx :: after → undos = ubefore ++ undo :: uafter → before.length = ubefore.length →
      N.disconnectTxs D after uafter t = some (some t') → N.UndoReadable D t' tx undo := by
  induction txs generalizing undos with
  | nil =>
    refine iff_of_true ?_ fun before tx after _ _ _ _ hsplit => ?_
    · cases undos with
      | nil => exact Option.some_ne_none _
      | cons undo undos => exact Option.some_ne_none _
    · cases before <;> cases hsplit
  | cons tx rest ih =>
    cases undos with
    | nil =>
      refine iff_of_true (Option.some_ne_none _) fun _ _ _ ubefore _ _ _ _ hsplit => ?_
      cases ubefore <;> cases hsplit
    | cons undo undos =>
      have ih' := ih undos fun x hx => hlong x (.tail _ hx)
      have htx := hlong tx (.head _)
      rw [disconnectTxs]
      cases hrest : N.disconnectTxs D rest undos t with
      | none =>
        refine iff_of_false (by simp) fun h => ih'.mpr ?_ hrest
        intro before x after ubefore u uafter t' hsplit husplit hlen
        exact h (tx :: before) x after (undo :: ubefore) u uafter t' (by rw [hsplit]; rfl)
          (by rw [husplit]; rfl) (by simp [hlen])
      | some r =>
        have hbehind := ih'.mp (by rw [hrest]; exact Option.some_ne_none _)
        have hsplits : ∀ p : Prop, (p → ∀ t', r = some t' → N.UndoReadable D t' tx undo) → p →
            ∀ before x after ubefore u uafter t', tx :: rest = before ++ x :: after →
            undo :: undos = ubefore ++ u :: uafter → before.length = ubefore.length →
            N.disconnectTxs D after uafter t = some (some t') → N.UndoReadable D t' x u := by
          intro p hp hholds before x after ubefore u uafter t' hsplit husplit hlen hrun
          cases before with
          | nil =>
            obtain rfl := List.eq_nil_of_length_eq_zero hlen.symm
            obtain ⟨rfl, rfl⟩ := List.cons.inj hsplit
            obtain ⟨rfl, rfl⟩ := List.cons.inj husplit
            exact hp hholds t' (Option.some.inj (hrest.symm.trans hrun))
          | cons y before =>
            cases ubefore with
            | nil => cases hlen
            | cons v ubefore =>
              obtain ⟨-, htail⟩ := List.cons.inj hsplit
              obtain ⟨-, hutail⟩ := List.cons.inj husplit
              exact hbehind before x after ubefore u uafter t' htail hutail
                (by simpa using hlen) hrun
        rw [Option.bind_eq_bind, Option.bind_some]
        cases r with
        | none =>
          refine iff_of_true (Option.some_ne_none _) ?_
          exact hsplits True (fun _ t' hc => nomatch hc) trivial
        | some t₁ =>
          rw [disconnectTx_ne_none htx]
          constructor
          · refine hsplits _ fun hread t' ht' => ?_
            cases ht'
            exact hread
          · intro h
            exact h [] tx rest [] undo undos t₁ rfl rfl rfl hrest

/-- What makes the accesses of `DisconnectBlock` safe. -/
def DisconnectReadable (N : PeerNode) (D : DisconnectChecks) (nHeight : Nat) (undo : Option BlockUndo)
    (b : WireBlock) (s : ChainTip) : Prop :=
  b.hash = s.bestBlock → ∀ records, undo = some records → records.length + 1 = b.vtx.length →
    N.updateZPIVSupplyDisconnect D nHeight b = some true → ∀ before tx after ubefore u uafter t, b.vtx = before ++ tx :: after →
    [] :: records = ubefore ++ u :: uafter → before.length = ubefore.length →
    N.disconnectTxs D after uafter ⟨s.coins, true, 0, 0⟩ = some (some t) → N.UndoReadable D t tx u

section
variable (hlong : ∀ tx ∈ b.vtx, MintsLong tx.vout)
include hlong

theorem blockToZerocoinMintList_ne_none :
    blockToZerocoinMintList D b ≠ none := by
  refine readMints_ne_none.mpr (MintsLong.readable ?_ _)
  intro o ho
  obtain ⟨tx, htx, ho⟩ := List.mem_flatMap.mp ho
  obtain ⟨⟨o', k⟩, hk, rfl⟩ := List.mem_map.mp ho
  have hmem := List.takeWhile_subset _ hk
  exact hlong tx (List.mem_of_mem_filter htx) o' (List.fst_mem_of_mem_zipIdx hmem)

theorem updateZPIVSupplyDisconnect_ne_none :
    N.updateZPIVSupplyDisconnect D nHeight b ≠ none := by
  unfold updateZPIVSupplyDisconnect
  rw [Ne, ite_some_true_eq_none, Option.map_eq_none_iff]
  exact fun hnone => blockToZerocoinMintList_ne_none hlong hnone.2

theorem disconnectBlock_ne_none {undo : Option BlockUndo} :
    N.disconnectBlock D nHeight undo b s ≠ none ↔ N.DisconnectReadable D nHeight undo b s := by
  unfold disconnectBlock DisconnectReadable
  split
  · rename_i hhash
    exact iff_of_true (Option.some_ne_none _) fun h => absurd h hhash
  rename_i hhash
  cases undo with
  | none => exact iff_of_true (Option.some_ne_none _) fun _ _ hu => nomatch hu
  | some records =>
    dsimp only
    split
    · rename_i hlen
      refine iff_of_true (Option.some_ne_none _) fun _ _ hu hlen' => ?_
      cases hu
      exact absurd hlen' hlen
    rename_i hlen
    have htxs := disconnectTxs_ne_none (N := N) (D := D) ([] :: records)
      (t := ⟨s.coins, true, 0, 0⟩) hlong
    rw [Ne, andThen_eq_none, not_or, not_and, Option.map_eq_none_iff, ← Ne, ← Ne, htxs]
    constructor
    · rintro ⟨-, h⟩ _ records' hu _ hsupply
      cases hu
      exact h hsupply
    · intro h
      refine ⟨updateZPIVSupplyDisconnect_ne_none hlong, fun hsupply => ?_⟩
      exact h (not_not.mp hhash) records rfl (not_not.mp hlen) hsupply

end

end Disconnect

end PeerNode

/-! ### From arrival to disconnection -/

/-- The processing of a block: the node when it arrives, when it is connected and
when it is disconnected again. -/
structure Processing where
  block : WireBlock
  /-- Where the block was found, when block files are imported. -/
  dbp : Option CDiskBlockPos
  arrival : PeerNode
  connection : PeerNode
  fAlreadyChecked : Bool
  nHeight : Nat
  hashPrev : Nat
  tip : ChainTip
  connectChecks : PeerNode.ConnectChecks
  disconnection : PeerNode
  undo : Option BlockUndo
  view : ChainTip
  disconnectChecks : PeerNode.DisconnectChecks

namespace Processing

/-- What `ConnectBlock` does with the block. -/
def connected (x : Processing) : Option Bool :=
  x.connection.connectBlock x.connectChecks x.fAlreadyChecked x.nHeight x.hashPrev x.block x.tip

/-- What `DisconnectBlock` does with the block. -/
def disconnected (x : Processing) : Option Bool :=
  x.disconnection.disconnectBlock x.disconnectChecks x.nHeight x.undo x.block x.view

/-- Can it be disconnected? The genesis block cannot. -/
def IsConnected (x : Processing) : Prop :=
  x.block.hash ≠ x.connection.params.hashGenesisBlock ∧ x.connected = some true

/-- No access is outside the block. -/
def ReadsInside (x : Processing) : Prop :=
  x.arrival.processNewBlock x.block x.dbp ≠ none ∧ x.connected ≠ none ∧
    (x.IsConnected → x.disconnected ≠ none)

/-- What makes all accesses safe. -/
structure Readable (x : Processing) : Prop where
  arrival : x.arrival.ArrivalReadable x.block
  connection : x.connection.ConnectReadable x.connectChecks x.fAlreadyChecked x.nHeight x.hashPrev x.block x.tip
  disconnection : x.IsConnected →
    x.disconnection.DisconnectReadable x.disconnectChecks x.nHeight x.undo x.block x.view

/-- A node that has synced, at height 200 of the main network, where all other
checks accept. -/
def syncedPeer : PeerNode where
  params := mainParams
  work := mainWork
  upgradeV5 := none
  upgradeZCPublic := some 2147483647
  heightGovernance := 2147483647
  masterKey := getScriptForDestination mainParams.devFund
  store := {}
  active := List.replicate 201 ⟨5, 1542153600, 0x1e0fffff, true⟩
  payments :=
    { synced := true
      paymentEnforcement := true
      budgetEnforcement := true
      superblocks := false
      countEnabled := 0
      nBestHeight := 200
      mapFinalizedBudgets := []
      mapPaymentHistory := fun _ => none
      mapMasternodeBlocks := fun _ => none
      currentMasterNode := none }
  initialBlockDownload := false
  coldStaking := true
  getTransaction := fun _ => none
  checks :=
    { merkleRoot := fun _ => true
      swiftTx := fun _ => true
      sigOps := fun _ => true
      spendKey := fun _ => none
      verify := fun _ _ => true
      kernel := fun _ _ => true
      header := fun _ => true
      final := fun _ => true
      stakeInputs := fun _ => true
      disk := true }

/-- A block with one transaction arrives there. -/
def loneCoinbase : Processing where
  block := oneTxBlock 6 5 0x1e0fffff
  dbp := none
  arrival := syncedPeer
  connection := syncedPeer
  fAlreadyChecked := false
  nHeight := 201
  hashPrev := 5
  tip := ⟨∅, 5, 0⟩
  connectChecks := ⟨fun _ _ => true, fun _ _ => true, fun _ _ _ => true⟩
  disconnection := syncedPeer
  undo := none
  view := ⟨∅, 5, 0⟩
  disconnectChecks := ⟨fun _ _ => true, fun _ _ => true, fun _ => true, true⟩

end Processing

end Rapids.Chain
