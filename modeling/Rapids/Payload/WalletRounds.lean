import Rapids.Payload.ParseSound
import Rapids.Payload.WalletTx

/-!
# Rapids.Payload.WalletRounds

**What `CreateTransaction` ends with**, whichever coins and fee it settles on.

The coins that the builders select are the sender's own, seen from the wallet, and so
the parser finds the sender in them. The loop over the fee keeps no outputs from one
round to the next: its last round alone decides. In that round the change is left out,
joins an output with its script, or has an output of its own at the position asked for
(`placeChange_cases`).
-/

namespace Rapids.Payload

open Rapids.Lib Rapids.Chain

variable {address : List UInt8}

variable {c : WalletCoin} {coinControl : CoinControl} {vecSend : List TxOut} {round : TokenWallet.Round}

/-! ### Coins -/

section Coins

variable {N : TokenNetwork} {W : TokenWallet}

open TokenWallet

/-- A coin that qualifies as input of an address. -/
def OwnCoin (N : TokenNetwork) (address : List UInt8) (o : TxOut) : Prop :=
  ∃ t d, safeSolver o.scriptPubKey = some t ∧ isAllowedInputType t = true ∧
    extractDestination N.hash160 o.scriptPubKey = some d ∧ N.encode d = address

theorem ownCoin_of_isOwnCoin {o : WalletOut} (h : isOwnCoin N address o = true) :
    OwnCoin N address o.out := by
  rw [isOwnCoin] at h
  cases hcheck : checkInput N o.out with
  | none =>
    rw [hcheck] at h
    cases h
  | some d =>
    rw [hcheck] at h
    simp only [Bool.and_eq_true, decide_eq_true_eq] at h
    rw [checkInput] at hcheck
    cases hsolve : safeSolver o.out.scriptPubKey with
    | none =>
      rw [hsolve] at hcheck
      cases hcheck
    | some t =>
      rw [hsolve] at hcheck
      dsimp only at hcheck
      by_cases hallowed : isAllowedInputType t = true
      · rw [if_pos hallowed] at hcheck
        exact ⟨t, d, hsolve, hallowed, hcheck, h.2.symm⟩
      · rw [if_neg hallowed] at hcheck
        cases hcheck

theorem OwnCoin.source {o : TxOut} (h : OwnCoin N address o) (codes : Int × Int × Int) :
    inputSource N codes o = .ok address := by
  obtain ⟨t, d, hsolve, hallowed, hdest, hencode⟩ := h
  rw [inputSource, hsolve]
  dsimp only
  rw [hallowed, Bool.not_true, if_neg Bool.false_ne_true, hdest]
  dsimp only
  rw [hencode]

theorem extractDestination_ne_none (hash160 : List UInt8 → Vector UInt8 20) (s : Script) :
    extractDestination hash160 s ≠ some .none := by
  rw [extractDestination]
  cases matchPayToPubkey s <;> cases matchPayToPubkeyHash s <;> dsimp only <;> split_ifs <;> simp

theorem OwnCoin.isAddress {o : TxOut} (h : OwnCoin N address o) : N.IsAddress address := by
  obtain ⟨t, d, -, -, hdest, hencode⟩ := h
  refine ⟨d, hencode, ?_⟩
  rintro rfl
  exact extractDestination_ne_none _ _ hdest

theorem mem_coins {wtx : WalletTx} (h : wtx ∈ W.mapWallet) (hc : c ∈ wtx.coins) :
    c ∈ W.coins :=
  List.mem_flatMap.mpr ⟨wtx, h, hc⟩

theorem mem_selectOuts {isWanted : WalletOut → Bool} {nMax : Int} {coins : List WalletCoin}
    {selected : List WalletCoin × Int} (h : c ∈ (selectOuts isWanted nMax coins selected).1) :
    c ∈ selected.1 ∨ c ∈ coins ∧ isWanted c.out = true := by
  induction coins generalizing selected with
  | nil => exact .inl h
  | cons c' rest ih =>
    have hnext : c ∈ selected.1 ++ [c'] → isWanted c'.out = true →
        c ∈ selected.1 ∨ c ∈ c' :: rest ∧ isWanted c.out = true := by
      intro hmem hwanted
      rcases List.mem_append.mp hmem with hmem | hmem
      · exact .inl hmem
      · obtain rfl := List.mem_singleton.mp hmem
        exact .inr ⟨.head _, hwanted⟩
    rw [selectOuts] at h
    split_ifs at h with hwanted hmax
    · exact hnext h hwanted
    · rcases ih h with hmem | ⟨hmem, hw⟩
      · exact hnext hmem hwanted
      · exact .inr ⟨.tail _ hmem, hw⟩
    · rcases ih h with hmem | ⟨hmem, hw⟩
      · exact .inl hmem
      · exact .inr ⟨.tail _ hmem, hw⟩

theorem mem_selectTxs {isWanted : WalletOut → Bool} {nMax : Int} {txs : List WalletTx}
    {selected : List WalletCoin × Int} (h : c ∈ (selectTxs isWanted nMax txs selected).1) :
    c ∈ selected.1 ∨ (∃ wtx ∈ txs, c ∈ wtx.coins) ∧ isWanted c.out = true := by
  induction txs generalizing selected with
  | nil => exact .inl h
  | cons wtx rest ih =>
    have hstep : c ∈ (selectOuts isWanted nMax wtx.coins selected).1 →
        c ∈ selected.1 ∨ (∃ wtx' ∈ wtx :: rest, c ∈ wtx'.coins) ∧ isWanted c.out = true := by
      intro hmem
      rcases mem_selectOuts hmem with hmem | ⟨hmem, hw⟩
      · exact .inl hmem
      · exact .inr ⟨⟨wtx, .head _, hmem⟩, hw⟩
    have hlater : (∃ wtx' ∈ rest, c ∈ wtx'.coins) ∧ isWanted c.out = true →
        (∃ wtx' ∈ wtx :: rest, c ∈ wtx'.coins) ∧ isWanted c.out = true := by
      rintro ⟨⟨wtx', hmem, hc⟩, hw⟩
      exact ⟨⟨wtx', .tail _ hmem, hc⟩, hw⟩
    rw [selectTxs] at h
    split_ifs at h
    · exact (ih h).imp id hlater
    · exact hstep h
    · rcases ih h with hmem | hmem
      · exact hstep hmem
      · exact .inr (hlater hmem)

theorem mem_selectCoins {additional : Int}
    (h : c ∈ (W.selectCoins N address additional).1) : c ∈ W.coins ∧ OwnCoin N address c.out.out := by
  rcases mem_selectTxs h with hmem | ⟨⟨wtx, hwtx, hc⟩, hw⟩
  · cases hmem
  · exact ⟨mem_coins hwtx hc, ownCoin_of_isOwnCoin (Bool.and_eq_true _ _ ▸ hw).1⟩

theorem mem_selectAllCoins (h : c ∈ W.selectAllCoins N address) :
    c ∈ W.coins ∧ OwnCoin N address c.out.out := by
  obtain ⟨wtx, hwtx, hc⟩ := List.mem_flatMap.mp h
  obtain ⟨hc, hown⟩ := List.mem_filter.mp hc
  exact ⟨mem_coins (List.mem_filter.mp hwtx).1 hc, ownCoin_of_isOwnCoin hown⟩

theorem mem_availableCoins {isLocked : WalletCoin → Bool}
    (h : c ∈ W.availableCoins isLocked (some coinControl) false) :
    c ∈ W.coins ∧ 0 < c.out.out.nValue ∧
      (coinControl.setSelected ≠ [] → coinControl.fAllowOtherInputs = false →
        ∃ c' ∈ coinControl.setSelected, c'.prevout = c.prevout) := by
  obtain ⟨wtx, hwtx, hc⟩ := List.mem_flatMap.mp h
  obtain ⟨hc, hoffer⟩ := List.mem_filter.mp hc
  simp only [Option.map_some, Option.getD_some, Bool.and_eq_true, Bool.or_eq_true, decide_eq_true_eq] at hoffer
  refine ⟨mem_coins (List.mem_filter.mp hwtx).1 hc, hoffer.1.1.1.2, fun hne hothers => ?_⟩
  have hselected := hoffer.1.1.2
  rw [hothers] at hselected
  rcases hselected with (hnil | hfalse) | hmem
  · exact absurd hnil hne
  · cases hfalse
  · rw [List.contains_iff_mem] at hmem
    obtain ⟨c', hc', heq⟩ := List.mem_map.mp hmem
    exact ⟨c', hc', heq⟩

theorem coinValue_cons (c : WalletCoin) (rest : List WalletCoin) :
    coinValue (c :: rest) = c.out.out.nValue + coinValue rest := by
  rw [coinValue, List.map_cons, totalOut_cons]
  rfl

theorem coinValue_pos {coins : List WalletCoin} (hpos : ∀ c ∈ coins, 0 < c.out.out.nValue) (hne : coins ≠ []) :
    0 < coinValue coins := by
  cases coins with
  | nil => exact absurd rfl hne
  | cons c rest =>
    have hrest : 0 ≤ coinValue rest := totalOut_nonneg fun o ho => by
      obtain ⟨c', hc', rfl⟩ := List.mem_map.mp ho
      exact (hpos c' (.tail _ hc')).le
    have hfirst := hpos c (.head _)
    rw [coinValue_cons]
    omega

end Coins

/-! ### The rounds of the wallet -/

section Rounds

variable {W : TokenWallet}

open TokenWallet

theorem getFee_pos {rate : FeeRate} (h : (0 : Int) < rate) (nSize : Nat) : 0 < FeeRate.getFee rate nSize := by
  rw [FeeRate.getFee]
  split_ifs with hzero
  · exact h
  · have hnonneg : (0 : Int) ≤ rate * nSize / 1000 :=
      Int.ediv_nonneg (Int.mul_nonneg h.le (Int.natCast_nonneg _)) (by decide)
    exact lt_of_le_of_ne hnonneg fun heq => hzero ⟨heq.symm, h⟩

theorem combineChange_scripts {scriptChange : Script} {nChange : Int} {vout vout' : List TxOut}
    (h : combineChange scriptChange nChange vout = some vout') :
    vout'.map TxOut.scriptPubKey = vout.map TxOut.scriptPubKey := by
  induction vout generalizing vout' with
  | nil => cases h
  | cons o rest ih =>
    rw [combineChange] at h
    split_ifs at h
    · rw [← Option.some.inj h]
      rfl
    · obtain ⟨rest', hrest, rfl⟩ := Option.map_eq_some_iff.mp h
      rw [List.map_cons, List.map_cons, ih hrest]

theorem combineChange_eq_none {scriptChange : Script} {nChange : Int} {vout : List TxOut} :
    combineChange scriptChange nChange vout = none ↔ scriptChange ∉ vout.map TxOut.scriptPubKey := by
  induction vout with
  | nil => exact iff_of_true rfl List.not_mem_nil
  | cons o rest ih =>
    rw [combineChange, List.map_cons, List.mem_cons, not_or, ← ih]
    by_cases hscript : scriptChange = o.scriptPubKey
    · rw [if_pos hscript]
      exact iff_of_false (Option.some_ne_none _) (fun h => h.1 hscript)
    · rw [if_neg hscript, Option.map_eq_none_iff]
      exact ⟨fun h => ⟨hscript, h⟩, fun h => h.2⟩

/-- Does the change of a round get an output of its own? -/
def paysChange (W : TokenWallet) (vecSend : List TxOut) (destChange : Destination) (setCoins : List WalletCoin)
    (nFee : Int) : Prop :=
  0 < changeLeft vecSend setCoins nFee ∧
    getScriptForDestination destChange ∉ vecSend.map TxOut.scriptPubKey ∧
    isDust W.minRelayTxFee ⟨changeLeft vecSend setCoins nFee, getScriptForDestination destChange⟩ = false

variable {pos rounds : Nat} {fSign : Bool}

theorem placeChange_cases {destChange : Destination} {before : Script}
    {setCoins : List WalletCoin} {nFee : Int}
    (h : W.placeChange vecSend destChange pos before setCoins nFee = some round) :
    round.setCoins = setCoins ∧ round.nFee = nFee ∧
      (paysChange W vecSend destChange setCoins nFee ∧ pos ≤ vecSend.length ∧
          round.nChangePosInOut = some pos ∧
          round.vout = vecSend.insertIdx pos
            ⟨changeLeft vecSend setCoins nFee, getScriptForDestination destChange⟩ ∨
        ¬paysChange W vecSend destChange setCoins nFee ∧
          round.vout.map TxOut.scriptPubKey = vecSend.map TxOut.scriptPubKey ∧
          (round.nChangePosInOut = none ↔ 0 < changeLeft vecSend setCoins nFee ∧
            getScriptForDestination destChange ∉ vecSend.map TxOut.scriptPubKey)) ∧
      (round.nFeeRet = nFee ∨ 0 < changeLeft vecSend setCoins nFee) := by
  rw [placeChange] at h
  dsimp only at h
  by_cases hchange : 0 < changeLeft vecSend setCoins nFee
  · rw [if_pos hchange] at h
    cases hcombine : combineChange (getScriptForDestination destChange) (changeLeft vecSend setCoins nFee)
      vecSend with
    | some vout =>
      rw [hcombine] at h
      have hmem : ¬getScriptForDestination destChange ∉ vecSend.map TxOut.scriptPubKey := by
        rw [← @combineChange_eq_none _ (changeLeft vecSend setCoins nFee), hcombine]
        exact Option.some_ne_none _
      rw [← Option.some.inj h]
      exact ⟨rfl, rfl, .inr ⟨fun hp => hmem hp.2.1, combineChange_scripts hcombine,
        iff_of_false (Option.some_ne_none _) fun hp => hmem hp.2⟩, .inr hchange⟩
    | none =>
      rw [hcombine] at h
      have hmem := combineChange_eq_none.mp hcombine
      split_ifs at h with hdust hpos
      · rw [← Option.some.inj h]
        refine ⟨rfl, rfl, .inr ⟨fun hp => ?_, rfl, iff_of_true rfl ⟨hchange, hmem⟩⟩, .inr hchange⟩
        exact absurd (hdust.symm.trans hp.2.2) (by decide)
      · rw [← Option.some.inj h]
        exact ⟨rfl, rfl, .inl ⟨⟨hchange, hmem, Bool.eq_false_iff.mpr hdust⟩, Nat.not_lt.mp hpos, rfl, rfl⟩,
          .inr hchange⟩
  · rw [if_neg hchange] at h
    rw [← Option.some.inj h]
    exact ⟨rfl, rfl, .inr ⟨fun hp => hchange hp.1, rfl,
      iff_of_false (Option.some_ne_none _) fun hp => hchange hp.1⟩, .inl rfl⟩

theorem createLoop_spec {avail : List WalletCoin}
    {nFee₀ : Int} {before₀ : Script}
    (hfee : 0 ≤ nFee₀)
    (h : W.createLoop avail vecSend coinControl pos fSign rounds nFee₀ before₀ = some round) :
    ∃ n nFee before setCoins, 0 ≤ nFee ∧
      W.selectCoinsToSpend n avail (totalOut vecSend + nFee) coinControl = some setCoins ∧
      W.placeChange vecSend coinControl.destChange pos before setCoins nFee = some round ∧
      (round.setCoins ≠ [] ∨ 0 < round.nFeeRet) := by
  induction rounds generalizing nFee₀ before₀ with
  | zero => exact absurd h (Option.some_ne_none _).symm
  | succ rounds ih =>
    rw [createLoop] at h
    by_cases hdust : vecSend.any (isDust W.minRelayTxFee) = true
    · rw [if_pos hdust] at h
      exact absurd h (Option.some_ne_none _).symm
    · rw [if_neg hdust] at h
      cases hselect : W.selectCoinsToSpend rounds avail (totalOut vecSend + nFee₀) coinControl with
      | none =>
        rw [hselect] at h
        exact absurd h (Option.some_ne_none _).symm
      | some setCoins =>
        rw [hselect] at h
        dsimp only at h
        cases hplace : W.placeChange vecSend coinControl.destChange pos before₀ setCoins nFee₀ with
        | none =>
          rw [hplace] at h
          exact absurd h (Option.some_ne_none _).symm
        | some turn =>
          rw [hplace] at h
          dsimp only at h
          have hnonneg : 0 ≤ max 0 (W.getMinimumFee (W.signedSize turn.setCoins turn.vout)) :=
            le_max_left _ _
          generalize (if fSign = true then
            (W.sign ((W.arrange turn.setCoins).map WalletCoin.prevout) turn.vout).isSome
            else W.dummySigns turn.setCoins) = signSuccess at h
          split_ifs at h with hsign hsize hfree hrelay henough
          · obtain rfl := Option.some.inj h
            refine ⟨rounds, nFee₀, before₀, setCoins, hfee, hselect, hplace, .inl fun hnil => ?_⟩
            rw [hnil, W.goesFree_nil] at hfree
            exact Bool.false_ne_true hfree
          · obtain rfl := Option.some.inj h
            have hpos := getFee_pos W.minRelayTxFee_pos (W.signedSize turn.setCoins turn.vout)
            exact ⟨rounds, nFee₀, before₀, setCoins, hfee, hselect, hplace, .inr (by omega)⟩
          · exact ih hnonneg h

theorem mem_selectCoinsToSpend {n : Nat} {avail setCoins : List WalletCoin} {target : Int} (h : W.selectCoinsToSpend n avail target coinControl = some setCoins) :
    ∀ c ∈ setCoins, c ∈ avail ∨ c ∈ coinControl.setSelected := by
  intro c hc
  rw [selectCoinsToSpend] at h
  dsimp only at h
  split_ifs at h
  · exact .inl (Option.some.inj h ▸ hc)
  · exact .inr (Option.some.inj h ▸ hc)
  · obtain ⟨picked, hpicked, rfl⟩ := Option.map_eq_some_iff.mp h
    rcases List.mem_append.mp hc with hc | hc
    · exact .inl (List.mem_filter.mp (W.selectCoinsMinConf_subset hpicked hc)).1
    · exact .inr hc

theorem createTransaction_loop {isLocked : WalletCoin → Bool}
    (h : W.createTransaction rounds isLocked vecSend coinControl pos fSign = some round) :
    0 ≤ totalOut vecSend ∧
      W.createLoop (W.availableCoins isLocked (some coinControl) false) vecSend coinControl pos fSign rounds 0 [] =
        some round := by
  rw [createTransaction] at h
  split_ifs at h with hneg
  rw [not_or] at hneg
  cases hloop : W.createLoop (W.availableCoins isLocked (some coinControl) false) vecSend coinControl pos fSign
    rounds 0 [] with
  | none =>
    rw [hloop] at h
    cases h
  | some turn =>
    rw [hloop] at h
    dsimp only at h
    split_ifs at h
    refine ⟨totalOut_nonneg fun o ho => ?_, h⟩
    by_contra hlt
    exact hneg.1 (List.any_eq_true.mpr ⟨o, ho, decide_eq_true (by omega)⟩)

/-- **The transaction of selected coins.** It spends coins among those selected, of some
value, and its outputs are those asked for, with or without one for the change behind them. -/
theorem createTransaction_selected {isLocked : WalletCoin → Bool}
    {dest : Destination} {selected : List WalletCoin} (hne : selected ≠ [])
    (h : W.createTransaction rounds isLocked vecSend ⟨dest, selected, false⟩ vecSend.length fSign = some round) :
    (∀ c ∈ round.setCoins, c ∈ W.coins ∧ ∃ c' ∈ selected, c'.prevout = c.prevout) ∧
      round.setCoins ≠ [] ∧ 0 < coinValue round.setCoins ∧
      (round.vout.map TxOut.scriptPubKey = vecSend.map TxOut.scriptPubKey ∨
        getScriptForDestination dest ∉ vecSend.map TxOut.scriptPubKey ∧
          round.vout.map TxOut.scriptPubKey =
            vecSend.map TxOut.scriptPubKey ++ [getScriptForDestination dest]) := by
  obtain ⟨htotal, hloop⟩ := createTransaction_loop h
  obtain ⟨n, nFee, before, setCoins, hfee, hselect, hplace, hdone⟩ := createLoop_spec le_rfl hloop
  have hoffer : setCoins = W.availableCoins isLocked (some ⟨dest, selected, false⟩) false ∧
      totalOut vecSend + nFee ≤ coinValue setCoins := by
    rw [selectCoinsToSpend, if_pos ⟨hne, rfl⟩] at hselect
    split_ifs at hselect with hle
    cases hselect
    exact ⟨rfl, hle⟩
  obtain ⟨hcoins, -, hchange, hret⟩ := placeChange_cases hplace
  have hmem : ∀ c ∈ setCoins, c ∈ W.coins ∧ 0 < c.out.out.nValue ∧ ∃ c' ∈ selected, c'.prevout = c.prevout := by
    intro c hc
    rw [hoffer.1] at hc
    obtain ⟨hw, hpos, hsel⟩ := mem_availableCoins hc
    exact ⟨hw, hpos, hsel hne rfl⟩
  have hvalue : 0 < coinValue setCoins := by
    rcases hdone with hnil | hpaid
    · rw [hcoins] at hnil
      exact coinValue_pos (fun c hc => (hmem c hc).2.1) hnil
    · have hle := hoffer.2
      rcases hret with hsame | hleft
      · omega
      · rw [changeLeft] at hleft
        omega
  rw [hcoins]
  refine ⟨fun c hc => ⟨(hmem c hc).1, (hmem c hc).2.2⟩, ?_, hvalue, ?_⟩
  · rintro rfl
    exact absurd hvalue (lt_irrefl _)
  · rcases hchange with ⟨hpays, -, -, hvout⟩ | ⟨-, hvout, -⟩
    · refine .inr ⟨hpays.2.1, ?_⟩
      rw [hvout, List.insertIdx_length_self, List.map_append]
      rfl
    · exact .inl hvout

end Rounds

/-! ### The inputs of what is built -/

section Inputs

variable {N : TokenNetwork} {W : TokenWallet} {D : ParseContext} {address : List UInt8}

open TokenWallet

theorem assemble_spec {vin : List OutPoint} {vout : List TxOut} {tx : Transaction}
    (h : W.assemble vin vout = some tx) : tx.vin.map TxIn.prevout = vin ∧ tx.vout = vout := by
  obtain ⟨scriptSig, -, rfl⟩ := Option.map_eq_some_iff.mp h
  refine ⟨?_, rfl⟩
  rw [List.map_map]
  exact List.zipIdx_map_fst 0 vin

theorem mapM_view {ins : List TxIn} {coins : List WalletCoin}
    (hcoins : ∀ c ∈ coins, D.view c.prevout = some c.out.out)
    (hins : ins.map TxIn.prevout = coins.map WalletCoin.prevout) :
    (ins.mapM fun i => D.view i.prevout) = some (coins.map (·.out.out)) := by
  induction coins generalizing ins with
  | nil =>
    obtain rfl := List.map_eq_nil_iff.mp hins
    rfl
  | cons c rest ih =>
    cases ins with
    | nil => cases hins
    | cons i ins =>
      obtain ⟨hi, hrest⟩ := List.cons.inj hins
      rw [List.mapM_cons, hi, hcoins c List.mem_cons_self,
        ih (fun c' hc' => hcoins c' (List.mem_cons_of_mem _ hc')) hrest]
      rfl

theorem sumInputs_own {spent : List TxOut} (hown : ∀ o ∈ spent, OwnCoin N address o) (v : Int) :
    sumInputs N spent [(address, v)] = .ok [(address, v + totalOut spent)] := by
  induction spent generalizing v with
  | nil => rw [sumInputs, totalOut_nil, Int.add_zero]
  | cons o rest ih =>
    rw [sumInputs, (hown o List.mem_cons_self).source]
    dsimp only
    rw [addInput, if_pos rfl, ih fun o' ho' => hown o' (List.mem_cons_of_mem _ ho'), totalOut_cons,
      Int.add_assoc]

theorem identifySender_own {spent : List TxOut} (hown : ∀ o ∈ spent, OwnCoin N address o)
    (hpos : 0 < totalOut spent) (cls : EncodingClass) : identifySender N cls spent = .ok address := by
  cases spent with
  | nil => exact absurd hpos (lt_irrefl _)
  | cons o rest =>
    rw [identifySender]
    by_cases hcls : cls = .classC
    · rw [if_pos hcls]
      exact (hown o (.head _)).source _
    · rw [if_neg hcls, sumInputs, (hown o List.mem_cons_self).source]
      dsimp only
      rw [addInput, sumInputs_own fun o' ho' => hown o' (List.mem_cons_of_mem _ ho'), ← totalOut_cons]
      dsimp only [largestInput, List.foldl]
      rw [if_pos hpos]

theorem ownCoin_of_prevout (hview : ∀ c ∈ W.coins, D.view c.prevout = some c.out.out) {selected : List WalletCoin}
    (hselected : ∀ c ∈ selected, c ∈ W.coins ∧ OwnCoin N address c.out.out) (hc : c ∈ W.coins)
    (hsame : ∃ c' ∈ selected, c'.prevout = c.prevout) : OwnCoin N address c.out.out := by
  obtain ⟨c', hc', heq⟩ := hsame
  obtain ⟨hw, hown⟩ := hselected c' hc'
  have hout := hview c' hw
  rw [heq, hview c hc, Option.some.injEq] at hout
  rwa [hout]

end Inputs

end Rapids.Payload
