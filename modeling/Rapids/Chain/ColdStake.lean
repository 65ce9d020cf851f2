import Rapids.Chain.ConnectSound

/-!
# Rapids.Chain.ColdStake

**What a delegated stake leaves to its owner.**

`CheckColdStake` binds the outputs of a coinstake to the cold-staking script,
except the marker, a dev fund output in second place, and the last output. So
what the owner gets is the total less these two (`paidTo_eq`). The reward check
bounds the total from above only, and the check of the last output applies from
four outputs on: neither makes the two outputs affordable.
-/

namespace Rapids.Chain

open Rapids.Lib

/-- `GetScriptForStakeDelegation` -/
def getScriptForStakeDelegation (stakingKey spendingKey : Vector UInt8 20) : Script :=
  [opDup, opHash160, opRot, 0x63, opCheckColdStakeVerify, 20] ++ stakingKey.toList ++
    [0x67, 20] ++ spendingKey.toList ++ [0x68, opEqualVerify, opCheckSig]

/-- The value paid to a script. -/
def paidTo (script : Script) (outs : List TxOut) : Int :=
  totalOut (outs.filter fun o => o.scriptPubKey = script)

variable (devScript : Script) (outs : List TxOut)

/-- What a dev fund output in second place gets. -/
def devPayment : Int :=
  match outs[1]? with
  | some o => if o.scriptPubKey = devScript then o.nValue else 0
  | none => 0

/-- What the last output gets if it pays neither the script nor, as the second
output, the dev fund. -/
def freePayment (script : Script) (outs : List TxOut) : Int :=
  match outs.getLast? with
  | some o =>
    if o.scriptPubKey = script ∨ outs.length = 2 ∧ o.scriptPubKey = devScript then 0 else o.nValue
  | none => 0

/-- The value of the coins that the coinstake of a block spent. -/
def stakedValue (undo : BlockUndo) : Int := totalOut ((undo.headD []).map Coin.out)

/-- A block whose coinstake spends cold-staking coins of one script by the
staker's branch, connected by a synced node. -/
structure ColdStakeBlock (P : ChainParams) (N : NodeState) (nHeight hashPrev : Nat) (b : CBlock)
    (s : ChainTip) (tx : Transaction) (script : Script) (undo : BlockUndo) (s' : ChainTip) :
    Prop where
  connects : connectBlock P N nHeight hashPrev b s = some (some undo, s')
  coinstake : b.vtx[1]? = some tx
  height : nHeight ≠ 0
  synced : N.synced = true ∧ N.initialBlockDownload = false
  delegated : isPayToColdStaking script = true
  spends : ∀ c ∈ undo.headD [], c.out.scriptPubKey = script
  cold : tx.checkColdStake (getScriptForDestination P.devFund) script = true

/-! ### The outputs of a cold stake -/

theorem paidTo_append (script : Script) (xs ys : List TxOut) :
    paidTo script (xs ++ ys) = paidTo script xs + paidTo script ys := by
  simp [paidTo]

theorem paidTo_singleton (script : Script) (o : TxOut) :
    paidTo script [o] = if o.scriptPubKey = script then o.nValue else 0 := by
  by_cases h : o.scriptPubKey = script <;> simp [paidTo, h]

theorem paidTo_of_all {script : Script} {outs : List TxOut}
    (h : ∀ o ∈ outs, o.scriptPubKey = script) : paidTo script outs = totalOut outs := by
  rw [paidTo, List.filter_eq_self.mpr fun o ho => by simp [h o ho]]

theorem paidTo_of_none {script : Script} {outs : List TxOut}
    (h : outs.any (fun o => o.scriptPubKey = script) = false) : paidTo script outs = 0 := by
  rw [paidTo, List.filter_eq_nil_iff.mpr, totalOut_nil]
  intro o ho
  simpa using List.any_eq_false.mp h o ho

theorem paidTo_eq {devScript script : Script} {tx : Transaction} (hdev : devScript ≠ script)
    (hempty : script ≠ []) (h : tx.checkColdStake devScript script = true) :
    paidTo script tx.vout =
      totalOut tx.vout - devPayment devScript tx.vout - freePayment devScript script tx.vout := by
  simp only [Transaction.checkColdStake, Bool.and_eq_true, List.all_eq_true, decide_eq_true_eq] at h
  obtain ⟨⟨hstake, -⟩, hmiddle⟩ := h
  unfold Transaction.isCoinStake at hstake
  split at hstake
  next i ins marker second rest hvin hvout =>
    simp only [TxOut.isEmpty, Bool.and_eq_true, decide_eq_true_eq] at hstake
    obtain ⟨-, hmarker, hmarkerScript⟩ := hstake
    have hmarkerPaid : paidTo script [marker] = 0 := by
      rw [paidTo_singleton, hmarkerScript, if_neg (Ne.symm hempty)]
    -- the outputs behind the marker: the second, those between, and the last
    rcases List.eq_nil_or_concat rest with rfl | ⟨between, last, rfl⟩
    · -- the second output is the last one
      rw [hvout, show [marker, second] = [marker] ++ [second] from rfl, paidTo_append, hmarkerPaid,
        paidTo_singleton]
      simp only [devPayment, freePayment, List.singleton_append, List.getElem?_cons_succ,
        List.getElem?_cons_zero, List.getLast?_cons_cons, List.getLast?_singleton, List.length_cons,
        List.length_nil, totalOut_cons, totalOut_nil, hmarker]
      by_cases hs : second.scriptPubKey = script
      · simp [hs, Ne.symm hdev]
      · by_cases hd : second.scriptPubKey = devScript <;> simp [hs, hd, hdev]
    · have hvout' : tx.vout = [marker] ++ [second] ++ between ++ [last] := by
        rw [hvout, List.concat_eq_append]
        simp
      have hlast : freePayment devScript script tx.vout =
          if last.scriptPubKey = script then 0 else last.nValue := by
        have hlen : tx.vout.length ≠ 2 := by
          rw [hvout']
          simp
        simp only [freePayment, hvout', List.getLast?_concat]
        rw [← hvout']
        simp [hlen]
      have hdevPay : devPayment devScript tx.vout =
          if second.scriptPubKey = devScript then second.nValue else 0 := by
        simp [devPayment, hvout']
      have hkey : tx.keyIndex devScript = if second.scriptPubKey = devScript then 2 else 1 := by
        simp [Transaction.keyIndex, hvout']
      have hinit : tx.vout.dropLast = [marker] ++ [second] ++ between := by
        rw [hvout', List.dropLast_concat]
      rw [hkey, hinit] at hmiddle
      have hbetween : paidTo script between = totalOut between := by
        refine paidTo_of_all fun o ho => hmiddle o ?_
        split_ifs <;> simp [ho]
      have hsecond : paidTo script [second] =
          second.nValue - if second.scriptPubKey = devScript then second.nValue else 0 := by
        rw [paidTo_singleton]
        split_ifs with h1 h2 h2
        · exact absurd (h2.symm.trans h1) hdev
        · omega
        · omega
        · refine absurd (hmiddle second ?_) h1
          simp [h2]
      rw [hlast, hdevPay, hvout', paidTo_append, paidTo_append, paidTo_append, hmarkerPaid, hsecond,
        hbetween, paidTo_singleton]
      simp only [totalOut_append, totalOut_cons, totalOut_nil, hmarker]
      split_ifs <;> omega
  next => simp at hstake

/-! ### When the owner keeps the stake -/

/-- The stake is worth nothing; or some output pays the owner, and the dev fund
output and a foreign last output get no more than the coinstake pays out beyond
its inputs. -/
def KeepsStake (script : Script) (tx : Transaction) (staked : Int) : Prop :=
  staked ≤ 0 ∨
    tx.vout.any (fun o => o.scriptPubKey = script) = true ∧
      devPayment devScript tx.vout + freePayment devScript script tx.vout ≤
        totalOut tx.vout - staked

section
variable {P : ChainParams} {N : NodeState} {nHeight hashPrev : Nat} {b : CBlock} {s s' : ChainTip}
  {tx : Transaction} {script : Script} {undo : BlockUndo}

theorem ColdStakeBlock.outputs_nonneg (h : ColdStakeBlock P N nHeight hashPrev b s tx script undo s') :
    ∀ o ∈ tx.vout, 0 ≤ o.nValue := by
  have hconnect := h.connects
  unfold connectBlock at hconnect
  split_ifs at hconnect with hcheck
  obtain ⟨cold, htxs⟩ := checkBlock_transactions hcheck
  exact checkTransaction_nonneg (htxs tx (List.mem_of_getElem? h.coinstake))

theorem ColdStakeBlock.script_ne (h : ColdStakeBlock P N nHeight hashPrev b s tx script undo s') :
    getScriptForDestination P.devFund ≠ script ∧ script ≠ [] := by
  have hscript := h.delegated
  constructor
  · rintro rfl
    rw [isPayToColdStaking_destination] at hscript
    cases hscript
  · rintro rfl
    cases hscript

end

/-! ### Stakes that are kept, and one that is not -/

/-- The script of a delegation. -/
def delegation : Script :=
  getScriptForStakeDelegation (Vector.replicate 20 1) (Vector.replicate 20 2)

/-- A view with one delegated coin of 10 coins. -/
def delegatedTip : ChainTip := tipWith ⟨⟨1000000000, delegation⟩, 5, false, false⟩

/-- The empty coinbase of a proof-of-stake block. -/
def emptyCoinbase : Transaction := ⟨99, [⟨⟨0, 4294967295⟩, [1, 1]⟩], [⟨0, []⟩]⟩

/-- A coinstake of the coin: marker, dev fund, and further outputs. -/
def coldStake : Transaction :=
  ⟨100, [⟨⟨7, 0⟩, [1]⟩],
    [⟨0, []⟩, ⟨1783500, getScriptForDestination mainParams.devFund⟩] ++ outs⟩

def coldStakeBlock : CBlock := ⟨1000, [emptyCoinbase, coldStake outs]⟩

/-- Stake and stake reward to the owner, the masternode subsidy to a masternode. -/
def honestOutputs : List TxOut := [⟨1003567000, delegation⟩, ⟨12484500, [0x51]⟩]

/-- The stake and all of the reward to another script. -/
def divertedOutputs : List TxOut := [⟨1016051500, [0x51]⟩]

theorem coldStakeBlock_of_connects {outs : List TxOut}
    (h : (connectBlock mainParams syncedNode 300 999 (coldStakeBlock outs) delegatedTip).map
      (fun r => r.1.map fun undo => (undo.headD []).map Coin.out) =
        some (some [⟨1000000000, delegation⟩]))
    (hcold : (coldStake outs).checkColdStake (getScriptForDestination mainParams.devFund)
      delegation = true) :
    ∃ undo s', ColdStakeBlock mainParams syncedNode 300 999 (coldStakeBlock outs) delegatedTip
      (coldStake outs) delegation undo s' ∧ stakedValue undo = 1000000000 := by
  obtain ⟨⟨u, s'⟩, hconnect, hu⟩ := Option.map_eq_some_iff.mp h
  obtain ⟨undo, rfl, hcoins⟩ := Option.map_eq_some_iff.mp hu
  refine ⟨undo, s', ⟨hconnect, rfl, by decide, ⟨rfl, rfl⟩, by decide, fun c hc => ?_, hcold⟩, ?_⟩
  · have hout : c.out ∈ (undo.headD []).map Coin.out := List.mem_map_of_mem hc
    rw [hcoins, List.mem_singleton] at hout
    rw [hout]
  · rw [stakedValue, hcoins]
    rfl

end Rapids.Chain
