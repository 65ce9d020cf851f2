import Rapids.Payload.ParseSound

/-!
# Rapids.Payload.MarkerSearch

**The fast search for markers** (`GetEncodingClass`, `tokencore/tokencore.cpp`).

Scripts are not taken apart before their hexadecimal text has been looked at: on the
main network a transaction is dropped at once unless one of its scripts is that of the
Exodus address, or the text of one contains the marker of class C. Only then each output
is examined by itself.

`examineOutputs` is that examination, without the early exit. Dropping is sound because
what it could find is in the text. What a script pushes stands in it as it is
(`scriptOps_infix`), so a pushed marker can be read off. And the type of an output is
told from its operations, but whom it pays from its bytes: an output that has the type
and pays the Exodus address can only be the one script (`exodus_script`).
-/

namespace Rapids.Payload

open Rapids.Lib Rapids.Chain

variable {s : Script}

/-! ### Output by output -/

/-- What the loop over the outputs has found. -/
structure Markers where
  hasExodus : Bool
  hasMultisig : Bool
  hasOpReturn : Bool

/-- One round of the loop. -/
def examineOutput (N : TokenNetwork) (nulldataBlock nBlock : Nat) (s : Script) (found : Markers) : Markers :=
  match safeSolver s with
  | none => found
  | some outType =>
    if !isAllowedOutputType nulldataBlock nBlock outType then found
    else
      match outType with
      | .pubKeyHash =>
        match extractDestination N.hash160 s with
        | none => found
        | some dest => if dest = N.exodusAddress then { found with hasExodus := true } else found
      | .multisig => { found with hasMultisig := true }
      | .nullData =>
        match getScriptPushes s with
        | some (first :: _) =>
          if omMarker.isPrefixOf first then { found with hasOpReturn := true } else found
        | _ => found
      | _ => found

/-- The class that belongs to what has been found. -/
def Markers.encodingClass (found : Markers) : EncodingClass :=
  if found.hasOpReturn then .classC
  else if found.hasExodus && found.hasMultisig then .classB
  else if found.hasExodus then .classA
  else .noMarker

/-- `GetEncodingClass` without the early exit. -/
def examineOutputs (N : TokenNetwork) (nulldataBlock : Nat) (vout : List TxOut) (nBlock : Nat) :
    EncodingClass :=
  (vout.foldl (fun found o => examineOutput N nulldataBlock nBlock o.scriptPubKey found)
    ⟨false, false, false⟩).encodingClass

section Flags

variable {N : TokenNetwork} {nulldataBlock nBlock : Nat}

/-- Does an output pay the Exodus address? -/
def paysExodus (N : TokenNetwork) (nulldataBlock nBlock : Nat) (s : Script) : Bool :=
  countedType nulldataBlock nBlock s = some .pubKeyHash &&
    extractDestination N.hash160 s = some N.exodusAddress

theorem examineOutput_eq (s : Script) (found : Markers) :
    examineOutput N nulldataBlock nBlock s found =
      ⟨found.hasExodus || paysExodus N nulldataBlock nBlock s,
        found.hasMultisig || decide (countedType nulldataBlock nBlock s = some .multisig),
        found.hasOpReturn || isMarked nulldataBlock nBlock s⟩ := by
  obtain ⟨hasExodus, hasMultisig, hasOpReturn⟩ := found
  rw [examineOutput, paysExodus, isMarked, countedType]
  cases hsolved : safeSolver s with
  | none => simp
  | some outType =>
    cases hallowed : isAllowedOutputType nulldataBlock nBlock outType with
    | false => simp [Option.filter, hallowed]
    | true =>
      cases outType with
      | pubKey => simp [Option.filter, hallowed]
      | scriptHash => simp [Option.filter, hallowed]
      | multisig => simp [Option.filter, hallowed]
      | pubKeyHash =>
        cases extractDestination N.hash160 s with
        | none => simp [Option.filter, hallowed]
        | some dest =>
          by_cases hd : dest = N.exodusAddress <;> simp [Option.filter, hallowed, hd]
      | nullData =>
        rw [carriedPushes]
        rcases getScriptPushes s with _ | _ | ⟨first, rest⟩
        · simp [Option.filter, hallowed]
        · simp [Option.filter, hallowed]
        · by_cases hm : omMarker.isPrefixOf first = true <;> simp [Option.filter, hallowed, hm]

theorem foldl_examineOutput (vout : List TxOut) (found : Markers) :
    vout.foldl (fun found o => examineOutput N nulldataBlock nBlock o.scriptPubKey found) found =
      ⟨found.hasExodus || vout.any fun o => paysExodus N nulldataBlock nBlock o.scriptPubKey,
        found.hasMultisig || vout.any fun o => countedType nulldataBlock nBlock o.scriptPubKey = some .multisig,
        found.hasOpReturn || vout.any fun o => isMarked nulldataBlock nBlock o.scriptPubKey⟩ := by
  induction vout generalizing found with
  | nil => simp
  | cons o rest ih =>
    rw [List.foldl_cons, ih, examineOutput_eq]
    simp [Bool.or_assoc]

theorem getEncodingClass_of_examined {vout : List TxOut} (h : examineClosely N vout = true) :
    getEncodingClass N nulldataBlock vout nBlock = examineOutputs N nulldataBlock vout nBlock := by
  rw [getEncodingClass, examineOutputs, foldl_examineOutput, h]
  simp [Markers.encodingClass, paysExodus]

end Flags

/-! ### What a script pushes stands in it -/

theorem takeBytes_eq_some {size : Nat} {bytes : List UInt8} {read : List UInt8 × List UInt8}
    (h : takeBytes size bytes = some read) : read.1 ++ read.2 = bytes := by
  rw [takeBytes] at h
  split_ifs at h
  rw [← Option.some.inj h]
  exact List.take_append_drop size bytes

theorem readOperand_eq_some {opcode opcode' : UInt8} {sized : Option (List UInt8 × Script)}
    {data rest : List UInt8} (h : readOperand opcode sized = some (opcode', data, rest)) :
    opcode' = opcode ∧ ∃ size, sized = some (size, data ++ rest) := by
  obtain ⟨⟨size, tail⟩, hsize, hread⟩ := Option.bind_eq_some_iff.mp h
  obtain ⟨read, htake, heq⟩ := Option.map_eq_some_iff.mp hread
  obtain ⟨rfl, hrest⟩ := Prod.mk.inj heq
  obtain ⟨rfl, rfl⟩ := Prod.mk.inj hrest
  exact ⟨rfl, size, by rw [hsize, takeBytes_eq_some htake]⟩

/-- An operation in the bytes of its script. Only opcodes up to 78 have anything behind them. -/
theorem getOp_eq_some {opcode : UInt8} {data rest : List UInt8}
    (h : getOp s = some (opcode, data, rest)) :
    ∃ size, s = opcode :: (size ++ (data ++ rest)) ∧ (data ≠ [] → opcode ≤ 78) ∧ (78 < opcode → size = []) := by
  -- the operand behind so many bytes of size
  have hsized : ∀ {op : UInt8} {tail : List UInt8} {n : Nat}, op ≤ 78 →
      readOperand op (takeBytes n tail) = some (opcode, data, rest) →
      ∃ size, op :: tail = opcode :: (size ++ (data ++ rest)) ∧ (data ≠ [] → opcode ≤ 78) ∧
        (78 < opcode → size = []) := by
    intro op tail n hle h
    obtain ⟨rfl, size, hsize⟩ := readOperand_eq_some h
    refine ⟨size, by rw [← takeBytes_eq_some hsize], fun _ => hle, fun hlt => ?_⟩
    rw [UInt8.lt_iff_toNat_lt] at hlt
    rw [UInt8.le_iff_toNat_le] at hle
    omega
  cases s with
  | nil => cases h
  | cons op tail =>
    rw [getOp] at h
    split_ifs at h with h76 h77 h78 h79
    · obtain ⟨rfl, size, hsize⟩ := readOperand_eq_some h
      obtain ⟨-, rfl⟩ := Prod.mk.inj (Option.some.inj hsize)
      refine ⟨[], rfl, fun _ => ?_, fun _ => rfl⟩
      have h76' : (76 : UInt8).toNat = 76 := rfl
      have h78' : (78 : UInt8).toNat = 78 := rfl
      rw [UInt8.lt_iff_toNat_lt] at h76
      rw [UInt8.le_iff_toNat_le]
      omega
    · exact hsized (by rw [h77]; decide) h
    · exact hsized (by rw [h78]; decide) h
    · exact hsized (by rw [h79]; decide) h
    · obtain ⟨rfl, hrest⟩ := Prod.mk.inj (Option.some.inj h)
      obtain ⟨rfl, rfl⟩ := Prod.mk.inj hrest
      exact ⟨[], rfl, fun hne => absurd rfl hne, fun _ => rfl⟩

theorem scriptOps_eq_cons {op : UInt8 × List UInt8} {ops : List (UInt8 × List UInt8)}
    (h : scriptOps s = some (op :: ops)) :
    ∃ size rest, s = op.1 :: (size ++ (op.2 ++ rest)) ∧ scriptOps rest = some ops ∧
      (op.2 ≠ [] → op.1 ≤ 78) ∧ (78 < op.1 → size = []) := by
  cases hop : getOp s with
  | none =>
    cases s with
    | nil => exact absurd (Option.some.inj h) (List.cons_ne_nil _ _).symm
    | cons b tail =>
      rw [scriptOps, List.length_cons, opsLoop, hop] at h
      cases h
  | some read =>
    obtain ⟨opcode, data, rest⟩ := read
    rw [scriptOps_of_getOp hop] at h
    obtain ⟨ops', hops, heq⟩ := Option.map_eq_some_iff.mp h
    obtain ⟨rfl, rfl⟩ := List.cons.inj heq
    obtain ⟨size, hs, hdata, hsize⟩ := getOp_eq_some hop
    exact ⟨size, rest, hs, hops, hdata, hsize⟩

theorem scriptOps_infix {ops : List (UInt8 × List UInt8)} (h : scriptOps s = some ops) :
    ∀ op ∈ ops, op.2 <:+: s := by
  induction ops generalizing s with
  | nil =>
    intro op hop
    cases hop
  | cons first ops ih =>
    intro op hop
    obtain ⟨size, rest, hs, hrest, -, -⟩ := scriptOps_eq_cons h
    rcases List.mem_cons.mp hop with rfl | hop
    · exact ⟨op.1 :: size, rest, by rw [hs]; simp⟩
    · have hsuffix : rest <:+ s := ⟨first.1 :: (size ++ first.2), by rw [hs]; simp⟩
      exact (ih hrest op hop).trans hsuffix.isInfix

/-! ### The marker of class C -/

theorem marker_in_text (h : (carriedPushes s).isSome = true) :
    ((hexStr s).tails.any (hexStr omMarker).isPrefixOf) = true := by
  rw [carriedPushes] at h
  cases hpushes : getScriptPushes s with
  | none =>
    rw [hpushes] at h
    cases h
  | some pushes =>
    rw [hpushes] at h
    cases pushes with
    | nil => cases h
    | cons first rest =>
      dsimp only at h
      by_cases hmarker : omMarker.isPrefixOf first = true
      · obtain ⟨ops, hops, hfirst⟩ := Option.map_eq_some_iff.mp hpushes
        have hmem : first ∈ (ops.filter fun op => op.1 ≤ 78).map Prod.snd := by
          rw [hfirst]
          exact .head _
        obtain ⟨op, hop, rfl⟩ := List.mem_map.mp hmem
        -- the push stands in the script, and begins with the marker
        obtain ⟨before, behind, hs⟩ := scriptOps_infix hops op (List.mem_filter.mp hop).1
        obtain ⟨tail, htail⟩ := List.isPrefixOf_iff_prefix.mp hmarker
        rw [List.any_eq_true]
        refine ⟨hexStr (op.2 ++ behind), (List.mem_tails _ _).mpr ⟨hexStr before, ?_⟩, ?_⟩
        · rw [← hs, hexStr, hexStr, hexStr, ← List.flatMap_append, List.append_assoc]
        · rw [← htail, hexStr, hexStr, List.append_assoc, List.flatMap_append]
          exact List.isPrefixOf_iff_prefix.mpr (List.prefix_append _ _)
      · rw [if_neg hmarker] at h
        cases h

/-! ### The Exodus output -/

/-- The operations of a script to the hash of a key, as the solver takes them. -/
theorem safeSolver_eq_pubKeyHash (h : safeSolver s = some .pubKeyHash) :
    ∃ opcode hash, scriptOps s = some [(118, []), (169, []), (opcode, hash), (136, []), (172, [])] ∧
      hash.length = 20 := by
  rw [safeSolver] at h
  split_ifs at h
  · exact absurd (Option.some.inj h) (by decide)
  · exact absurd (Option.some.inj h) (by decide)
  obtain ⟨ops, hops, hmatch⟩ := Option.bind_eq_some_iff.mp h
  rw [hops]
  unfold matchTemplates at hmatch
  split at hmatch
  · exact absurd (Option.some.inj hmatch) (by decide)
  · split_ifs at hmatch
    exact absurd (Option.some.inj hmatch) (by decide)
  · split_ifs at hmatch with hlen
    exact ⟨_, _, rfl, hlen⟩
  · split_ifs at hmatch
    exact absurd (Option.some.inj hmatch) (by decide)

theorem pubKeyHash_begins (h : safeSolver s = some .pubKeyHash) :
    ∃ opcode rest, s = 118 :: 169 :: opcode :: rest ∧ opcode ≤ 78 := by
  obtain ⟨opcode, hash, hops, hlen⟩ := safeSolver_eq_pubKeyHash h
  obtain ⟨size, rest, rfl, hops, -, hsize⟩ := scriptOps_eq_cons hops
  obtain ⟨size', rest', rfl, hops, -, hsize'⟩ := scriptOps_eq_cons hops
  obtain ⟨size'', rest'', rfl, -, hdata, -⟩ := scriptOps_eq_cons hops
  have hne : hash ≠ [] := by
    intro hnil
    rw [hnil] at hlen
    cases hlen
  exact ⟨opcode, _, by rw [hsize (by decide : (78 : UInt8) < 118), hsize' (by decide : (78 : UInt8) < 169)]; rfl,
    hdata hne⟩

theorem toList_uint160 {hash : List UInt8} (h : hash.length = 20) : (uint160 hash).toList = hash := by
  have hvector : (Vector.mk hash.toArray h).toList = hash := rfl
  rw [← hvector, uint160_toList]

theorem matchPayToPubkeyHash_eq_some {hash : List UInt8} (h : matchPayToPubkeyHash s = some hash) :
    s = [opDup, opHash160, 20] ++ hash ++ [opEqualVerify, opCheckSig] ∧ hash.length = 20 := by
  rw [matchPayToPubkeyHash] at h
  split_ifs at h with hmatch
  simp only [Bool.and_eq_true, decide_eq_true_eq] at hmatch
  obtain ⟨⟨⟨⟨⟨hlen, h0⟩, h1⟩, h2⟩, h23⟩, h24⟩ := hmatch
  cases h
  have hhash : ((s.drop 3).take 20).length = 20 := by
    rw [List.length_take, List.length_drop, hlen]
    rfl
  refine ⟨?_, hhash⟩
  have hbegin : s.take 3 = [opDup, opHash160, 20] := by
    obtain ⟨a, b, c, habc⟩ := List.length_eq_three.mp (show (s.take 3).length = 3 by simp [hlen])
    have hget : ∀ i, i < 3 → [a, b, c][i]? = s[i]? := fun i hi => by
      rw [← habc, List.getElem?_take_of_lt hi]
    have ha := (hget 0 (by omega)).trans h0
    have hb := (hget 1 (by omega)).trans h1
    have hc := (hget 2 (by omega)).trans h2
    simp at ha hb hc
    rw [habc, ha, hb, hc]
  have hend : s.drop 23 = [opEqualVerify, opCheckSig] := by
    obtain ⟨a, b, hab⟩ := List.length_eq_two.mp (show (s.drop 23).length = 2 by simp [hlen])
    have hget : ∀ i, [a, b][i]? = s[23 + i]? := fun i => by rw [← hab, List.getElem?_drop]
    have ha := (hget 0).trans h23
    have hb := (hget 1).trans h24
    simp at ha hb
    rw [hab, ha, hb]
  rw [← hbegin, ← hend, List.append_assoc, ← List.drop_drop (i := 20), List.take_append_drop,
    List.take_append_drop]

theorem exodus_script {N : TokenNetwork} {nulldataBlock nBlock : Nat}
    (h : paysExodus N nulldataBlock nBlock s = true) : s = getScriptForDestination N.exodusAddress := by
  rw [paysExodus, Bool.and_eq_true, decide_eq_true_eq, decide_eq_true_eq] at h
  obtain ⟨hcounted, hdest⟩ := h
  have hsolved : safeSolver s = some .pubKeyHash := (Option.filter_eq_some_iff.mp hcounted).1
  obtain ⟨opcode, rest, hs, hle⟩ := pubKeyHash_begins hsolved
  -- the other kinds of script begin otherwise
  have hpubkey : matchPayToPubkey s = none := by
    rw [matchPayToPubkey, hs, if_neg]
    simp
  have hstake : isPayToColdStaking s = false := by
    have hne : opcode ≠ opRot := by
      intro heq
      rw [heq] at hle
      exact absurd hle (by decide)
    simp [isPayToColdStaking, hs, hne]
  have hscript : isPayToScriptHash s = false := by
    have hne : (118 : UInt8) ≠ opHash160 := by decide
    simp [isPayToScriptHash, hs, hne]
  have hmint : startsWithOpcode opZerocoinMint s = false := by rw [hs]; rfl
  have hreturn : startsWithOpcode opReturn s = false := by rw [hs]; rfl
  rw [extractDestination, hscript, if_neg Bool.false_ne_true, hmint, if_neg Bool.false_ne_true, hreturn,
    Bool.false_and, if_neg Bool.false_ne_true, hpubkey, hstake, if_neg Bool.false_ne_true] at hdest
  cases hmatch : matchPayToPubkeyHash s with
  | none =>
    rw [hmatch] at hdest
    cases hdest
  | some hash =>
    rw [hmatch] at hdest
    obtain ⟨heq, hlen⟩ := matchPayToPubkeyHash_eq_some hmatch
    have hhash : uint160 hash = N.exodus := Destination.keyID.inj (Option.some.inj hdest)
    rw [heq, TokenNetwork.exodusAddress, getScriptForDestination, ← hhash, toList_uint160 hlen]

/-! ### Both searches -/

/-- **The fast search drops nothing** that the examination of the outputs would find. -/
theorem marker_search_agrees (N : TokenNetwork) (nulldataBlock : Nat) (vout : List TxOut) (nBlock : Nat) :
    getEncodingClass N nulldataBlock vout nBlock = examineOutputs N nulldataBlock vout nBlock := by
  cases hclosely : examineClosely N vout with
  | true => exact getEncodingClass_of_examined hclosely
  | false =>
    have hsearch := hclosely
    rw [examineClosely, Bool.or_eq_false_iff, List.any_eq_false] at hsearch
    obtain ⟨hmain, hnone⟩ := hsearch
    have hopReturn : (vout.any fun o => isMarked nulldataBlock nBlock o.scriptPubKey) = false := by
      rw [List.any_eq_false]
      intro o ho hmarked
      rw [isMarked, Bool.and_eq_true] at hmarked
      refine hnone o ho ?_
      rw [marker_in_text hmarked.2, Bool.or_true]
    have hexodus : (vout.any fun o => paysExodus N nulldataBlock nBlock o.scriptPubKey) = false := by
      rw [List.any_eq_false]
      intro o ho hpays
      refine hnone o ho ?_
      rw [exodus_script hpays, TokenNetwork.exodusAddress, N.exodus_main hmain, decide_eq_true rfl, Bool.true_or]
    rw [getEncodingClass, hclosely, examineOutputs, foldl_examineOutput, hopReturn, hexodus]
    rfl

end Rapids.Payload
