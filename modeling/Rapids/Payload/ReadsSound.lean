import Rapids.Payload.Reads
import Rapids.Payload.Strings

/-!
# Rapids.Payload.ReadsSound

**Decoding is total and in bounds, but for two slips** (`decoding_safe_iff`).

Most decoders compare the size of the payload with the last position they read, and then
read there. The three issuances read all their strings first: past the end of the payload
there is a zero, then another one, and so on until the end of the buffer, which is passed if
there are not enough NULs (`nulsBefore`). The payment reads a text and hands it to a helper
of the RPC interface, which throws at whatever is not a hash.

A string ends at its NUL. An alert, or a payment, may end without one and then takes the zero
behind the payload for it; whether that is still a byte of the payload is a question of what
one counts as read, and both answers are given.
-/

namespace Rapids.Payload

open Rapids.Lib
open Rapids.Lib.Traced
open CMPTransaction

variable {p : Nat} {x : Reading CMPTransaction}

/-- **Total and in bounds**: nothing is thrown, no access passes the end of the buffer, and
a result comes from accesses that reach no further than the payload. -/
structure DecodesSafely (reach : Access → Nat) (size : Nat) (x : Reading CMPTransaction) : Prop where
  total : x.result ≠ .error .threw
  inBuffer : Logs (fun a => a.stop ≤ sizeofPkt) x
  fromPayload : ∀ tx, x.result = .ok tx → Logs (fun a => reach a ≤ size) x

/-- All accesses are within the payload, and nothing is thrown. -/
abbrev Within (size : Nat) (x : Reading CMPTransaction) : Prop :=
  Clean (fun a : Access => a.stop ≤ size) (fun why => why = Exit.threw) x

section
variable {reach : Access → Nat} {size : Nat} {tx : CMPTransaction} {big : Bool}

theorem Within.safely (h : Within size x) (hreach : ∀ a, reach a ≤ a.stop)
    (hsize : size ≤ sizeofPkt) : DecodesSafely reach size x where
  total hthrew := h.2 _ hthrew rfl
  inBuffer := h.1.mono fun _ ha => Nat.le_trans ha hsize
  fromPayload _ _ := h.1.mono fun a ha => Nat.le_trans (hreach a) ha

/-! ### Fixed layouts -/

theorem within_returnedFalse : Within size (.fail .returnedFalse) := clean_fail fun h => by cases h

theorem within_record_bind {α : Type} {entry : Access} {a : α} {f : α → Reading CMPTransaction}
    (h : entry.stop ≤ size) (hf : Within size (f a)) : Within size (.record entry a >>= f) := by
  refine clean_bind (clean_record h) fun a' ha => ?_
  cases ha
  exact hf

theorem within_requiring {n : Nat} {go : Reading CMPTransaction} (h : n ≤ tx.pktSize → Within size go) :
    Within size (requiring tx n go) :=
  clean_ite (fun _ => within_returnedFalse) fun hlong => h (Nat.le_of_not_lt hlong)

theorem within_value (h : 16 ≤ size) : Within size (Reads.value big tx) :=
  within_record_bind (Nat.le_trans (by decide) h)
    (within_record_bind (Nat.le_trans (by decide) h) (clean_pure _))

theorem within_value_bind {f : CMPTransaction → Reading CMPTransaction} (h : 16 ≤ size)
    (hf : Within size (f (readValue big tx))) :
    Within size (Reads.value big tx >>= f) := by
  refine clean_bind (within_value h) fun tx' htx => ?_
  cases htx
  exact hf

theorem within_valueForReceiver : Within tx.pktSize (Reads.valueForReceiver big tx) :=
  within_requiring fun h => within_value_bind h (clean_pure _)

theorem within_sendToOwners : Within tx.pktSize (Reads.interpretSendToOwners big tx) := by
  refine within_requiring fun h => ?_
  by_cases hversion : tx.version = 0
  · rw [if_pos hversion] at h
    refine within_value_bind h ?_
    rw [if_neg]
    · exact clean_pure _
    · show ¬ 0 < tx.version
      rw [hversion]
      decide
  · rw [if_neg hversion] at h
    refine within_value_bind (Nat.le_trans (by decide) h) (clean_ite (fun _ => ?_) fun _ => clean_pure _)
    exact within_record_bind (Nat.le_trans (by decide) h) (clean_pure _)

theorem within_sendAll : Within tx.pktSize (Reads.interpretSendAll tx) :=
  within_requiring fun h => within_record_bind (Nat.le_trans (by decide) h) (clean_pure _)

theorem within_outputs (n pos : Nat) (tx : CMPTransaction) (h : pos + n * 9 ≤ size) :
    Within size (Reads.outputs big n pos tx) := by
  induction n generalizing pos tx with
  | zero => exact clean_pure _
  | succ n ih =>
    refine within_record_bind ?_ (within_record_bind ?_ (ih _ _ ?_))
    · show pos + 1 + 0 ≤ size
      omega
    · show pos + 1 + 8 + 0 ≤ size
      omega
    · omega

theorem within_sendToMany : Within tx.pktSize (Reads.interpretSendToMany big tx) := by
  refine within_requiring fun h => within_record_bind (Nat.le_trans (by decide) h)
    (within_record_bind (Nat.le_trans (by decide) h) (within_requiring fun h => ?_))
  exact clean_bind (within_outputs _ _ _ h) fun _ _ => clean_pure _

theorem within_tradeOffer : Within tx.pktSize (Reads.interpretTradeOffer big tx) := by
  refine within_requiring fun h => ?_
  have h33 : 33 ≤ tx.pktSize := by
    by_cases hversion : tx.version = 0
    · rwa [if_pos hversion] at h
    · rw [if_neg hversion] at h
      exact Nat.le_trans (by decide) h
  refine within_value_bind (Nat.le_trans (by decide) h33) (within_record_bind (Nat.le_trans (by decide) h33)
    (within_record_bind (Nat.le_trans (by decide) h33) (within_record_bind (Nat.le_trans (by decide) h33)
      (clean_ite (fun hversion => ?_) fun _ => clean_pure _))))
  have h0 : tx.version ≠ 0 := by
    intro hzero
    have hlt : 0 < tx.version := hversion
    rw [hzero] at hlt
    exact absurd hlt (by decide)
  rw [if_neg h0] at h
  exact within_record_bind (Nat.le_trans (by decide) h) (clean_pure _)

theorem within_trade (action : UInt8) : Within tx.pktSize (Reads.trade big tx action) :=
  within_requiring fun h => within_value_bind (Nat.le_trans (by decide) h)
    (within_record_bind (Nat.le_trans (by decide) h)
      (within_record_bind (Nat.le_trans (by decide) h) (clean_pure _)))

theorem within_cancelPair : Within tx.pktSize (Reads.interpretMetaDExCancelPair big tx) :=
  within_requiring fun h => within_record_bind (Nat.le_trans (by decide) h)
    (within_record_bind (Nat.le_trans (by decide) h) (clean_pure _))

theorem within_cancelEcosystem : Within tx.pktSize (Reads.interpretMetaDExCancelEcosystem tx) :=
  within_requiring fun h => within_record_bind (Nat.le_trans (by decide) h) (clean_pure _)

theorem within_property : Within tx.pktSize (Reads.property big tx) :=
  within_requiring fun h => within_record_bind (Nat.le_trans (by decide) h) (clean_pure _)

theorem hashToAddress_isSome (P : AddressParams) (v : UInt8) (hash : List UInt8) :
    (hashToAddress P v hash).isSome = true := by
  by_cases hversion : v = P.pubkeyAddress ∨ v = P.scriptAddress
  · rw [hashToAddress_of_version hash hversion, encodeBase58Check, encodeBase58_eq]
    rfl
  · rw [not_or] at hversion
    rw [hashToAddress, if_neg hversion.1, if_neg hversion.2]
    rfl

theorem within_address (P : AddressParams) : Within tx.pktSize (Reads.address big tx P) := by
  refine within_requiring fun h => within_value_bind (Nat.le_trans (by decide) h)
    (within_record_bind (Nat.le_trans (by decide) h) (within_record_bind h ?_))
  refine clean_bind (clean_attempt (hashToAddress_isSome P _ _)) fun receiver _ => ?_
  exact clean_ite (fun _ => within_returnedFalse) fun _ =>
    clean_ite (fun _ => within_returnedFalse) fun _ => clean_pure _

theorem within_deactivation : Within tx.pktSize (Reads.interpretDeactivation big tx) :=
  within_requiring fun h => within_record_bind h (clean_pure _)

theorem within_activation : Within tx.pktSize (Reads.interpretActivation big tx) :=
  within_requiring fun h => within_record_bind (Nat.le_trans (by decide) h)
    (within_record_bind (Nat.le_trans (by decide) h) (within_record_bind h (clean_pure _)))

end

/-! ### Strings -/

/-- A transaction whose packet holds a payload, with zeros behind it. -/
structure Loaded (tx : CMPTransaction) (payload : List UInt8) : Prop where
  fits : payload.length < sizeofPkt
  pktSize : tx.pktSize = payload.length
  pkt : tx.pkt = payload ++ List.replicate (sizeofPkt - payload.length) 0

section
variable {reach : Access → Nat} {size bound : Nat} {tx : CMPTransaction} {big : Bool} {M : Memory}
  {payload : List UInt8}

theorem Loaded.length_pkt (h : Loaded tx payload) : tx.pkt.length = sizeofPkt := by
  have hfits := h.fits
  rw [h.pkt, List.length_append, List.length_replicate]
  omega

theorem Loaded.memory_drop (h : Loaded tx payload) (hp : p ≤ payload.length) :
    ∃ rest, (tx.memory M).drop p = payload.drop p ++ 0 :: rest := by
  have hzeros : List.replicate (sizeofPkt - payload.length) (0 : UInt8) =
      0 :: List.replicate (sizeofPkt - payload.length - 1) 0 := by
    rw [← List.replicate_succ]
    have hfits := h.fits
    congr 1
    omega
  refine ⟨List.replicate (sizeofPkt - payload.length - 1) 0 ++ M.afterPkt, ?_⟩
  rw [memory, h.pkt, hzeros, List.append_assoc, List.drop_append_of_le_length hp]
  rfl

theorem takeWhile_append_nul (l rest : List UInt8) :
    (l ++ 0 :: rest).takeWhile (· ≠ 0) = l.takeWhile (· ≠ 0) := by
  induction l with
  | nil => rfl
  | cons c l ih =>
    rw [List.cons_append, List.takeWhile_cons, List.takeWhile_cons, ih]

section
variable (h : Loaded tx payload) (hp : p ≤ payload.length)
include h hp

theorem Loaded.stringAt_eq :
    stringAt tx M p = (payload.drop p).takeWhile (· ≠ 0) := by
  obtain ⟨rest, hrest⟩ := h.memory_drop hp
  rw [stringAt, hrest, takeWhile_append_nul]

theorem Loaded.stringAt_end :
    p + (stringAt tx M p).length ≤ payload.length := by
  have hle : ((payload.drop p).takeWhile (· ≠ 0)).length ≤ (payload.drop p).length :=
    (List.takeWhile_sublist _).length_le
  rw [List.length_drop] at hle
  rw [h.stringAt_eq hp]
  omega

theorem Loaded.stringAt_lt_iff :
    p + (stringAt tx M p).length + 1 ≤ payload.length ↔ 0 ∈ payload.drop p := by
  have hle := h.stringAt_end (M := M) hp
  rw [h.stringAt_eq hp] at hle ⊢
  have hsplit := congrArg List.length (List.takeWhile_append_dropWhile (p := (· ≠ (0 : UInt8))) (l := payload.drop p))
  rw [List.length_append, List.length_drop] at hsplit
  constructor
  · intro hlt
    by_contra hnone
    have hall : (payload.drop p).takeWhile (· ≠ 0) = payload.drop p := by
      rw [List.takeWhile_eq_self_iff]
      intro c hc
      refine decide_eq_true fun hzero => ?_
      rw [hzero] at hc
      exact hnone hc
    rw [hall, List.length_drop] at hlt
    omega
  · intro hmem
    by_contra hge
    have hnil : (payload.drop p).dropWhile (· ≠ 0) = [] := List.length_eq_zero_iff.mp (by omega)
    have hzero := List.dropWhile_eq_nil_iff.mp hnil 0 hmem
    exact absurd hzero (by decide)

end

theorem readStrings_end_ge (tx : CMPTransaction) (M : Memory) (n p : Nat) : p + n ≤ (readStrings tx M n p).2 := by
  induction n generalizing p with
  | zero => exact Nat.le_refl _
  | succ n ih =>
    have hrest := ih (p + (stringAt tx M p).length + 1)
    rw [readStrings]
    omega

theorem logs_strings (n p : Nat) :
    Logs (fun a => a.stop ≤ bound) (Reads.strings tx M (n + 1) p) ↔ (readStrings tx M (n + 1) p).2 ≤ bound := by
  induction n generalizing p with
  | zero =>
    rw [Reads.strings, logs_bind_ok rfl, Reads.string, logs_record]
    show _ ∧ Logs _ (pure _) ↔ _
    rw [and_iff_left (logs_pure _)]
    exact Iff.rfl
  | succ n ih =>
    have hge := readStrings_end_ge tx M (n + 1) (p + (stringAt tx M p).length + 1)
    rw [Reads.strings, logs_bind_ok rfl, Reads.string, logs_record,
      logs_bind_ok (Reads.result_strings _ _), ih, and_iff_left (logs_pure _)]
    have hend : (readStrings tx M (n + 1 + 1) p).2 =
        (readStrings tx M (n + 1) (p + (stringAt tx M p).length + 1)).2 := rfl
    rw [hend]
    dsimp only [Access.stop]
    constructor
    · intro h
      exact h.2
    · intro h
      exact ⟨by omega, h⟩

/-- **Strings end before a position** if there are as many NULs before it. -/
theorem readStrings_end_le_iff {limit : Nat} (hlimit : limit ≤ (tx.memory M).length) (n : Nat)
    (hp : p ≤ limit) :
    (readStrings tx M n p).2 ≤ limit ↔ n ≤ (((tx.memory M).take limit).drop p).count 0 := by
  induction n generalizing p with
  | zero => exact iff_of_true hp (Nat.zero_le _)
  | succ n ih =>
    rw [readStrings]
    -- the part before the limit, from the position
    have hpart : (tx.memory M).drop p = ((tx.memory M).take limit).drop p ++ (tx.memory M).drop limit := by
      rw [← List.drop_append_of_le_length, List.take_append_drop]
      rw [List.length_take]
      omega
    by_cases hmem : 0 ∈ ((tx.memory M).take limit).drop p
    · obtain ⟨before, behind, hsplit, hbefore⟩ := List.eq_append_cons_of_mem hmem
      have hstring : stringAt tx M p = before := by
        rw [stringAt, hpart, hsplit, List.append_assoc, List.cons_append]
        refine (takeWhile_append_nul _ _).trans (List.takeWhile_eq_self_iff.mpr fun c hc => ?_)
        refine decide_eq_true fun hzero => hbefore ?_
        rwa [hzero] at hc
      have hlen : p + before.length + 1 ≤ limit := by
        have hsum := congrArg List.length hsplit
        rw [List.length_drop, List.length_take, List.length_append, List.length_cons] at hsum
        omega
      have hrest : ((tx.memory M).take limit).drop (p + before.length + 1) = behind := by
        rw [Nat.add_assoc, ← List.drop_drop, hsplit, ← List.drop_drop, List.drop_left]
        rfl
      rw [hstring, ih hlen, hrest, hsplit, List.count_append, List.count_eq_zero_of_not_mem hbefore,
        List.count_cons_self]
      omega
    · have hend := readStrings_end_ge tx M n (p + (stringAt tx M p).length + 1)
      have hlong : limit ≤ p + (stringAt tx M p).length := by
        have hprefix : (((tx.memory M).take limit).drop p).length ≤ (stringAt tx M p).length := by
          rw [stringAt, hpart, List.takeWhile_append_of_pos]
          · rw [List.length_append]
            omega
          · intro c hc
            refine decide_eq_true fun hzero => hmem ?_
            rwa [hzero] at hc
        rw [List.length_drop, List.length_take] at hprefix
        omega
      rw [List.count_eq_zero_of_not_mem hmem]
      omega

/-- The NULs from position 11 on that have `extra` more bytes of the buffer behind them. -/
def nulsBefore (payload : List UInt8) (extra : Nat) : Nat :=
  (((payload ++ List.replicate (sizeofPkt - payload.length) 0).take (sizeofPkt - extra)).drop 11).count 0

theorem Loaded.end_le_iff (h : Loaded tx payload) (n : Nat) {extra : Nat} (hextra : extra ≤ 22) :
    (readStrings tx M n 11).2 + extra ≤ sizeofPkt ↔ n ≤ nulsBefore payload extra := by
  have hsize : sizeofPkt = 7906 := rfl
  have hlength := h.length_pkt
  have hlimit : sizeofPkt - extra ≤ (tx.memory M).length := by
    rw [memory, List.length_append]
    omega
  have htake : (tx.memory M).take (sizeofPkt - extra) =
      (payload ++ List.replicate (sizeofPkt - payload.length) 0).take (sizeofPkt - extra) := by
    rw [memory, List.take_append_of_le_length (by omega), h.pkt]
  have hiff := readStrings_end_le_iff hlimit n (p := 11) (by omega)
  rw [htake] at hiff
  rw [nulsBefore, ← hiff]
  omega

/-! ### Issuances -/

theorem logs_issuance (n : Nat) :
    Logs (fun a => a.stop ≤ bound) (Reads.issuance big tx M (n + 1)) ↔
      (readStrings tx M (n + 1) 11).2 ≤ bound := by
  have hge := readStrings_end_ge tx M (n + 1) 11
  rw [Reads.issuance, logs_bind_ok rfl, fetch8, logs_record,
    logs_bind_ok rfl, fetch16, logs_record,
    logs_bind_ok rfl, fetch32, logs_record,
    logs_bind_ok (Reads.result_strings _ _), logs_strings, and_iff_left (logs_pure _)]
  dsimp only [Access.stop]
  constructor
  · intro h
    exact h.2.2.2
  · intro h
    exact ⟨by omega, by omega, by omega, h⟩

theorem logs_unlessOverrun (P : Access → Prop) (p : Nat) (go : CMPTransaction) :
    Logs P (Reads.unlessOverrun tx p go) := by
  unfold Reads.unlessOverrun
  split_ifs
  · exact logs_fail _
  · exact logs_pure _

theorem unlessOverrun_ne_threw (p : Nat) (go : CMPTransaction) :
    (Reads.unlessOverrun tx p go).result ≠ .error .threw := by
  unfold Reads.unlessOverrun
  split_ifs
  · intro h
    cases h
  · intro h
    cases h

theorem le_of_unlessOverrun {go tx' : CMPTransaction}
    (h : (Reads.unlessOverrun tx p go).result = .ok tx') : p ≤ tx.pktSize := by
  unfold Reads.unlessOverrun at h
  split_ifs at h with hover
  · cases h
  · rw [isOverrun, decide_eq_true_eq] at hover
    exact Nat.le_of_not_lt hover

theorem unlessOverrun_of_fits (h : tx.isOverrun p = false) (go : CMPTransaction) :
    (Reads.unlessOverrun tx p go).result = .ok go := by
  rw [Reads.unlessOverrun, h]
  rfl

section
variable (hreach : ∀ a, reach a ≤ a.stop) (h : Loaded tx payload)
include hreach h

theorem safely_of_short {n : Nat} {go : Reading CMPTransaction}
    (hshort : ¬ n ≤ payload.length) :
    DecodesSafely reach tx.pktSize (requiring tx n go) := by
  have hfits := h.fits
  refine Within.safely ?_ hreach (by rw [h.pktSize]; omega)
  rw [requiring, if_pos (by rw [h.pktSize]; omega)]
  exact within_returnedFalse

theorem issuance_safely {n extra least : Nat}
    {go : CMPTransaction × List (List UInt8) × Nat → Reading CMPTransaction}
    (hextra : extra ≤ 22)
    (hlogs : ∀ bound read, read.2.2 ≤ bound →
      (Logs (fun a => a.stop ≤ bound) (go read) ↔ read.2.2 + extra ≤ bound))
    (htotal : ∀ read, (go read).result ≠ .error .threw)
    (hchecked : ∀ read tx', (go read).result = .ok tx' → read.2.2 + extra ≤ tx.pktSize) :
    DecodesSafely reach tx.pktSize (requiring tx least (Reads.issuance big tx M (n + 1) >>= go)) ↔
      (least ≤ payload.length → n + 1 ≤ nulsBefore payload extra) := by
  by_cases hleast : least ≤ payload.length
  · have hgo : requiring tx least (Reads.issuance big tx M (n + 1) >>= go) =
        Reads.issuance big tx M (n + 1) >>= go := by
      rw [requiring, if_neg (by rw [h.pktSize]; omega)]
    have hresult : (Reads.issuance big tx M (n + 1) >>= go).result =
        (go (readIssuance big tx M (readStrings tx M (n + 1) 11).1,
          readStrings tx M (n + 1) 11)).result := by
      rw [result_bind, Reads.result_issuance]
      rfl
    -- everything is read if the last access is in bounds
    have hall : ∀ bound, Logs (fun a => a.stop ≤ bound) (Reads.issuance big tx M (n + 1) >>= go) ↔
        (readStrings tx M (n + 1) 11).2 + extra ≤ bound := by
      intro bound
      rw [logs_bind_ok (Reads.result_issuance _), logs_issuance]
      constructor
      · intro hboth
        exact (hlogs bound _ hboth.1).mp hboth.2
      · intro hle
        have hend : (readStrings tx M (n + 1) 11).2 ≤ bound := by omega
        exact ⟨hend, (hlogs bound _ hend).mpr hle⟩
    rw [hgo]
    constructor
    · intro hsafe _
      exact (h.end_le_iff (n + 1) hextra).mp ((hall _).mp hsafe.inBuffer)
    · intro hnuls
      refine ⟨?_, (hall _).mpr ((h.end_le_iff (n + 1) hextra).mpr (hnuls hleast)), fun tx' htx => ?_⟩
      · rw [hresult]
        exact htotal _
      · rw [hresult] at htx
        exact ((hall _).mpr (hchecked _ _ htx)).mono fun a ha => Nat.le_trans (hreach a) ha
  · exact iff_of_true (safely_of_short hreach h hleast) fun h' => absurd h' hleast

theorem fixed_safely :
    DecodesSafely reach tx.pktSize (Reads.interpretCreatePropertyFixed big tx M) ↔
      (25 ≤ payload.length → 7 ≤ nulsBefore payload 9) := by
  refine issuance_safely hreach h (by decide) ?_ (fun _ => unlessOverrun_ne_threw _ _)
    (fun _ _ => le_of_unlessOverrun)
  intro bound read hread
  rw [logs_bind_ok (a := read64 big (tx.memory M) read.2.2) rfl, fetch64, logs_record,
    logs_bind_ok (a := read8 (tx.memory M) (read.2.2 + 8)) rfl, fetch8, logs_record,
    and_iff_left (logs_unlessOverrun _ _ _)]
  dsimp only [Access.stop]
  omega

theorem variable_safely :
    DecodesSafely reach tx.pktSize (Reads.interpretCreatePropertyVariable big tx M) ↔
      (39 ≤ payload.length → 6 ≤ nulsBefore payload 22) := by
  refine issuance_safely hreach h (by decide) ?_ (fun _ => unlessOverrun_ne_threw _ _)
    (fun _ _ => le_of_unlessOverrun)
  intro bound read hread
  rw [logs_bind_ok (a := read32 big (tx.memory M) read.2.2) rfl, fetch32, logs_record,
    logs_bind_ok (a := read64 big (tx.memory M) (read.2.2 + 4)) rfl, fetch64, logs_record,
    logs_bind_ok (a := read64 big (tx.memory M) (read.2.2 + 12)) rfl, fetch64, logs_record,
    logs_bind_ok (a := read8 (tx.memory M) (read.2.2 + 20)) rfl, fetch8, logs_record,
    logs_bind_ok (a := read8 (tx.memory M) (read.2.2 + 21)) rfl, fetch8, logs_record,
    and_iff_left (logs_unlessOverrun _ _ _)]
  dsimp only [Access.stop]
  omega

theorem managed_safely :
    DecodesSafely reach tx.pktSize (Reads.interpretCreatePropertyManaged big tx M) ↔
      (17 ≤ payload.length → 6 ≤ nulsBefore payload 0) := by
  refine issuance_safely hreach h (by decide) ?_ (fun _ => unlessOverrun_ne_threw _ _)
    (fun _ _ => le_of_unlessOverrun)
  intro bound read hread
  exact iff_of_true (logs_unlessOverrun _ _ _) hread

end

/-! ### Single strings -/

/-- The text of a payment. -/
def hashText (payload : List UInt8) : List UInt8 := (payload.drop 4).takeWhile (· ≠ 0)

theorem parseHashV_isSome {text : List UInt8} :
    (parseHashV text).isSome = true ↔ isHex text = true ∧ text.length = 64 := by
  unfold parseHashV
  split_ifs with hhex hlen
  · simp [hhex]
  · simp [hlen]
  · simp only [Bool.not_eq_false] at hhex
    simp only [ne_eq, not_not] at hlen
    simp [hhex, hlen]

/-- The access to the text of a payment. -/
def hashAccess (payload : List UInt8) : Access := ⟨4, (hashText payload).length, 1⟩

theorem payment_safely (h : Loaded tx payload) :
    DecodesSafely reach tx.pktSize (Reads.interpretRapidsPayment tx M) ↔
      (36 ≤ payload.length → (isHex (hashText payload) = true ∧ (hashText payload).length = 64) ∧
        reach (hashAccess payload) ≤ payload.length) := by
  have hfits := h.fits
  by_cases hlong : 36 ≤ payload.length
  · have htext : stringAt tx M 4 = hashText payload := h.stringAt_eq (by omega)
    have hend := h.stringAt_end (M := M) (p := 4) (by omega)
    rw [htext] at hend
    have hgo : Reads.interpretRapidsPayment tx M = (.record (hashAccess payload) (hashText payload) >>= fun hash =>
        Traced.attempt .threw (parseHashV hash) >>= fun linkedTxid =>
          pure { tx with linkedTxid := linkedTxid }) := by
      rw [Reads.interpretRapidsPayment, requiring, if_neg (by rw [h.pktSize]; omega), Reads.string, htext]
      rfl
    have hlogs : ∀ P : Access → Prop, Logs P (Reads.interpretRapidsPayment tx M) ↔ P (hashAccess payload) := by
      intro P
      rw [hgo, logs_bind_ok rfl, logs_record, logs_bind,
        and_iff_left ⟨logs_attempt _ _, fun _ _ => logs_pure _⟩]
    have hresult : (Reads.interpretRapidsPayment tx M).result =
        named Exit.threw (parseHashV (hashText payload)) >>= fun linkedTxid =>
          .ok { tx with linkedTxid := linkedTxid } := by
      rw [hgo, result_bind, result_record]
      exact result_bind _ _
    constructor
    · intro hsafe _
      have htotal := hsafe.total
      rw [hresult] at htotal
      cases hparse : parseHashV (hashText payload) with
      | none =>
        rw [hparse] at htotal
        exact absurd rfl htotal
      | some hash =>
        refine ⟨parseHashV_isSome.mp (by rw [hparse]; rfl), ?_⟩
        have hok : (Reads.interpretRapidsPayment tx M).result = .ok { tx with linkedTxid := hash } := by
          rw [hresult, hparse]
          rfl
        have hreach := (hlogs _).mp (hsafe.fromPayload _ hok)
        rwa [h.pktSize] at hreach
    · intro hcond
      obtain ⟨hash, hparse⟩ := Option.isSome_iff_exists.mp (parseHashV_isSome.mpr (hcond hlong).1)
      refine ⟨?_, (hlogs _).mpr ?_, fun _ _ => (hlogs _).mpr ?_⟩
      · rw [hresult, hparse]
        intro hthrew
        cases hthrew
      · show 4 + (hashText payload).length + 1 ≤ sizeofPkt
        omega
      · rw [h.pktSize]
        exact (hcond hlong).2
  · refine iff_of_true ?_ fun h' => absurd h' hlong
    have hshort : Reads.interpretRapidsPayment tx M = .fail .returnedFalse := by
      rw [Reads.interpretRapidsPayment, requiring, if_pos (by rw [h.pktSize]; omega)]
    rw [hshort]
    exact ⟨fun hthrew => (by cases hthrew), logs_fail _, fun _ _ => logs_fail _⟩

/-- The access to the text of an alert. -/
def alertAccess (payload : List UInt8) : Access := ⟨10, ((payload.drop 10).takeWhile (· ≠ 0)).length, 1⟩

theorem alert_safely (hreach : ∀ a, reach a ≤ a.stop) (h : Loaded tx payload) :
    DecodesSafely reach tx.pktSize (Reads.interpretAlert big tx M) ↔
      (11 ≤ payload.length → reach (alertAccess payload) ≤ payload.length) := by
  have hfits := h.fits
  by_cases hlong : 11 ≤ payload.length
  · have htext : stringAt tx M 10 = (payload.drop 10).takeWhile (· ≠ 0) := h.stringAt_eq (by omega)
    have hend := h.stringAt_end (M := M) (p := 10) (by omega)
    rw [htext] at hend
    have hover : tx.isOverrun 10 = false := by
      rw [isOverrun, h.pktSize]
      exact decide_eq_false (by omega)
    have hlogs : ∀ P : Access → Prop, Logs P (Reads.interpretAlert big tx M) ↔
        P ⟨4, 2, 0⟩ ∧ P ⟨6, 4, 0⟩ ∧ P (alertAccess payload) := by
      intro P
      rw [Reads.interpretAlert, requiring, if_neg (by rw [h.pktSize]; omega),
        logs_bind_ok rfl, fetch16, logs_record,
        logs_bind_ok rfl, fetch32, logs_record,
        logs_bind_ok rfl, Reads.string, logs_record, htext,
        and_iff_left (logs_unlessOverrun _ _ _)]
      exact Iff.rfl
    have hresult : ∃ tx', (Reads.interpretAlert big tx M).result = .ok tx' := by
      rw [Reads.interpretAlert, requiring, if_neg (by rw [h.pktSize]; omega)]
      exact ⟨_, unlessOverrun_of_fits hover _⟩
    obtain ⟨tx', hok⟩ := hresult
    constructor
    · intro hsafe _
      have hlog := ((hlogs _).mp (hsafe.fromPayload _ hok)).2.2
      rwa [h.pktSize] at hlog
    · intro hcond
      refine ⟨?_, (hlogs _).mpr ⟨by decide, by decide, ?_⟩, fun _ _ => (hlogs _).mpr ⟨?_, ?_, ?_⟩⟩
      · rw [hok]
        intro hthrew
        cases hthrew
      · show 10 + ((payload.drop 10).takeWhile (· ≠ 0)).length + 1 ≤ sizeofPkt
        omega
      · refine Nat.le_trans (hreach _) ?_
        show 6 ≤ tx.pktSize
        rw [h.pktSize]
        omega
      · refine Nat.le_trans (hreach _) ?_
        show 10 ≤ tx.pktSize
        rw [h.pktSize]
        omega
      · rw [h.pktSize]
        exact hcond hlong
  · exact iff_of_true (safely_of_short hreach h hlong) fun h' => absurd h' hlong

/-! ### All types -/

/-- What a payload of a type needs to be decoded without harm. -/
def DecodableAs (payload : List UInt8) : Nat → Prop
  | 50 => 25 ≤ payload.length → 7 ≤ nulsBefore payload 9
  | 51 => 39 ≤ payload.length → 6 ≤ nulsBefore payload 22
  | 54 => 17 ≤ payload.length → 6 ≤ nulsBefore payload 0
  | 80 => 36 ≤ payload.length → isHex (hashText payload) = true ∧ (hashText payload).length = 64
  | _ => True

/-- Is the NUL of a single string in the payload? -/
def TerminatedAs (payload : List UInt8) : Nat → Prop
  | 80 => 36 ≤ payload.length → 0 ∈ payload.drop 4
  | 65535 => 11 ≤ payload.length → 0 ∈ payload.drop 10
  | _ => True

theorem Access.valueEnd_le_stop (a : Access) : a.valueEnd ≤ a.stop := Nat.le_add_right _ _

theorem safely_both {c : Prop}
    (h : ∀ reach : Access → Nat, (∀ a, reach a ≤ a.stop) → (DecodesSafely reach size x ↔ c)) :
    (DecodesSafely Access.valueEnd size x ↔ c) ∧ (DecodesSafely Access.stop size x ↔ c ∧ True) := by
  rw [and_true]
  exact ⟨h _ Access.valueEnd_le_stop, h _ fun _ => Nat.le_refl _⟩

theorem safely_within (hx : Within size x) (hsize : size ≤ sizeofPkt) :
    (DecodesSafely Access.valueEnd size x ↔ True) ∧ (DecodesSafely Access.stop size x ↔ True ∧ True) :=
  safely_both fun _ hreach => iff_of_true (hx.safely hreach hsize) trivial

theorem payment_both (h : Loaded tx payload) :
    (DecodesSafely Access.valueEnd tx.pktSize (Reads.interpretRapidsPayment tx M) ↔ DecodableAs payload 80) ∧
      (DecodesSafely Access.stop tx.pktSize (Reads.interpretRapidsPayment tx M) ↔
        DecodableAs payload 80 ∧ TerminatedAs payload 80) := by
  have hvalue : 36 ≤ payload.length → (hashAccess payload).valueEnd ≤ payload.length := by
    intro hlong
    have hend := h.stringAt_end (M := M) (p := 4) (by omega)
    rwa [h.stringAt_eq (by omega)] at hend
  have hstop : 36 ≤ payload.length → ((hashAccess payload).stop ≤ payload.length ↔ 0 ∈ payload.drop 4) := by
    intro hlong
    have hend := h.stringAt_lt_iff (M := M) (p := 4) (by omega)
    rwa [h.stringAt_eq (by omega)] at hend
  rw [payment_safely h, payment_safely h]
  constructor
  · constructor
    · intro hboth hlong
      exact (hboth hlong).1
    · intro hhash hlong
      exact ⟨hhash hlong, hvalue hlong⟩
  · constructor
    · intro hboth
      exact ⟨fun hlong => (hboth hlong).1, fun hlong => (hstop hlong).mp (hboth hlong).2⟩
    · intro hcond hlong
      exact ⟨hcond.1 hlong, (hstop hlong).mpr (hcond.2 hlong)⟩

theorem alert_both (h : Loaded tx payload) :
    (DecodesSafely Access.valueEnd tx.pktSize (Reads.interpretAlert big tx M) ↔ True) ∧
      (DecodesSafely Access.stop tx.pktSize (Reads.interpretAlert big tx M) ↔
        True ∧ TerminatedAs payload 65535) := by
  rw [alert_safely Access.valueEnd_le_stop h, alert_safely (fun _ => Nat.le_refl _) h, true_and]
  constructor
  · refine iff_of_true (fun hlong => ?_) trivial
    have hend := h.stringAt_end (M := M) (p := 10) (by omega)
    rwa [h.stringAt_eq (by omega)] at hend
  · constructor
    · intro hreach hlong
      have hend := h.stringAt_lt_iff (M := M) (p := 10) (by omega)
      rw [h.stringAt_eq (by omega)] at hend
      exact hend.mp (hreach hlong)
    · intro hnul hlong
      have hend := h.stringAt_lt_iff (M := M) (p := 10) (by omega)
      rw [h.stringAt_eq (by omega)] at hend
      exact hend.mpr (hnul hlong)

theorem interpretAs_safely (P : AddressParams) (h : Loaded tx payload) (type : Nat) :
    (DecodesSafely Access.valueEnd tx.pktSize (Reads.interpretAs big tx M P type) ↔
        DecodableAs payload type) ∧
      (DecodesSafely Access.stop tx.pktSize (Reads.interpretAs big tx M P type) ↔
        DecodableAs payload type ∧ TerminatedAs payload type) := by
  have hsize : tx.pktSize ≤ sizeofPkt := by
    rw [h.pktSize]
    exact Nat.le_of_lt h.fits
  unfold Reads.interpretAs
  split
  · exact safely_within within_valueForReceiver hsize
  · exact safely_within within_sendToMany hsize
  · exact safely_within within_sendToOwners hsize
  · exact safely_within within_sendAll hsize
  · exact safely_within within_tradeOffer hsize
  · exact safely_within (within_requiring within_value) hsize
  · exact safely_within (within_trade 1) hsize
  · exact safely_within (within_trade 2) hsize
  · exact safely_within within_cancelPair hsize
  · exact safely_within within_cancelEcosystem hsize
  · exact safely_both fun _ hreach => fixed_safely hreach h
  · exact safely_both fun _ hreach => variable_safely hreach h
  · exact safely_both fun _ hreach => managed_safely hreach h
  · exact safely_within within_property hsize
  · exact safely_within within_valueForReceiver hsize
  · exact safely_within (within_requiring within_value) hsize
  · exact safely_within within_property hsize
  · exact safely_within within_property hsize
  · exact safely_within within_property hsize
  · exact safely_within (within_address P) hsize
  · exact safely_within (within_address P) hsize
  · exact safely_within within_deactivation hsize
  · exact payment_both h
  · exact safely_within within_activation hsize
  · exact alert_both h
  · have hother : DecodableAs payload type = True ∧ TerminatedAs payload type = True := by
      unfold DecodableAs TerminatedAs
      constructor
      · split
        all_goals first | rfl | contradiction
      · split
        all_goals first | rfl | contradiction
    rw [hother.1, hother.2]
    exact safely_within within_returnedFalse hsize

/-! ### The whole packet -/

/-- The type of a message, as it stands in its payload. -/
def payloadType (payload : List UInt8) : Nat := 256 * (payload.getD 2 0).toNat + (payload.getD 3 0).toNat

theorem read16_toNat {m rest : List UInt8} {pos : Nat} {a b : UInt8} (h : m.drop pos = a :: b :: rest) :
    (read16 isBigEndian m pos).toNat = 256 * a.toNat + b.toNat := by
  have ha := a.toNat_lt
  have hb := b.toNat_lt
  have hwire : wire16 (UInt16.ofNat (256 * a.toNat + b.toNat)) = [a, b] := by
    rw [wire16]
    congr 1
    · refine UInt8.toNat_inj.mp ?_
      simp
      omega
    · congr 1
      refine UInt8.toNat_inj.mp ?_
      simp
  rw [read16_at (x := UInt16.ofNat (256 * a.toNat + b.toNat)) (by rw [h, hwire]; rfl)]
  simp
  omega

theorem safely_bind_type (ver type : Access) (txVersion txType : UInt16)
    (f : UInt16 → UInt16 → Reading CMPTransaction) (hx : x = (Traced.record ver txVersion >>= fun v =>
      Traced.record type txType >>= fun t => f v t)) (hver : ver.stop ≤ 4) (htype : type.stop ≤ 4)
    (hreach : ∀ a, reach a ≤ a.stop) (hsize : 4 ≤ size) :
    DecodesSafely reach size x ↔ DecodesSafely reach size (f txVersion txType) := by
  have hlogs : ∀ P : Access → Prop, Logs P x ↔ P ver ∧ P type ∧ Logs P (f txVersion txType) := by
    intro P
    rw [hx, logs_bind_ok rfl, logs_record, logs_bind_ok rfl, logs_record]
  have hresult : x.result = (f txVersion txType).result := by
    rw [hx, result_bind, result_record]
    exact result_bind _ _
  have hroom : 4 ≤ sizeofPkt := by decide
  constructor
  · intro h
    refine ⟨?_, ((hlogs _).mp h.inBuffer).2.2, fun tx' htx => ?_⟩
    · rw [← hresult]
      exact h.total
    · rw [← hresult] at htx
      exact ((hlogs _).mp (h.fromPayload tx' htx)).2.2
  · intro h
    refine ⟨?_, (hlogs _).mpr ⟨by omega, by omega, h.inBuffer⟩, fun tx' htx => ?_⟩
    · rw [hresult]
      exact h.total
    · rw [hresult] at htx
      have hv := hreach ver
      have ht := hreach type
      exact (hlogs _).mpr ⟨by omega, by omega, h.fromPayload tx' htx⟩

variable (tx₀ : CMPTransaction) (s r : List UInt8)

theorem loaded_packet (hfits : payload.length < sizeofPkt) (ver : UInt16) (type : UInt32) :
    Loaded { packet tx₀ s r payload with version := ver, type := type } payload where
  fits := hfits
  pktSize := by
    refine (packet_pktSize tx₀ s r payload).trans ?_
    rw [Nat.min_eq_left (Nat.le_of_lt hfits)]
  pkt := by
    refine (packet_pkt tx₀ s r payload).trans ?_
    rw [List.take_of_length_le (Nat.le_of_lt hfits)]

/-- What the decoders do with a payload, in an object that was used before. -/
def decoding (isBigEndian : Bool) (M : Memory) (P : AddressParams) (payload : List UInt8) :
    Reading CMPTransaction :=
  Reads.interpretTransaction isBigEndian (packet tx₀ s r payload) M P

theorem decoding_result (isBigEndian : Bool) (M : Memory) (P : AddressParams) (payload : List UInt8) :
    (decoding tx₀ s r isBigEndian M P payload).result.toOption = received tx₀ s r payload isBigEndian M P :=
  Reads.toOption_interpretTransaction P

theorem decoding_short (P : AddressParams) (hshort : payload.length < 4) :
    Within payload.length (decoding tx₀ s r isBigEndian M P payload) := by
  have hpkt : (packet tx₀ s r payload).pktSize < 4 := by
    rw [packet_pktSize]
    omega
  have htype : Reads.interpretTransactionType isBigEndian (packet tx₀ s r payload) = .fail .returnedFalse := by
    rw [Reads.interpretTransactionType, requiring, if_pos hpkt]
  rw [decoding, Reads.interpretTransaction, htype]
  exact within_returnedFalse

theorem decoding_long (P : AddressParams) (hfits : payload.length < sizeofPkt) (hlong : 4 ≤ payload.length)
    (hreach : ∀ a, reach a ≤ a.stop) :
    ∃ tx, Loaded tx payload ∧ (DecodesSafely reach payload.length (decoding tx₀ s r isBigEndian M P payload) ↔
      DecodesSafely reach tx.pktSize (Reads.interpretAs isBigEndian tx M P (payloadType payload))) := by
  have hloaded := loaded_packet tx₀ s r hfits (read16 isBigEndian (packet tx₀ s r payload).pkt 0)
    (read16 isBigEndian (packet tx₀ s r payload).pkt 2).toUInt32
  refine ⟨_, hloaded, ?_⟩
  have hpkt : (packet tx₀ s r payload).pkt = payload ++ List.replicate (sizeofPkt - payload.length) 0 := hloaded.pkt
  have hnumber : (read16 isBigEndian (packet tx₀ s r payload).pkt 2).toUInt32.toNat = payloadType payload := by
    obtain ⟨c₀, c₁, a, b, rest, rfl⟩ : ∃ c₀ c₁ a b rest, payload = c₀ :: c₁ :: a :: b :: rest := by
      rcases payload with _ | ⟨c₀, _ | ⟨c₁, _ | ⟨a, _ | ⟨b, rest⟩⟩⟩⟩
      · cases hlong
      · exact absurd hlong (by simp)
      · exact absurd hlong (by simp)
      · exact absurd hlong (by simp)
      · exact ⟨c₀, c₁, a, b, rest, rfl⟩
    rw [UInt16.toNat_toUInt32, hpkt]
    exact read16_toNat rfl
  have hsize : ¬ (packet tx₀ s r payload).pktSize < 4 := by
    have heq : (packet tx₀ s r payload).pktSize = payload.length := hloaded.pktSize
    rw [heq]
    exact Nat.not_lt.mpr hlong
  rw [hloaded.pktSize, ← hnumber]
  refine safely_bind_type ⟨0, 2, 0⟩ ⟨2, 2, 0⟩ (read16 isBigEndian (packet tx₀ s r payload).pkt 0)
    (read16 isBigEndian (packet tx₀ s r payload).pkt 2)
    (fun v t => Reads.interpretAs isBigEndian { packet tx₀ s r payload with version := v, type := t.toUInt32 }
      M P t.toUInt32.toNat) ?_ (by decide) (by decide) hreach hlong
  rw [decoding, Reads.interpretTransaction, Reads.interpretTransactionType, requiring, if_neg hsize]
  rfl

theorem decodableAs_short (hshort : payload.length < 4) (type : Nat) :
    DecodableAs payload type ∧ TerminatedAs payload type := by
  unfold DecodableAs TerminatedAs
  constructor
  · split
    all_goals first | trivial | (intro h; omega)
  · split
    all_goals first | trivial | (intro h; omega)

theorem decoding_valueEnd_iff (P : AddressParams) (hfits : payload.length < sizeofPkt) :
    DecodesSafely Access.valueEnd payload.length (decoding tx₀ s r isBigEndian M P payload) ↔
      DecodableAs payload (payloadType payload) := by
  by_cases hlong : 4 ≤ payload.length
  · obtain ⟨tx, hloaded, hiff⟩ := decoding_long tx₀ s r P hfits hlong Access.valueEnd_le_stop
    exact hiff.trans (interpretAs_safely P hloaded _).1
  · have hshort : payload.length < 4 := Nat.lt_of_not_le hlong
    exact iff_of_true ((decoding_short tx₀ s r P hshort).safely Access.valueEnd_le_stop (Nat.le_of_lt hfits))
      (decodableAs_short hshort _).1

theorem decoding_stop_iff (P : AddressParams) (hfits : payload.length < sizeofPkt) :
    DecodesSafely Access.stop payload.length (decoding tx₀ s r isBigEndian M P payload) ↔
      DecodableAs payload (payloadType payload) ∧ TerminatedAs payload (payloadType payload) := by
  by_cases hlong : 4 ≤ payload.length
  · obtain ⟨tx, hloaded, hiff⟩ := decoding_long tx₀ s r P hfits hlong fun _ => Nat.le_refl _
    exact hiff.trans (interpretAs_safely P hloaded _).2
  · have hshort : payload.length < 4 := Nat.lt_of_not_le hlong
    exact iff_of_true ((decoding_short tx₀ s r P hshort).safely (fun _ => Nat.le_refl _) (Nat.le_of_lt hfits))
      (decodableAs_short hshort _)

end

/-- **When decoding is total and in bounds**, for every payload that fits into the buffer, in
any object and whatever is in memory around it. An issuance needs as many NULs as it has
strings, with room behind them; a payment needs the text of a hash. All bytes of the values
are then bytes of the payload; the NULs are too if single strings have one. -/
theorem decoding_safe_iff (tx₀ : CMPTransaction) (s r : List UInt8) (isBigEndian : Bool) (M : Memory)
    (P : AddressParams) {payload : List UInt8} (hfits : payload.length < sizeofPkt) :
    (DecodesSafely Access.valueEnd payload.length (decoding tx₀ s r isBigEndian M P payload) ↔
        DecodableAs payload (payloadType payload)) ∧
      (DecodesSafely Access.stop payload.length (decoding tx₀ s r isBigEndian M P payload) ↔
        DecodableAs payload (payloadType payload) ∧ TerminatedAs payload (payloadType payload)) :=
  ⟨decoding_valueEnd_iff tx₀ s r P hfits, decoding_stop_iff tx₀ s r P hfits⟩

/-- A simple send of nothing. -/
def emptySend : List UInt8 := List.replicate 16 0

/-- A payment without a hash. -/
def noHash : List UInt8 := [0, 0, 0, 80] ++ List.replicate 32 0

/-- An issuance without a NUL. -/
def endlessCategory : List UInt8 := [0, 0, 0, 54] ++ List.replicate 7901 1

/-- The send is decoded from its sixteen bytes. -/
theorem decoding_safe_iff_send :
    DecodesSafely Access.stop emptySend.length
      (decoding blankTransaction [] [] false ⟨[], fun _ => []⟩ plainAddresses emptySend) :=
  (decoding_safe_iff blankTransaction [] [] false ⟨[], fun _ => []⟩ plainAddresses
    (show emptySend.length < sizeofPkt by decide)).2.mpr ⟨trivial, trivial⟩

/-- The payment throws, and the issuance reads beyond the buffer. -/
theorem decoding_unsafe :
    ¬ DecodesSafely Access.valueEnd noHash.length
        (decoding blankTransaction [] [] false ⟨[], fun _ => []⟩ plainAddresses noHash) ∧
      ¬ DecodesSafely Access.valueEnd endlessCategory.length
        (decoding blankTransaction [] [] false ⟨[], fun _ => []⟩ plainAddresses endlessCategory) := by
  have hlen : endlessCategory.length = 7905 := by
    rw [endlessCategory, List.length_append, List.length_replicate]
    rfl
  constructor
  · intro h
    have hhash := (decoding_valueEnd_iff blankTransaction [] [] plainAddresses
      (show noHash.length < sizeofPkt by decide)).mp h
    have hhex := (show 36 ≤ noHash.length → isHex (hashText noHash) = true ∧ _ from hhash) (by decide)
    exact absurd hhex.1 (by decide)
  · intro h
    have hnuls := (decoding_valueEnd_iff blankTransaction [] [] plainAddresses
      (show endlessCategory.length < sizeofPkt by rw [hlen]; decide)).mp h
    have hcount : nulsBefore endlessCategory 0 = 1 := by decide +kernel
    have hsix := (show 17 ≤ endlessCategory.length → 6 ≤ nulsBefore endlessCategory 0 from hnuls)
      (by rw [hlen]; decide)
    rw [hcount] at hsix
    exact absurd hsix (by decide)

end Rapids.Payload
