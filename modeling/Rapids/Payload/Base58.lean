import Rapids.Lib.Radix

/-!
# Rapids.Payload.Base58

**Addresses** (`base58.cpp`, `parsing.cpp`, `createpayload.cpp`). An address is a
version byte and a hash, followed by four bytes of a checksum, written in base
58. Strings are lists of bytes.

The conversions work in place in an array that is allocated before the loop
(`Rapids.Lib.Radix`); the assertion that no carry is left at its end is the one
way in which `encodeBase58` has no result. Decoding skips white space around
the string. Without it, **decoding and encoding are inverse to each other**, and
a freeze reads back the address it was made for exactly when that address is the
one spelling of a key or script address.
-/

namespace Rapids.Payload

open Rapids.Lib
open Nat (ofDigits)

variable {str vch address : List UInt8} {d : Nat} {v : UInt8}

/-! ### Base 58 -/

/-- All alphanumeric characters except for "0", "I", "O", and "l". -/
def pszBase58 : List UInt8 :=
  "123456789ABCDEFGHJKLMNPQRSTUVWXYZabcdefghijkmnopqrstuvwxyz".toList.map fun c => UInt8.ofNat c.toNat

/-- `isspace` in the C locale. -/
def isspace (c : UInt8) : Bool := decide (c = 32 ∨ 9 ≤ c ∧ c ≤ 13)

/-- The string up to its first NUL (`c_str()`). -/
def cStr (s : List UInt8) : List UInt8 := s.takeWhile (· ≠ 0)

def charOf (d : Nat) : UInt8 := pszBase58.getD d 0

/-- Apply "b256 = b256 * 58 + ch". -/
def decodeChar (b256 : Numeral) (psz : UInt8) : Option Numeral :=
  match pszBase58.idxOf? psz with
  | none => none
  | some ch => b256.push 256 58 ch

def decodeBase58 (str : List UInt8) : Option (List UInt8) :=
  let psz := (cStr str).dropWhile isspace
  let zeroes := (psz.takeWhile (· == 49)).length
  let psz := psz.dropWhile (· == 49)
  let size := psz.length * 733 / 1000 + 1
  match (psz.takeWhile (!isspace ·)).foldlM decodeChar ⟨List.replicate size 0, 0⟩ with
  | none => none
  | some b256 =>
    if (psz.dropWhile (!isspace ·)).dropWhile isspace ≠ [] then none
    else some (List.replicate zeroes 0 ++ b256.leading.map UInt8.ofNat)

def encodeBase58 (vch : List UInt8) : Option (List UInt8) :=
  let zeroes := (vch.takeWhile (· == 0)).length
  let bytes := vch.dropWhile (· == 0)
  let size := bytes.length * 138 / 100 + 1
  ((bytes.map UInt8.toNat).foldlM (Numeral.push 58 256) ⟨List.replicate size 0, 0⟩).map fun b58 =>
    List.replicate zeroes 49 ++ b58.leading.map charOf

/-! ### Addresses -/

/-- A network's address versions, and the double hash that checksums are cut from. -/
structure AddressParams where
  pubkeyAddress : UInt8
  scriptAddress : UInt8
  stakingAddress : UInt8
  script_ne_staking : scriptAddress ≠ stakingAddress
  hash : List UInt8 → List UInt8
  hash_length : ∀ v, (hash v).length = 32

inductive CTxDestination
  | noDestination
  | keyID (id : List UInt8)
  | scriptID (id : List UInt8)
  deriving DecidableEq, Repr

section
variable (P : AddressParams)

def encodeBase58Check (vchIn : List UInt8) : Option (List UInt8) :=
  encodeBase58 (vchIn ++ (P.hash vchIn).take 4)

def decodeBase58Check (psz : List UInt8) : Option (List UInt8) :=
  match decodeBase58 psz with
  | none => none
  | some vch =>
    if vch.length < 4 then none
    else if (P.hash (vch.take (vch.length - 4))).take 4 ≠ vch.drop (vch.length - 4) then none
    else some (vch.take (vch.length - 4))

/-- The destination, and whether it is a cold staking address. -/
def decodeDestination (str : List UInt8) : CTxDestination × Bool :=
  match decodeBase58Check P str with
  | none => (.noDestination, false)
  | some data =>
    if data.length = 21 ∧ data.head? = some P.pubkeyAddress then (.keyID (data.drop 1), false)
    else if data.length = 21 ∧ data.head? = some P.stakingAddress then (.keyID (data.drop 1), true)
    else if data.length = 21 ∧ data.head? = some P.scriptAddress then (.scriptID (data.drop 1), false)
    else (.noDestination, false)

def isValidDestination (dest : CTxDestination) : Bool := decide (dest ≠ .noDestination)

/-- Is this a valid address, and (not) one for cold staking? -/
def isValidDestinationString (str : List UInt8) (fStaking : Bool) : Bool :=
  isValidDestination (decodeDestination P str).1 && ((decodeDestination P str).2 == fStaking)

def encodeDestination : CTxDestination → Option (List UInt8)
  | .noDestination => some []
  | .keyID id => encodeBase58Check P (P.pubkeyAddress :: id)
  | .scriptID id => encodeBase58Check P (P.scriptAddress :: id)

/-- Determines the address associated with a given hash and version. -/
def hashToAddress (version : UInt8) (hash : List UInt8) : Option (List UInt8) :=
  if version = P.pubkeyAddress then encodeDestination P (.keyID hash)
  else if version = P.scriptAddress then encodeDestination P (.scriptID hash)
  else some []

end

/-- Returns a vector of bytes containing the version and hash160 for an address. -/
def addressToBytes (address : List UInt8) : List UInt8 :=
  match decodeBase58 address with
  | none => []
  | some addressBytes => if addressBytes.length = 25 then addressBytes.take 21 else addressBytes

/-! ### The alphabet -/

/-- The alphabet, character by character: none is a space or a zero, the first is `1`, and
each is found where it stands. -/
theorem pszBase58_spec : pszBase58.length = 58 ∧ ∀ d < 58, isspace (charOf d) = false ∧ charOf d ≠ 0 ∧
    (charOf d == 49) = (d == 0) ∧ pszBase58.idxOf? (charOf d) = some d := by
  decide +kernel

theorem charOf_beyond (h : 58 ≤ d) : charOf d = 0 := by
  have hlen := pszBase58_spec.1
  rw [charOf, List.getD_eq_getElem?_getD, List.getElem?_eq_none (by omega)]
  rfl

theorem isspace_charOf (d : Nat) : isspace (charOf d) = false := by
  by_cases h : d < 58
  · exact (pszBase58_spec.2 d h).1
  · rw [charOf_beyond (Nat.le_of_not_lt h)]
    rfl

theorem charOf_ne_zero (h : d < 58) : charOf d ≠ 0 := (pszBase58_spec.2 d h).2.1

theorem charOf_eq_one (d : Nat) : (charOf d == 49) = (d == 0) := by
  by_cases h : d < 58
  · exact (pszBase58_spec.2 d h).2.2.1
  · rw [charOf_beyond (Nat.le_of_not_lt h)]
    exact (beq_eq_false_iff_ne.mpr (by omega)).symm

theorem idxOf_charOf (h : d < 58) : pszBase58.idxOf? (charOf d) = some d :=
  (pszBase58_spec.2 d h).2.2.2

theorem charOf_of_idxOf {c : UInt8} (h : pszBase58.idxOf? c = some d) : d < 58 ∧ charOf d = c := by
  obtain ⟨hd, heq, -⟩ := List.idxOf?_eq_some_iff.mp h
  refine ⟨pszBase58_spec.1 ▸ hd, ?_⟩
  rw [charOf, List.getD_eq_getElem?_getD, List.getElem?_eq_getElem hd, heq]
  rfl

/-! ### Conversion -/

theorem cStr_of_nulFree {s : List UInt8} (h : ∀ c ∈ s, c ≠ 0) : cStr s = s := by
  rw [cStr, List.takeWhile_eq_self_iff]
  intro c hc
  simpa using h c hc

theorem room_bytes (n : Nat) : 58 ^ n ≤ 256 ^ (n * 733 / 1000 + 1) :=
  pow_le_of_ratio (by decide) (by decide) (by decide +kernel) n

theorem room_chars (n : Nat) : 256 ^ n ≤ 58 ^ (n * 138 / 100 + 1) :=
  pow_le_of_ratio (by decide) (by decide) (by decide +kernel) n

theorem byte_lt {v : List UInt8} : ∀ x ∈ v.map UInt8.toNat, x < 256 := by
  intro x hx
  obtain ⟨c, -, rfl⟩ := List.mem_map.mp hx
  exact c.toNat_lt

theorem ofNat_toNat_map (v : List UInt8) : (v.map UInt8.toNat).map UInt8.ofNat = v := by
  rw [List.map_map]
  exact (List.map_congr_left fun c _ => UInt8.ofNat_toNat).trans (List.map_id v)

theorem toNat_ofNat_map {xs : List Nat} (h : ∀ x ∈ xs, x < 256) : (xs.map UInt8.ofNat).map UInt8.toNat = xs := by
  rw [List.map_map]
  refine (List.map_congr_left fun x hx => ?_).trans (List.map_id xs)
  exact UInt8.toNat_ofNat_of_lt' (h x hx)

theorem encodeBase58_eq (vch : List UInt8) :
    encodeBase58 vch = some ((rebase 256 58 (vch.map UInt8.toNat)).map charOf) := by
  have hpred : (fun x : Nat => x == 0) ∘ UInt8.toNat = fun c : UInt8 => c == 0 := by
    funext c
    by_cases hc : c = 0
    · rw [hc]
      rfl
    · have hne : c.toNat ≠ 0 := fun h => hc (UInt8.toNat_inj.mp h)
      simp [hc, hne]
  have hroom : ofDigits 256 ((vch.dropWhile (· == 0)).map UInt8.toNat).reverse <
      58 ^ ((vch.dropWhile (· == 0)).length * 138 / 100 + 1) := by
    have h := ofDigits_reverse_lt (by decide) (byte_lt (v := vch.dropWhile (· == 0)))
    rw [List.length_map] at h
    exact Nat.lt_of_lt_of_le h (room_chars _)
  have hconv := convert_digits 58 256 (by decide) (by decide) hroom
  rw [Option.map_eq_some_iff] at hconv
  obtain ⟨n, hn, hlead⟩ := hconv
  rw [encodeBase58]
  rw [hn, Option.map_some, hlead, rebase, List.takeWhile_map, List.dropWhile_map, hpred, List.length_map,
    List.map_append, List.map_replicate]
  rfl

theorem foldlM_decodeChar {ds : List Nat} (h : ∀ d ∈ ds, d < 58) (n : Numeral) :
    (ds.map charOf).foldlM decodeChar n = ds.foldlM (Numeral.push 256 58) n := by
  induction ds generalizing n with
  | nil => rfl
  | cons d ds ih =>
    have hd : decodeChar n (charOf d) = n.push 256 58 d := by
      rw [decodeChar, idxOf_charOf (h d List.mem_cons_self)]
    rw [List.map_cons, List.foldlM_cons, List.foldlM_cons, hd]
    congr 1
    funext n'
    exact ih (fun x hx => h x (.tail _ hx)) n'

theorem digits_of_decodeChar {cs : List UInt8} {n n' : Numeral} (h : cs.foldlM decodeChar n = some n') :
    ∃ ds : List Nat, cs = ds.map charOf ∧ ∀ d ∈ ds, d < 58 := by
  induction cs generalizing n with
  | nil => exact ⟨[], rfl, fun _ hd => absurd hd List.not_mem_nil⟩
  | cons c cs ih =>
    rw [List.foldlM_cons] at h
    cases hidx : pszBase58.idxOf? c with
    | none =>
      rw [decodeChar, hidx] at h
      cases h
    | some d =>
      obtain ⟨hd, hc⟩ := charOf_of_idxOf hidx
      obtain ⟨n₁, -, hrest⟩ := Option.bind_eq_some_iff.mp h
      obtain ⟨ds, hds, hlt⟩ := ih hrest
      refine ⟨d :: ds, ?_, List.forall_mem_cons.mpr ⟨hd, hlt⟩⟩
      rw [List.map_cons, hc, ← hds]

theorem decodeBase58_map {ds : List Nat} (hlt : ∀ d ∈ ds, d < 58) :
    decodeBase58 (ds.map charOf) = some ((rebase 58 256 ds).map UInt8.ofNat) := by
  have hnul : cStr (ds.map charOf) = ds.map charOf := by
    refine cStr_of_nulFree fun c hc => ?_
    obtain ⟨d, hd, rfl⟩ := List.mem_map.mp hc
    exact charOf_ne_zero (hlt d hd)
  have hskip : (ds.map charOf).dropWhile isspace = ds.map charOf := by
    cases ds with
    | nil => rfl
    | cons d ds =>
      rw [List.map_cons, List.dropWhile_cons, if_neg (by rw [isspace_charOf]; exact Bool.false_ne_true)]
  have hpred : (fun c : UInt8 => c == 49) ∘ charOf = fun d : Nat => d == 0 := funext charOf_eq_one
  have hword : ∀ c ∈ (ds.dropWhile (· == 0)).map charOf, (!isspace c) = true := by
    intro c hc
    obtain ⟨d, -, rfl⟩ := List.mem_map.mp hc
    rw [isspace_charOf]
    rfl
  have hlt' : ∀ d ∈ ds.dropWhile (· == 0), d < 58 := fun d hd =>
    hlt d ((List.dropWhile_sublist _).subset hd)
  have hroom : ofDigits 58 (ds.dropWhile (· == 0)).reverse <
      256 ^ ((ds.dropWhile (· == 0)).length * 733 / 1000 + 1) :=
    Nat.lt_of_lt_of_le (ofDigits_reverse_lt (by decide) hlt') (room_bytes _)
  have hconv := convert_digits 256 58 (by decide) (by decide) hroom
  rw [Option.map_eq_some_iff] at hconv
  obtain ⟨n, hn, hlead⟩ := hconv
  rw [decodeBase58]
  rw [hnul, hskip, List.takeWhile_map, List.dropWhile_map, hpred, List.length_map, List.length_map,
    List.takeWhile_eq_self_iff.mpr hword, List.dropWhile_eq_nil_iff.mpr hword,
    foldlM_decodeChar hlt', hn]
  show some (_ ++ n.leading.map UInt8.ofNat) = _
  rw [hlead, rebase, List.map_append, List.map_replicate]
  rfl

theorem decodeBase58_encodeBase58 (h : encodeBase58 vch = some str) :
    decodeBase58 str = some vch := by
  rw [encodeBase58_eq, Option.some.injEq] at h
  rw [← h, decodeBase58_map (rebase_lt (by decide) _), rebase_rebase (by decide) byte_lt, ofNat_toNat_map]

theorem encodeBase58_decodeBase58 (hnul : ∀ c ∈ str, c ≠ 0)
    (hspace : ∀ c ∈ str, isspace c = false) (h : decodeBase58 str = some vch) :
    encodeBase58 vch = some str := by
  have hskip : (cStr str).dropWhile isspace = str := by
    rw [cStr_of_nulFree hnul]
    cases str with
    | nil => rfl
    | cons c cs =>
      rw [List.dropWhile_cons,
        if_neg (by rw [hspace c List.mem_cons_self]; exact Bool.false_ne_true)]
  have hword : ∀ c ∈ str.dropWhile (· == 49), (!isspace c) = true := by
    intro c hc
    rw [hspace c ((List.dropWhile_sublist _).subset hc)]
    rfl
  -- the characters are digits
  have hdigits : ∃ ds : List Nat, str = ds.map charOf ∧ ∀ d ∈ ds, d < 58 := by
    have hread := h
    rw [decodeBase58] at hread
    rw [hskip, List.takeWhile_eq_self_iff.mpr hword] at hread
    split at hread
    · cases hread
    · rename_i n hn
      obtain ⟨ds, hds, hlt⟩ := digits_of_decodeChar hn
      refine ⟨List.replicate (str.takeWhile (· == 49)).length 0 ++ ds, ?_, ?_⟩
      · rw [List.map_append, ← hds, List.map_replicate]
        conv => lhs; rw [← List.takeWhile_append_dropWhile (p := (· == 49)) (l := str)]
        congr 1
        refine List.eq_replicate_of_mem fun c hc => ?_
        have h49 := List.mem_takeWhile_imp hc
        rw [beq_iff_eq] at h49
        rw [h49]
        rfl
      · intro d hd
        rcases List.mem_append.mp hd with hd | hd
        · rw [List.eq_of_mem_replicate hd]
          decide
        · exact hlt d hd
  obtain ⟨ds, rfl, hlt⟩ := hdigits
  rw [decodeBase58_map hlt, Option.some.injEq] at h
  rw [← h, encodeBase58_eq, toNat_ofNat_map (rebase_lt (by decide) _), rebase_rebase (by decide) hlt]

theorem encodeBase58_chars (h : encodeBase58 vch = some str) :
    ∀ c ∈ str, isspace c = false := by
  rw [encodeBase58_eq, Option.some.injEq] at h
  intro c hc
  rw [← h] at hc
  obtain ⟨d, -, rfl⟩ := List.mem_map.mp hc
  exact isspace_charOf d

theorem encodeBase58_length (h : encodeBase58 vch = some str) :
    str.length ≤ vch.length + (vch.length * 138 / 100 + 1) := by
  rw [encodeBase58_eq, Option.some.injEq] at h
  have hlt : ∀ x ∈ (vch.map UInt8.toNat).dropWhile (· == 0), x < 256 := fun x hx =>
    byte_lt x ((List.dropWhile_sublist _).subset hx)
  have hle : ((vch.map UInt8.toNat).dropWhile (· == 0)).length ≤ vch.length := by
    have := (List.dropWhile_sublist (fun x : Nat => x == 0) (l := vch.map UInt8.toNat)).length_le
    rwa [List.length_map] at this
  have hroom : ofDigits 256 ((vch.map UInt8.toNat).dropWhile (· == 0)).reverse <
      58 ^ (vch.length * 138 / 100 + 1) := by
    calc ofDigits 256 ((vch.map UInt8.toNat).dropWhile (· == 0)).reverse
        < 256 ^ ((vch.map UInt8.toNat).dropWhile (· == 0)).length := ofDigits_reverse_lt (by decide) hlt
      _ ≤ 256 ^ vch.length := Nat.pow_le_pow_right (by decide) hle
      _ ≤ 58 ^ (vch.length * 138 / 100 + 1) := room_chars _
  have := rebase_length_le (by decide) hroom
  rw [List.length_map] at this
  rwa [← h, List.length_map]

/-! ### The address of a payload -/

section
variable {P : AddressParams}

/-- An address as it is written: a valid key or script address, with no white space around it. -/
def TokenAddress (P : AddressParams) (address : List UInt8) : Prop :=
  (∀ c ∈ address, isspace c = false) ∧ isValidDestinationString P address false = true

instance (P : AddressParams) (address : List UInt8) : Decidable (TokenAddress P address) :=
  inferInstanceAs (Decidable (_ ∧ _))

theorem decodeBase58Check_encode (h : encodeBase58Check P vch = some str) :
    decodeBase58Check P str = some vch := by
  have hlen : ((P.hash vch).take 4).length = 4 := by
    rw [List.length_take, P.hash_length]
    rfl
  rw [encodeBase58Check] at h
  rw [decodeBase58Check, decodeBase58_encodeBase58 h]
  show (if _ then _ else _) = _
  have hsize : (vch ++ (P.hash vch).take 4).length - 4 = vch.length := by
    rw [List.length_append, hlen]
    omega
  rw [hsize, List.take_left, List.drop_left, if_neg (by rw [List.length_append]; omega),
    if_neg (not_not_intro rfl)]

theorem decodeBase58_of_check {data : List UInt8} (h : decodeBase58Check P str = some data) :
    decodeBase58 str = some (data ++ (P.hash data).take 4) := by
  rw [decodeBase58Check] at h
  split at h
  · cases h
  · rename_i vch hvch
    by_cases hlt : vch.length < 4
    · rw [if_pos hlt] at h
      cases h
    · rw [if_neg hlt] at h
      by_cases hsum : (P.hash (vch.take (vch.length - 4))).take 4 = vch.drop (vch.length - 4)
      · rw [if_neg (not_not_intro hsum), Option.some.injEq] at h
        rw [← h, hsum, List.take_append_drop, hvch]
      · rw [if_pos hsum] at h
        cases h

theorem isValidDestinationString_iff :
    isValidDestinationString P str false = true ↔
      ∃ v hash, decodeBase58Check P str = some (v :: hash) ∧ hash.length = 20 ∧
        (v = P.pubkeyAddress ∨ v = P.scriptAddress) := by
  rw [isValidDestinationString, decodeDestination]
  cases hdata : decodeBase58Check P str with
  | none =>
    constructor
    · intro h
      cases h
    · rintro ⟨v, hash, h, -⟩
      cases h
  | some data =>
    have hcons : data.length = 21 ∧ data.head? = some P.pubkeyAddress →
        ∃ hash, data = P.pubkeyAddress :: hash ∧ hash.length = 20 := by
      rintro ⟨hlen, hhead⟩
      obtain ⟨hash, rfl⟩ := List.head?_eq_some_iff.mp hhead
      exact ⟨hash, rfl, by simpa using hlen⟩
    have hcons' : data.length = 21 ∧ data.head? = some P.scriptAddress →
        ∃ hash, data = P.scriptAddress :: hash ∧ hash.length = 20 := by
      rintro ⟨hlen, hhead⟩
      obtain ⟨hash, rfl⟩ := List.head?_eq_some_iff.mp hhead
      exact ⟨hash, rfl, by simpa using hlen⟩
    dsimp only
    constructor
    · intro h
      by_cases hkey : data.length = 21 ∧ data.head? = some P.pubkeyAddress
      · obtain ⟨hash, rfl, hlen⟩ := hcons hkey
        exact ⟨_, hash, rfl, hlen, .inl rfl⟩
      · rw [if_neg hkey] at h
        by_cases hstake : data.length = 21 ∧ data.head? = some P.stakingAddress
        · rw [if_pos hstake] at h
          cases h
        · rw [if_neg hstake] at h
          by_cases hscript : data.length = 21 ∧ data.head? = some P.scriptAddress
          · obtain ⟨hash, rfl, hlen⟩ := hcons' hscript
            exact ⟨_, hash, rfl, hlen, .inr rfl⟩
          · rw [if_neg hscript] at h
            exact absurd h (by simp [isValidDestination])
    · rintro ⟨v, hash, hv, hlen, hversion⟩
      cases hv
      by_cases hkey : v = P.pubkeyAddress
      · rw [if_pos ⟨by simp [hlen], by rw [hkey]; rfl⟩]
        rfl
      · have hscript : v = P.scriptAddress := hversion.resolve_left hkey
        have hstake : v ≠ P.stakingAddress := hscript ▸ P.script_ne_staking
        rw [if_neg (fun h => hkey (Option.some.inj h.2)), if_neg (fun h => hstake (Option.some.inj h.2)),
          if_pos ⟨by simp [hlen], by rw [hscript]; rfl⟩]
        rfl

theorem hashToAddress_of_version (hash : List UInt8)
    (h : v = P.pubkeyAddress ∨ v = P.scriptAddress) :
    hashToAddress P v hash = encodeBase58Check P (v :: hash) := by
  by_cases hkey : v = P.pubkeyAddress
  · rw [hashToAddress, if_pos hkey, hkey]
    rfl
  · rw [hashToAddress, if_neg hkey, if_pos (h.resolve_left hkey), h.resolve_left hkey]
    rfl

/-- An address that is found for a hash and a version is one that is written so. -/
theorem hashToAddress_eq {hash : List UInt8} (h : hashToAddress P v hash = some address)
    (hne : address ≠ []) :
    (v = P.pubkeyAddress ∨ v = P.scriptAddress) ∧ encodeBase58Check P (v :: hash) = some address := by
  by_cases hversion : v = P.pubkeyAddress ∨ v = P.scriptAddress
  · exact ⟨hversion, hashToAddress_of_version hash hversion ▸ h⟩
  · rw [not_or] at hversion
    rw [hashToAddress, if_neg hversion.1, if_neg hversion.2, Option.some.injEq] at h
    exact absurd h.symm hne

theorem TokenAddress.of_hash {hash : List UInt8} (hlen : hash.length = 20)
    (h : hashToAddress P v hash = some address) (hne : address ≠ []) : TokenAddress P address := by
  obtain ⟨hversion, henc⟩ := hashToAddress_eq h hne
  exact ⟨encodeBase58_chars henc, isValidDestinationString_iff.mpr
    ⟨v, hash, decodeBase58Check_encode henc, hlen, hversion⟩⟩

theorem hashToAddress_length {hash : List UInt8} (hlen : hash.length = 20)
    (h : hashToAddress P v hash = some address) : address.length < 255 := by
  by_cases hne : address = []
  · rw [hne]
    decide
  · have hle := encodeBase58_length (hashToAddress_eq h hne).2
    rw [List.length_append, List.length_cons, hlen, List.length_take, P.hash_length] at hle
    omega

/-- **What a freeze reads back.** The version and hash that are written for an
address give it back exactly when it is the spelling of a key or script address. -/
theorem addressToBytes_iff (hnul : ∀ c ∈ address, c ≠ 0) :
    (∃ v hash, hash.length = 20 ∧ (addressToBytes address).take 21 = v :: hash ∧
      hashToAddress P v hash = some (address.take 255) ∧ address.take 255 ≠ []) ↔
      TokenAddress P address := by
  constructor
  · rintro ⟨v, hash, hlen, -, hback, hne⟩
    have hshort := hashToAddress_length hlen hback
    rw [List.length_take] at hshort
    rw [List.take_of_length_le (by omega)] at hback hne
    exact TokenAddress.of_hash hlen hback hne
  · rintro ⟨hspace, hvalid⟩
    obtain ⟨v, hash, hcheck, hlen, hversion⟩ := isValidDestinationString_iff.mp hvalid
    have hbytes := decodeBase58_of_check hcheck
    have hsum : ((P.hash (v :: hash)).take 4).length = 4 := by
      rw [List.length_take, P.hash_length]
      rfl
    have hwritten : addressToBytes address = v :: hash := by
      rw [addressToBytes, hbytes]
      show (if _ then _ else _) = _
      rw [if_pos (by rw [List.length_append, hsum, List.length_cons, hlen]),
        show 21 = (v :: hash).length by rw [List.length_cons, hlen], List.take_left]
    have hback : hashToAddress P v hash = some address := by
      rw [hashToAddress_of_version hash hversion, encodeBase58Check]
      exact encodeBase58_decodeBase58 hnul hspace hbytes
    have hshort := hashToAddress_length hlen hback
    have hne : address ≠ [] := by
      rintro rfl
      rw [show decodeBase58 [] = some [] by rfl] at hbytes
      exact absurd (Option.some.inj hbytes) (by simp)
    refine ⟨v, hash, hlen, ?_, ?_, ?_⟩
    · rw [hwritten, List.take_of_length_le (by rw [List.length_cons, hlen])]
    · rwa [List.take_of_length_le (Nat.le_of_lt hshort)]
    · rwa [List.take_of_length_le (Nat.le_of_lt hshort)]

end

end Rapids.Payload
